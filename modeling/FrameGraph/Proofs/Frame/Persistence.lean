import FrameGraph.Proofs.Frame.Reentry
import FrameGraph.Proofs.Memory.Stale
import FrameGraph.Proofs.Timeline.Tight

/-!
# Persistent resources keep their backings

A backing is kept over any run as long as each compilation finds its resource redeclared, used or not,
and no longer.  A frame gives a used persistent resource the backing that is kept for it.  If there is
none, it tries once to create one: if the attempt fails, nothing is left of it, and the next frame tries
again.  The resource is new to the frame exactly if the attempt succeeds, and an image that is new has a
first barrier that discards its content.

Principal statements: `Graph.Reachable.upholds`, `Graph.Reachable.kept_iff` and
`Graph.Reachable.persistent_kept`.
-/

set_option autoImplicit false

namespace FrameGraph

namespace Graph

variable {g g' : Graph} {name : String}

/-! ## One frame -/

/-- What a frame does for a persistent resource of the plan, what it attempts for it, and what the
device is asked under its name.

* `unused`: no scheduled pass accesses the resource, and what is kept for it stays.  The device is asked
  nothing.
* `kept`: the resource has the backing that was kept for it.  The device is asked nothing.
* `created`: there was none.  The device is asked for memory once and for an object once, and what it
  grants is the backing.
* `failed`: there was none.  The device is asked for memory once, and if it grants any, for an object
  once; the request that it refuses is the last.  What is on the device afterwards belongs to the pool,
  or is behind another persistent resource. -/
inductive Upholds (g g' : Graph) (frame : FrameObjects) (h : Handle) (resource : Resource)
    (attempted : List Event) : Prop
  | unused (hunused : ∀ position, ¬ AccessedAt g.plan.order g.passes h position)
      (hattempted : attempted = []) (hquiet : g.device.Quiet resource.name g'.device)
      (hnew : h ∉ frame.created)
      (hsame : g'.backings.get? resource.name = g.backings.get? resource.name)
  | kept (backing : Backing) (hused : ∃ position, AccessedAt g.plan.order g.passes h position)
      (hattempted : attempted = []) (hquiet : g.device.Quiet resource.name g'.device)
      (hnew : h ∉ frame.created)
      (hbefore : g.backings.get? resource.name = some backing)
      (hafter : g'.backings.get? resource.name = some backing)
      (hmemory : g'.device.memoryOf? backing.object = some backing.memory)
      (hobject : frame.objects.get? h = some backing.object)
  | created (backing : Backing) (hused : ∃ position, AccessedAt g.plan.order g.passes h position)
      (hattempted : attempted = [.persistentCreated resource.name])
      (hasks : g.device.Asks g'.device resource (.ok backing)) (hnew : h ∈ frame.created)
      (hbefore : g.backings.get? resource.name = none)
      (hafter : g'.backings.get? resource.name = some backing)
      (hinfo : backing.info = resource.info)
      (hmemory : g'.device.memoryOf? backing.object = some backing.memory)
      (hobject : frame.objects.get? h = some backing.object)
  | failed (error : DeviceError)
      (hused : ∃ position, AccessedAt g.plan.order g.passes h position)
      (hattempted : attempted = [.persistentFailed resource.name error])
      (hasks : g.device.Asks g'.device resource (.error error)) (hnew : h ∉ frame.created)
      (hbefore : g.backings.get? resource.name = none)
      (hafter : g'.backings.get? resource.name = none) (hobject : frame.objects.get? h = none)
      (hgone : ∀ x ∈ g'.device.live, x ∈ g'.pool.things ∨ ∃ other backing, other ≠ resource.name ∧
        g'.backings.get? other = some backing ∧ x ∈ backing.things)

/-- The first barrier on a resource discards the content of its image. -/
def StartsUndefined (h : Handle) (marks : List Mark) : Prop :=
  ∃ b rest, Mark.barriersFor h marks = b :: rest ∧ b.oldLayout = .undefined

/-- What is on the device belongs to the pool or is behind a persistent resource. -/
theorem Reachable.mem_things_of_live (hg : g.Reachable) {x : Disposal} (hx : x ∈ g.device.live) :
    x ∈ g.pool.things ∨
      ∃ name backing, g.backings.get? name = some backing ∧ x ∈ backing.things := by
  have hheld : x ∈ g.pool.things ++ g.backings.things := hg.ledger.live.mem_iff.1 hx
  refine (List.mem_append.1 hheld).imp_right fun hbacking => ?_
  obtain ⟨entry, hentry, hthing⟩ := List.mem_flatMap.1 hbacking
  exact ⟨entry.1, entry.2, hg.holdings.names.get?_eq hentry, hthing⟩

/-- A frame attempts what it attempts while its resources are resolved. -/
theorem attempts_execute {index : Nat} (hindex : index < g.settings.framesInFlight) {r : Resolution}
    (hok : (resolveFrame index g.upToDate.registry g.upToDate.plan.table
      (g.resolution index)).result = .ok r) :
    attempts name (g.execute index).events =
      attempts name (resolveFrame index g.upToDate.registry g.upToDate.plan.table
        (g.resolution index)).events := by
  have hbegin : attempts name (if g.isCompiled then pure g else g.compile : Logged Graph).events = [] := by
    split
    · rfl
    · exact attempts_compile g
  have hresolve : (g.upToDate.recycle index).resolve index =
      resolveFrame index g.upToDate.registry g.upToDate.plan.table (g.resolution index) >>= fun r =>
        pure (r.frame, { g.upToDate.recycle index with
          device := r.device
          backings := r.backings
          pool := r.pool }) := rfl
  obtain ⟨resolved, hresolved⟩ :
      ∃ resolved, ((g.upToDate.recycle index).resolve index).result = .ok resolved := by
    rw [hresolve, Outcome.result_bind, hok]
    exact ⟨_, rfl⟩
  rw [execute_of_in_flight hindex, Outcome.events_bind_of_ok (Outcome.result_ofLogged _), attempts_append,
    value_upToDate, Outcome.events_bind_of_ok hresolved, attempts_append,
    Outcome.events_ofLogged (resolved.2.recordFrame ..), attempts_recordFrame, List.append_nil,
    hresolve, Outcome.events_bind_of_ok hok, Outcome.events_pure, List.append_nil]
  exact congrArg (· ++ _) hbegin

section Frame

variable {index : Nat} {r : Resolution} {h : Handle} {resource : Resource} (hg : g.Reachable)
  (hok : (resolveFrame index g.upToDate.registry g.upToDate.plan.table
    (g.resolution index)).result = .ok r)
  (hget : g.upToDate.registry.get? h = some resource)

include hg hget

/-- A resource of the plan has a lifetime if a scheduled pass accesses it. -/
theorem isSome_lifetime_iff : resource.lifetime.isSome = true ↔
    ∃ position, AccessedAt g.upToDate.plan.order g.upToDate.passes h position := by
  rw [hg.upToDate.isTimed hg.isSound.upToDate.2 h resource hget]
  exact lifetimeOf_isSome_iff

/-- In the plan of a frame a backing of that name has the description of the resource. -/
theorem info_of_backing {backing : Backing}
    (hbacking : g.upToDate.backings.get? resource.name = some backing) :
    resource.info = backing.info :=
  have hdeclared := hg.upToDate.declares hg.isSound.upToDate.2 hbacking
  (hdeclared.info_eq hg.isSound.upToDate.1.declared.wellFormed hget rfl).2

variable (hpersistent : resource.isPersistent = true)

include hok hpersistent

/-- **What a frame does for a persistent resource.** -/
theorem upholds_frame (hnext : (g.afterFrame index r).Reachable) :
    g.upToDate.Upholds (g.afterFrame index r) r.frame h resource
      (attempts resource.name (resolveFrame index g.upToDate.registry g.upToDate.plan.table
        (g.resolution index)).events) := by
  have hused := isSome_lifetime_iff hg hget
  have hbegin : g.upToDate.device.Quiet resource.name (g.resolution index).device :=
    g.upToDate.pool.quiet_recycle g.upToDate.device index
  have hend : r.device.Quiet resource.name (g.afterFrame index r).device := .of_calls rfl rfl
  have hvacant : (∀ b, g.upToDate.backings.get? resource.name = some b → b.info ≠ resource.info) →
      g.upToDate.backings.get? resource.name = none := fun hdiffer =>
    Option.eq_none_iff_forall_not_mem.2 fun b hb =>
      hdiffer b hb (info_of_backing hg hget hb).symm
  cases provides_resolveFrame hg.isSound.upToDate.1.declared.wellFormed hget hpersistent rfl hok with
  | unused hunused hattempted hquiet hnew hsame hobject =>
      refine .unused (fun position hposition => ?_) hattempted ((hbegin.trans hquiet).trans hend)
        hnew hsame
      have hlifetime := hused.2 ⟨position, hposition⟩
      rw [hunused] at hlifetime
      cases hlifetime
  | kept backing hlifetime hattempted hquiet hnew hsame hbefore hinfo hobject =>
      have hafter := hsame.trans hbefore
      exact .kept backing (hused.1 hlifetime) hattempted ((hbegin.trans hquiet).trans hend) hnew
        hbefore hafter (hnext.backed hafter).2 hobject
  | created backing hlifetime hattempted hasks hnew hdiffer hafter hinfo hobject =>
      exact .created backing (hused.1 hlifetime) hattempted (hasks.of_quiet hbegin hend) hnew
        (hvacant hdiffer) hafter hinfo (hnext.backed hafter).2 hobject
  | failed error hlifetime hattempted hasks hnew hdiffer hafter hobject =>
      refine .failed error (hused.1 hlifetime) hattempted (hasks.of_quiet hbegin hend) hnew
        (hvacant hdiffer) hafter hobject fun x hx => (hnext.mem_things_of_live hx).imp_right ?_
      rintro ⟨other, backing, hother, hthing⟩
      refine ⟨other, backing, ?_, hother, hthing⟩
      rintro rfl
      cases hafter.symm.trans hother

/-- **A persistent image is new to a frame exactly if its first barrier discards its content.** -/
theorem mem_created_iff_startsUndefined (hkind : resource.kind = .image) :
    h ∈ r.frame.created ↔ StartsUndefined h (g.frameMarks index r) := by
  have himported : resource.isImported = false := by
    rw [Resource.isImported, of_decide_eq_true hpersistent]
  have hnothing : r.frame.objects.get? h = none → ¬ StartsUndefined h (g.frameMarks index r) := by
    rintro hnone ⟨b, rest, hmarks, -⟩
    obtain ⟨m, hm, -⟩ := List.mem_map.1 (hmarks ▸ List.mem_cons_self :
      b ∈ Mark.barriersFor h (g.frameMarks index r))
    obtain ⟨hmem, hresource⟩ := List.mem_filter.1 hm
    obtain ⟨_, _, hmark⟩ := exists_isMark hg hok hmem
    have himage := hmark.image
    rw [of_decide_eq_true hresource, hnone] at himage
    cases himage
  -- With an object, the layouts chain from the layout in which the image enters the frame.
  have hchain : ∀ object, r.frame.objects.get? h = some object → resource.lifetime.isSome = true →
      (h ∈ r.frame.created ↔ StartsUndefined h (g.frameMarks index r)) := by
    intro object hobject hlifetime
    obtain ⟨lifetime, hlifetime⟩ := Option.isSome_iff_exists.1 hlifetime
    obtain ⟨timeline, htable, -⟩ :=
      hg.upToDate.exists_timeline hg.isSound.upToDate.2 hget hlifetime
    obtain ⟨image, himage⟩ : ∃ image, object.image? = some image := by
      have hobjectKind := (hg.kind_object hok hget hobject).trans hkind
      cases object with
      | image image view => exact ⟨image, rfl⟩
      | buffer buffer => cases hobjectKind
    have hfollow := follow_frameMarks hg hok hget hkind htable (by rw [hobject]; exact himage)
    have hleft := layoutAfter_ne_undefined hg hget hkind htable
    rw [hg.mem_created_iff hok hget hpersistent hobject]
    rw [entryLayout_of_persistent g r hpersistent, exitLayout_of_owned himported] at hfollow
    split at hfollow
    · next hsame =>
        refine ⟨fun hdiffer => absurd hsame hdiffer, ?_⟩
        rintro ⟨b, rest, hmarks, hold⟩
        rw [hmarks] at hfollow
        rw [← List.nil_append (b :: rest)] at hfollow
        have hentry := Layout.oldLayout_of_follow hfollow
        exact absurd (hentry.symm.trans hold) hleft
    · next hdiffer =>
        refine ⟨fun _ => ?_, fun _ => hdiffer⟩
        cases hmarks : Mark.barriersFor h (g.frameMarks index r) with
        | nil =>
            rw [hmarks] at hfollow
            exact absurd (Option.some.inj hfollow).symm hleft
        | cons b rest =>
            rw [hmarks, ← List.nil_append (b :: rest)] at hfollow
            exact ⟨b, rest, hmarks, Layout.oldLayout_of_follow hfollow⟩
  cases provides_resolveFrame hg.isSound.upToDate.1.declared.wellFormed hget hpersistent rfl hok with
  | unused _ _ _ hnew _ hobject => exact iff_of_false hnew (hnothing hobject)
  | kept backing hlifetime _ _ _ _ _ _ hobject => exact hchain _ hobject hlifetime
  | created backing hlifetime _ _ _ _ _ _ hobject => exact hchain _ hobject hlifetime
  | failed error _ _ _ hnew _ _ hobject => exact iff_of_false hnew (hnothing hobject)

end Frame

/-- **A frame upholds the persistent resources of its plan**, and their images are new to it exactly if
their first barriers discard their contents. -/
theorem Reachable.upholds (hg : g.Reachable) {index : Nat}
    (hindex : index < g.settings.framesInFlight) (hstep : g.perform (.execute index) = .ok g') :
    ∃ f, g.framesOf (.execute index) = [f] ∧ g'.device.commands = g.device.commands ++ f.commands ∧
      ∀ h resource, g.upToDate.registry.get? h = some resource → resource.isPersistent = true →
        g.upToDate.Upholds g' f.input.frame h resource
            (attempts resource.name (g.execute index).events) ∧
          (resource.kind = .image → (h ∈ f.input.frame.created ↔ StartsUndefined h f.marks)) := by
  obtain ⟨hout, -⟩ | ⟨-, r, hok, rfl⟩ := perform_execute_cases hstep
  · exact absurd hindex (Nat.not_lt.2 hout)
  · refine ⟨_, framesOf_execute hindex hok, (records_afterFrame hg hok).commands,
      fun h resource hget hpersistent => ⟨?_, fun hkind =>
        mem_created_iff_startsUndefined hg hok hget hpersistent hkind⟩⟩
    rw [attempts_execute hindex hok]
    exact upholds_frame hg hok hget hpersistent (hg.perform _ hstep)

/-! ## Runs -/

/-- Executing a frame compiles first if the plan is not up to date. -/
theorem perform_execute_upToDate (hg : g.Reachable) {index : Nat}
    (hindex : index < g.settings.framesInFlight) :
    g.upToDate.perform (.execute index) = g.perform (.execute index) := by
  have hagain : g.upToDate.upToDate = g.upToDate := upToDate_of_compiled hg.isSound.upToDate.2
  have hindex' : index < g.upToDate.settings.framesInFlight := by
    rw [settings_upToDate]
    exact hindex
  simp only [perform, result_execute hindex, result_execute hindex', hagain]

/-- Holds if the action compiles the declarations. -/
def compiles (g : Graph) : Action → Bool
  | .compile => true
  | .execute index => decide (index < g.settings.framesInFlight) && !g.isCompiled
  | _ => false

/-- Each compilation along the actions finds a persistent resource of that name and description
declared. -/
def Redeclares (name : String) (info : ResourceInfo) : Graph → List Action → Prop
  | _, [] => True
  | g, action :: rest =>
      (g.compiles action = true → g.Declares name info) ∧
        ∀ g', g.perform action = .ok g' → Redeclares name info g' rest

section Kept

variable {backing : Backing}

/-- A frame keeps the backings of its plan, and brings none of them back. -/
theorem get?_afterFrame_iff (hg : g.Reachable) {index : Nat} {r : Resolution}
    (hok : (resolveFrame index g.upToDate.registry g.upToDate.plan.table
      (g.resolution index)).result = .ok r) (hbacking : g.backings.get? name = some backing) :
    (g.afterFrame index r).backings.get? name = some backing ↔
      g.upToDate.backings.get? name = some backing := by
  have hw := hg.isSound.upToDate.1.declared.wellFormed
  constructor
  · intro hafter
    rcases Resolution.isNamed_resolveFrame hok _ (Backings.mem_of_get? hafter) with
      hstart | ⟨h, resource, hget, hpersistent, rfl⟩
    · exact hg.upToDate.holdings.names.get?_eq hstart
    · cases provides_resolveFrame hw hget hpersistent rfl hok with
      | unused _ _ _ _ hsame _ => exact hsame.symm.trans hafter
      | kept _ _ _ _ _ hsame _ _ _ => exact hsame.symm.trans hafter
      | created other _ _ _ _ hdiffer hother hinfo _ =>
          obtain rfl : other = backing := Option.some.inj (hother.symm.trans hafter)
          have hthere := (get?_backings_upToDate hg hget hpersistent hinfo).2 hbacking
          exact absurd hinfo (hdiffer other hthere)
      | failed _ _ _ _ _ _ hnone _ => cases hnone.symm.trans hafter
  · intro hthere
    obtain ⟨h, resource, hget, rfl, hpersistent, hinfo⟩ :=
      hg.upToDate.declares hg.isSound.upToDate.2 hthere
    cases provides_resolveFrame hw hget hpersistent rfl hok with
    | unused _ _ _ _ hsame _ => exact hsame.trans hthere
    | kept _ _ _ _ _ hsame _ _ _ => exact hsame.trans hthere
    | created _ _ _ _ _ hdiffer _ _ _ => exact absurd hinfo.symm (hdiffer backing hthere)
    | failed _ _ _ _ _ hdiffer _ _ => exact absurd hinfo.symm (hdiffer backing hthere)

/-- **One action keeps a backing exactly if it does not find its resource undeclared.** -/
theorem get?_perform_iff (hg : g.Reachable) {action : Action} (hdispose : action ≠ .dispose)
    (hstep : g.perform action = .ok g') (hbacking : g.backings.get? name = some backing) :
    g'.backings.get? name = some backing ↔
      (g.compiles action = true → g.Declares name backing.info) := by
  have hcompile : g.compile.value.backings.get? name = some backing ↔ g.Declares name backing.info :=
    ((releasesUndeclared_compile hg).kept name backing).trans (and_iff_right hbacking)
  cases action with
  | register op => cases hstep; exact iff_of_true hbacking fun h => by cases h
  | addPass d => cases hstep; exact iff_of_true hbacking fun h => by cases h
  | clear => cases hstep; exact iff_of_true hbacking fun h => by cases h
  | analyse => cases hstep; exact iff_of_true hbacking fun h => by cases h
  | takeCommands => cases hstep; exact iff_of_true hbacking fun h => by cases h
  | dispose => exact absurd rfl hdispose
  | compile =>
      cases hstep
      rw [hcompile]
      exact ⟨fun hdeclared _ => hdeclared, fun hdeclared => hdeclared rfl⟩
  | execute index =>
      obtain ⟨hindex, rfl⟩ | ⟨hindex, r, hok, rfl⟩ := perform_execute_cases hstep
      · refine iff_of_true hbacking fun h => ?_
        rw [compiles, decide_eq_false (Nat.not_lt.2 hindex)] at h
        cases h
      · rw [get?_afterFrame_iff hg hok hbacking, compiles, decide_eq_true hindex, Bool.true_and]
        unfold upToDate
        split
        · next hcompiled => exact iff_of_true hbacking fun h => by rw [hcompiled] at h; cases h
        · next hcompiled =>
            rw [hcompile, Bool.eq_false_of_not_eq_true hcompiled]
            exact ⟨fun hdeclared _ => hdeclared, fun hdeclared => hdeclared rfl⟩

/-- What was given up stays given up. -/
theorem mem_disposals_performAll (hg : g.Reachable) {actions : List Action}
    (hrun : g.performAll actions = .ok g') {x : Disposal} (hx : x ∈ g.device.disposals) :
    x ∈ g'.device.disposals := by
  induction actions generalizing g with
  | nil =>
      cases hrun
      exact hx
  | cons action rest ih =>
      obtain ⟨middle, hstep, hrest⟩ := performAll_cons_eq_ok_iff.1 hrun
      obtain ⟨gone, hgone, -⟩ := (turns_perform hg.ledger hg.holdings hstep).disposed
      refine ih (hg.perform action hstep) hrest ?_
      rw [show middle.device.disposals = g.device.disposals ++ gone from hgone]
      exact List.mem_append_left _ hx

/-- No backing has an object that was given up. -/
theorem Reachable.object_not_mem_disposals (hg : g.Reachable)
    (hbacking : g.backings.get? name = some backing) :
    backing.object.disposal ∉ g.device.disposals := by
  have hheld : backing.object.disposal ∈ g.held.things :=
    List.mem_append_right _
      (List.mem_flatMap.2 ⟨_, Backings.mem_of_get? hbacking, List.mem_cons_self⟩)
  exact fun hgone => (List.nodup_append.1 hg.ledger.nodup).2.2 _ hgone _ hheld rfl

/-- A backing that an action finds undeclared is given up. -/
theorem mem_disposals_of_undeclared (hg : g.Reachable) {action : Action}
    (hstep : g.perform action = .ok g') (hbacking : g.backings.get? name = some backing)
    (hcompiles : g.compiles action = true) (hundeclared : ¬ g.Declares name backing.info) :
    backing.object.disposal ∈ g'.device.disposals := by
  have hcompile : backing.object.disposal ∈ g.compile.value.device.disposals := by
    obtain ⟨gone, hgone, hmem⟩ := (releasesUndeclared_compile hg).released
    rw [hgone]
    exact List.mem_append_right _ ((hmem _).2 ⟨name, backing, hbacking, hundeclared, List.mem_cons_self⟩)
  cases action with
  | compile => cases hstep; exact hcompile
  | execute index =>
      obtain ⟨hindex, hnot⟩ := Bool.and_eq_true_iff.1 hcompiles
      have hcurrent : g.upToDate = g.compile.value :=
        if_neg fun hcompiled => by rw [hcompiled] at hnot; cases hnot
      rw [← perform_execute_upToDate hg (of_decide_eq_true hindex), hcurrent] at hstep
      have hrun : g.compile.value.performAll [.execute index] = .ok g' :=
        performAll_cons_eq_ok_iff.2 ⟨g', hstep, rfl⟩
      exact mem_disposals_performAll (hg.perform .compile rfl) hrun hcompile
  | _ => cases hcompiles

/-- **A backing is kept exactly as long as its resource is redeclared.** -/
theorem Reachable.kept_iff (hg : g.Reachable) {actions : List Action}
    (hdispose : ∀ action ∈ actions, action ≠ .dispose) (hrun : g.performAll actions = .ok g')
    (hbacking : g.backings.get? name = some backing) :
    g'.backings.get? name = some backing ↔ Redeclares name backing.info g actions := by
  induction actions generalizing g with
  | nil =>
      cases hrun
      exact iff_of_true hbacking trivial
  | cons action rest ih =>
      obtain ⟨middle, hstep, hrest⟩ := performAll_cons_eq_ok_iff.1 hrun
      have hmiddle := hg.perform action hstep
      have hkeeps := get?_perform_iff hg (hdispose action List.mem_cons_self) hstep hbacking
      have hother := fun a ha => hdispose a (List.mem_cons_of_mem _ ha)
      by_cases hdeclared : g.compiles action = true → g.Declares name backing.info
      · rw [ih hmiddle hother hrest (hkeeps.2 hdeclared), Redeclares]
        refine ⟨fun h => ⟨hdeclared, fun next hnext => ?_⟩, fun h => h.2 middle hstep⟩
        cases hstep.symm.trans hnext
        exact h
      · -- Once given up, the object of the backing is behind no resource any more.
        obtain ⟨hcompiles, hundeclared⟩ := Classical.not_imp.1 hdeclared
        have hgone := mem_disposals_of_undeclared hg hstep hbacking hcompiles hundeclared
        refine iff_of_false (fun hafter => ?_) fun h => hdeclared h.1
        exact (reachable_of_performAll hmiddle hrest).object_not_mem_disposals hafter
          (mem_disposals_performAll hmiddle hrest hgone)

end Kept

/-! ## Trying again -/

/-- Only a frame makes a backing. -/
theorem get?_eq_none_performAll (hg : g.Reachable) {actions : List Action}
    (hquiet : ∀ action ∈ actions, ∀ index, action ≠ .execute index)
    (hrun : g.performAll actions = .ok g') (hnone : g.backings.get? name = none) :
    g'.backings.get? name = none := by
  induction actions generalizing g with
  | nil =>
      cases hrun
      exact hnone
  | cons action rest ih =>
      obtain ⟨middle, hstep, hrest⟩ := performAll_cons_eq_ok_iff.1 hrun
      refine ih (hg.perform action hstep) (fun a ha => hquiet a (List.mem_cons_of_mem _ ha)) hrest ?_
      cases action with
      | compile =>
          cases hstep
          refine Option.eq_none_iff_forall_not_mem.2 fun backing hb => ?_
          cases hnone.symm.trans (((releasesUndeclared_compile hg).kept name backing).1 hb).1
      | dispose => cases hstep; rfl
      | execute index => exact absurd rfl (hquiet _ List.mem_cons_self index)
      | _ => cases hstep; exact hnone

/-- Without a backing, a frame attempts once to create one. -/
theorem Upholds.exists_attempt {frame : FrameObjects} {h : Handle} {resource : Resource}
    {attempted : List Event} (hup : g.Upholds g' frame h resource attempted)
    (hnone : g.backings.get? resource.name = none)
    (hused : ∃ position, AccessedAt g.plan.order g.passes h position) :
    ∃ created, attempted = [Resolution.attemptEvent resource.name created] ∧
      g.device.Asks g'.device resource created := by
  cases hup with
  | unused hunused =>
      obtain ⟨position, hposition⟩ := hused
      exact absurd hposition (hunused position)
  | kept backing _ _ _ _ hbefore => cases hnone.symm.trans hbefore
  | created backing _ hattempted hasks => exact ⟨.ok backing, hattempted, hasks⟩
  | failed error _ hattempted hasks => exact ⟨.error error, hattempted, hasks⟩

/-- How a graph treats its persistent resources from here on.

* `kept`: along a run, each backing is kept exactly as long as it is redeclared.
* `compiled`: compiling releases exactly what is not declared.
* `executed`: a frame upholds the persistent resources of its plan, and their images are new to it
  exactly if their first barriers discard their contents.
* `retried`: without a backing, the next frame that uses the resource attempts once to create one: it
  asks the device for what a backing needs, and reports what the device answers. -/
structure PersistsAsDeclared (g : Graph) : Prop where
  kept : ∀ actions g' name backing, (∀ action ∈ actions, action ≠ .dispose) →
    g.performAll actions = .ok g' → g.backings.get? name = some backing →
      (g'.backings.get? name = some backing ↔ Redeclares name backing.info g actions)
  compiled : g.ReleasesUndeclared g.compile.value
  executed : ∀ index g', index < g.settings.framesInFlight → g.perform (.execute index) = .ok g' →
    ∃ f, g.framesOf (.execute index) = [f] ∧ g'.device.commands = g.device.commands ++ f.commands ∧
      ∀ h resource, g.upToDate.registry.get? h = some resource → resource.isPersistent = true →
        g.upToDate.Upholds g' f.input.frame h resource
            (attempts resource.name (g.execute index).events) ∧
          (resource.kind = .image → (h ∈ f.input.frame.created ↔ StartsUndefined h f.marks))
  retried : ∀ actions between index g' h resource, g.backings.get? resource.name = none →
    (∀ action ∈ actions, ∀ i, action ≠ .execute i) → g.performAll actions = .ok between →
      index < between.settings.framesInFlight → between.perform (.execute index) = .ok g' →
        between.upToDate.registry.get? h = some resource → resource.isPersistent = true →
          (∃ position, AccessedAt between.upToDate.plan.order between.upToDate.passes h position) →
            ∃ created, attempts resource.name (between.execute index).events =
                [Resolution.attemptEvent resource.name created] ∧
              between.upToDate.device.Asks g'.device resource created

/-- **Persistent resources keep their backings as long as they are redeclared**, whatever the device
refuses. -/
theorem Reachable.persistent_kept (hg : g.Reachable) : g.PersistsAsDeclared where
  kept _ _ _ _ hdispose hrun hbacking := hg.kept_iff hdispose hrun hbacking
  compiled := releasesUndeclared_compile hg
  executed _ _ hindex hstep := hg.upholds hindex hstep
  retried actions between index g' h resource hnone hquiet hrun hindex hstep hget hpersistent hused := by
    have hbetween := reachable_of_performAll hg hrun
    have hstill := get?_eq_none_performAll hg hquiet hrun hnone
    have hcurrent : between.upToDate.backings.get? resource.name = none := by
      unfold Graph.upToDate
      split
      · exact hstill
      · have hcompiled : between.performAll [.compile] = .ok between.compile.value := rfl
        exact get?_eq_none_performAll hbetween (by simp) hcompiled hstill
    obtain ⟨f, -, -, hupholds⟩ := hbetween.upholds hindex hstep
    exact (hupholds h resource hget hpersistent).1.exists_attempt hcurrent hused

/-- A history is painted. -/
def remembering : List Action :=
  [.register (.createImage "history" (.flat 4 4 .b8g8r8a8Srgb ImageUsage.colorAttachment) true),
    .register (.markOutput "history"),
    .addPass ⟨"paint", .graphics .azure, [.write "history" .colorAttachment], none⟩,
    .execute 0]

/-- The image is refused, and its memory given back; the next frame creates both. -/
theorem persistent_kept_remembering :
    ∃ g, (Graph.empty { policy := { refuses := fun n _ => n = 1 } } {}).performAll remembering = .ok g ∧
      (g.device.asked "history").length = 2 ∧ g.device.disposals = [.memory (.slot 0 0)] ∧
      g.backings.size = 0 ∧
      attempts "history" (g.execute 0).events = [.persistentCreated "history"] ∧
      g.PersistsAsDeclared := by
  have hrun : succeeds
      ((Graph.empty { policy := { refuses := fun n _ => n = 1 } } {}).performAll remembering)
      (fun g => decide (
        (g.device.asked "history").length = 2 ∧ g.device.disposals = [.memory (.slot 0 0)] ∧
          g.backings.size = 0 ∧
          attempts "history" (g.execute 0).events = [.persistentCreated "history"])) = true := by
    decide +kernel
  obtain ⟨g, hperformed, hcheck⟩ := exists_of_succeeds hrun
  obtain ⟨hasked, hdisposals, hnothing, hattempts⟩ := of_decide_eq_true hcheck
  exact ⟨g, hperformed, hasked, hdisposals, hnothing, hattempts,
    (reachable_of_performAll (.start _ _) hperformed).persistent_kept⟩

end Graph

end FrameGraph
