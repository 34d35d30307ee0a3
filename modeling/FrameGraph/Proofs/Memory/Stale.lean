import FrameGraph.Proofs.Frame.Successive
import FrameGraph.Proofs.Memory.Conservation
import FrameGraph.Proofs.Memory.Owners

/-!
# Backings that are no longer declared

A backing is kept under a name, and with the description that it was created from.  It stays as long
as each compilation finds a persistent resource declared with that name and that description; handles
and the order of declarations do not matter, and neither does whether a pass uses the resource.

Principal statements: `Graph.releasesUndeclared_compile` and `Graph.Reachable.declares`: once a graph is
compiled, what it keeps is declared.
-/

set_option autoImplicit false

namespace FrameGraph

/-! ## Giving up a backing -/

theorem Backing.disposals_release (b : Backing) (d : Device) :
    (b.release d).disposals = d.disposals ++ b.things := by
  obtain ⟨info, object, memory⟩ := b
  cases object <;> exact List.append_assoc ..

theorem Backings.disposals_releaseAll (entries : List (String × Backing)) (d : Device) :
    (entries.foldl (fun device entry => entry.2.release device) d).disposals =
      d.disposals ++ entries.flatMap fun entry => entry.2.things := by
  induction entries generalizing d with
  | nil => exact (List.append_nil _).symm
  | cons entry rest ih =>
      rw [List.foldl_cons, ih, Backing.disposals_release, List.append_assoc, List.flatMap_cons]

theorem Backings.disposals_releaseStale (b : Backings) (registry : Registry) (d : Device) :
    (b.releaseStale registry d).value.2.disposals = d.disposals ++
      (b.entries.filter fun entry => !isDeclared registry entry.1 entry.2).flatMap
        fun entry => entry.2.things := by
  rw [releaseStale, List.partition_eq_filter_filter]
  exact disposals_releaseAll ..

/-! ## What is declared -/

namespace Graph

variable {g g' : Graph} {name : String} {info : ResourceInfo} {backing : Backing}

/-- A persistent resource of that name and description is declared. -/
def Declares (g : Graph) (name : String) (info : ResourceInfo) : Prop :=
  ∃ h resource, g.registry.get? h = some resource ∧ resource.name = name ∧
    resource.isPersistent = true ∧ resource.info = info

theorem isDeclared_iff (hr : g.registry.WellFormed) :
    Backings.isDeclared g.registry name backing = true ↔ g.Declares name backing.info := by
  rw [Backings.isDeclared, Option.any_eq_true]
  constructor
  · rintro ⟨resource, hnamed, hsame⟩
    obtain ⟨h, hhandle, hget⟩ := Option.bind_eq_some_iff.1 hnamed
    obtain ⟨found, hfound, hname⟩ := (hr.indexed name h).1 hhandle
    cases hget.symm.trans hfound
    obtain ⟨hpersistent, hinfo⟩ := Bool.and_eq_true_iff.1 hsame
    exact ⟨h, resource, hget, hname, hpersistent, of_decide_eq_true hinfo⟩
  · rintro ⟨h, resource, hget, rfl, hpersistent, hinfo⟩
    exact ⟨resource, hr.named?_eq hget, by rw [hpersistent, hinfo]; simp⟩

/-- Under one name one description is declared. -/
theorem Declares.info_eq (hr : g.registry.WellFormed) (hdeclared : g.Declares name info) {h : Handle}
    {resource : Resource} (hget : g.registry.get? h = some resource) (hname : resource.name = name) :
    resource.isPersistent = true ∧ resource.info = info := by
  obtain ⟨k, found, hfound, hname', hpersistent, hinfo⟩ := hdeclared
  obtain rfl := hr.names h k resource found hget hfound (hname.trans hname'.symm)
  cases hget.symm.trans hfound
  exact ⟨hpersistent, hinfo⟩

theorem Declares.of_keepsPlan (hkeeps : g.KeepsPlan g') (hdeclared : g.Declares name info) :
    g'.Declares name info := by
  obtain ⟨h, resource, hget, hname, hpersistent, hinfo⟩ := hdeclared
  have himported : resource.isImported = false := by
    rw [Resource.isImported, of_decide_eq_true hpersistent]
  exact ⟨h, resource, hkeeps.internal h resource himported hget, hname, hpersistent, hinfo⟩

/-- Compiling sets lifetimes, and leaves the declarations as they are. -/
theorem declares_compile : g.compile.value.Declares name info ↔ g.Declares name info := by
  constructor
  · rintro ⟨h, resource, hget, hname, hpersistent, hinfo⟩
    rw [get?_compile] at hget
    obtain ⟨old, hold, rfl⟩ := Option.map_eq_some_iff.1 hget
    exact ⟨h, old, hold, hname, hpersistent, hinfo⟩
  · rintro ⟨h, resource, hget, hname, hpersistent, hinfo⟩
    refine ⟨h, _, (g.get?_compile h).trans (congrArg _ hget), hname, hpersistent, hinfo⟩

/-! ## Compiling -/

/-- What is kept is there: the object lies in the memory of its backing. -/
theorem Reachable.backed (hg : g.Reachable) (hget : g.backings.get? name = some backing) :
    g.device.memory.contains backing.memory = true ∧
      g.device.memoryOf? backing.object = some backing.memory := by
  have hmem := Backings.mem_of_get? hget
  refine ⟨hg.holdings.allocated _ (List.mem_append_right _ ?_), hg.holdings.backed _ hmem⟩
  exact List.mem_map_of_mem (f := fun e : String × Backing => e.2.memory) hmem

/-- The second graph keeps exactly those backings of the first that are declared there, each with its
object in its memory.  What was behind the others is given up, and nothing else.  The device is asked
nothing. -/
structure ReleasesUndeclared (g g' : Graph) : Prop where
  kept : ∀ name backing, g'.backings.get? name = some backing ↔
    g.backings.get? name = some backing ∧ g.Declares name backing.info
  released : ∃ gone, g'.device.disposals = g.device.disposals ++ gone ∧ ∀ x, x ∈ gone ↔
    ∃ name backing, g.backings.get? name = some backing ∧ ¬ g.Declares name backing.info ∧
      x ∈ backing.things
  there : ∀ name backing, g'.backings.get? name = some backing →
    g'.device.memory.contains backing.memory = true ∧
      g'.device.memoryOf? backing.object = some backing.memory
  quiet : ∀ name, g.device.Quiet name g'.device

/-- **Compiling releases exactly the backings that are not declared.** -/
theorem releasesUndeclared_compile (hg : g.Reachable) : g.ReleasesUndeclared g.compile.value := by
  have hnames := hg.holdings.names
  have hcompiled : g.compile.value.Reachable := hg.perform .compile rfl
  have hr := hcompiled.isSound.declared.wellFormed
  have hdeclared : ∀ name backing,
      Backings.isDeclared g.compile.value.registry name backing = true ↔
        g.Declares name backing.info := fun name backing =>
    (isDeclared_iff (g := g.compile.value) hr).trans declares_compile
  refine ⟨fun name backing => ?_, ?_, fun name backing => hcompiled.backed,
    fun name => g.device.quiet_releaseStale g.backings g.compile.value.registry⟩
  · have hkept : g.compile.value.backings.get? name =
        (g.backings.get? name).filter (Backings.isDeclared g.compile.value.registry name) :=
      hnames.get?_releaseStale g.compile.value.registry g.device name
    rw [hkept, Option.filter_eq_some_iff, hdeclared]
  · refine ⟨_, Backings.disposals_releaseStale g.backings g.compile.value.registry g.device,
      fun x => ?_⟩
    simp only [List.mem_flatMap, List.mem_filter]
    constructor
    · rintro ⟨entry, ⟨hentry, hgone⟩, hx⟩
      refine ⟨entry.1, entry.2, hnames.get?_eq hentry, fun hdecl => ?_, hx⟩
      rw [(hdeclared entry.1 entry.2).2 hdecl] at hgone
      cases hgone
    · rintro ⟨name, backing, hget, hundeclared, hx⟩
      refine ⟨(name, backing), ⟨Backings.mem_of_get? hget, ?_⟩, hx⟩
      rw [Bool.not_eq_true', ← Bool.not_eq_true]
      exact fun hdecl => hundeclared ((hdeclared name backing).1 hdecl)

/-! ## What a compiled graph keeps -/

/-- Every backing of a compiled graph is that of a declared resource. -/
def KeepsDeclared (g : Graph) : Prop :=
  g.phase = .compiled → ∀ name backing, g.backings.get? name = some backing →
    g.Declares name backing.info

theorem keepsDeclared_compile (hg : g.Reachable) : g.compile.value.KeepsDeclared :=
  fun _ name backing hget =>
    declares_compile.2 (((releasesUndeclared_compile hg).kept name backing).1 hget).2

theorem KeepsDeclared.upToDate (hg : g.Reachable) (h : g.KeepsDeclared) :
    g.upToDate.KeepsDeclared := by
  unfold Graph.upToDate
  split
  · exact h
  · exact keepsDeclared_compile hg

theorem KeepsDeclared.register (h : g.KeepsDeclared) (op : Registry.Operation) :
    (g.register op).value.2.KeepsDeclared := by
  intro hphase name backing hget
  rw [phase_register] at hphase
  cases hkeeps : keepsPlan op with
  | false =>
      rw [hkeeps, if_neg Bool.false_ne_true] at hphase
      cases hphase
  | true =>
      rw [hkeeps, if_pos rfl] at hphase
      exact (h hphase name backing hget).of_keepsPlan (keepsPlan_register hkeeps g)

section Frame

variable {index : Nat} {r : Resolution}

/-- A frame adds backings of declared resources only. -/
theorem KeepsDeclared.afterFrame (hg : g.Reachable) (h : g.KeepsDeclared)
    (hok : (resolveFrame index g.upToDate.registry g.upToDate.plan.table
      (g.resolution index)).result = .ok r) : (g.afterFrame index r).KeepsDeclared := by
  intro _ name backing hget
  have hheld := (settles_frame hg.holdings hok).holdings
  have hw := hg.isSound.upToDate.1.declared.wellFormed
  have hcompiled := hg.isSound.upToDate.2
  show g.upToDate.Declares name backing.info
  rcases Resolution.isNamed_resolveFrame hok _ (Backings.mem_of_get? hget) with
    hstart | ⟨k, resource, hresource, hpersistent, rfl⟩
  · have hnames := (hg.upToDate.holdings).names
    exact h.upToDate hg hcompiled name backing (hnames.get?_eq hstart)
  · cases backs_resolveFrame hw hresource hpersistent rfl hok with
    | kept other _ hsame hother hinfo _ =>
        obtain rfl : other = backing := Option.some.inj (hother.symm.trans (hsame.symm.trans hget))
        exact ⟨k, resource, hresource, rfl, hpersistent, hinfo.symm⟩
    | created other _ _ hother hinfo _ _ =>
        obtain rfl : other = backing := Option.some.inj (hother.symm.trans hget)
        exact ⟨k, resource, hresource, rfl, hpersistent, hinfo.symm⟩
    | missing _ _ hold => exact h.upToDate hg hcompiled _ backing (hold backing hget)

end Frame

theorem KeepsDeclared.perform (hg : g.Reachable) (h : g.KeepsDeclared) {action : Action}
    (hstep : g.perform action = .ok g') : g'.KeepsDeclared := by
  cases action with
  | register op => cases hstep; exact h.register op
  | addPass d =>
      cases hstep
      intro hphase
      rw [phase_addPass] at hphase
      cases hphase
  | clear => cases hstep; intro hphase; cases hphase
  | analyse => cases hstep; intro hphase; cases hphase
  | compile => cases hstep; exact keepsDeclared_compile hg
  | execute index =>
      obtain ⟨-, rfl⟩ | ⟨-, r, hok, rfl⟩ := perform_execute_cases hstep
      · exact h
      · exact h.afterFrame hg hok
  | dispose => cases hstep; intro _ name backing hget; cases hget
  | takeCommands => cases hstep; exact h

theorem Reachable.keepsDeclared (hg : g.Reachable) : g.KeepsDeclared := by
  induction hg with
  | start policy settings => intro hphase; cases hphase
  | perform action hg hstep ih => exact ih.perform hg hstep

/-- **Once a graph is compiled, what it keeps is declared.** -/
theorem Reachable.declares (hg : g.Reachable) (hcompiled : g.phase = .compiled)
    (hget : g.backings.get? name = some backing) : g.Declares name backing.info :=
  hg.keepsDeclared hcompiled name backing hget

end Graph

end FrameGraph
