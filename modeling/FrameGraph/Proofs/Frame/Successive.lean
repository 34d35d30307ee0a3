import FrameGraph.Proofs.Frame.Recorded
import FrameGraph.Proofs.Graph.Lifetimes
import FrameGraph.Proofs.Memory.Owners

/-!
# From one frame to the next

A persistent resource enters a frame in the state of its last use, and the walk of this frame starts
from there.  So a chain of barriers leads from an access in one frame to an access in the next, as long
as the last use stands for whatever has to be waited for: for a read among the last ones, it must be at
the stages of the read; and a read at the beginning of the frame must be served by what made the last
reads wait.

Principal statements: `OnTimeline.exists_wrapping_steps` and `Graph.Reachable.frames_covered`.
-/

set_option autoImplicit false

namespace FrameGraph

/-! ## What the last use stands for -/

/-- If only reads in its layout follow a read, the last of them is at its stages. -/
def Timeline.Remembers (timeline : Timeline) (i : Use) : Prop :=
  (∀ u ∈ timeline, i.position ≤ u.position → u.isWrite = false ∧ u.state.layout = i.state.layout) →
    ∀ last ∈ timeline.getLast?, last.state.stage.contains i.state.stage = true

/-- If a read goes on with the last reads in its layout, these include its stages and accesses. -/
def Timeline.Includes (timeline : Timeline) (j : Use) : Prop :=
  (∀ u ∈ timeline, u.position ≤ j.position ∨ timeline.getLast? = some u →
      u.isWrite = false ∧ u.state.layout = j.state.layout) →
    ∀ left ∈ timeline.lastAccess, left.stage.contains j.state.stage = true ∧
      left.access.contains j.state.access = true

/-! ## Around the end of a timeline -/

section Plan

variable {order : List Nat} {passes : List Pass} {registry : Registry} {h : Handle}
  {resource : Resource} {timeline : Timeline}

/-- A use leaves something to wait for, or is one for presentation. -/
theorem OnTimeline.isAwaited (hr : OnTimeline order passes registry h resource timeline)
    (hd : Declared registry passes) {u : Use} (hu : u ∈ timeline) :
    u.state.IsAwaited ∨ u.state.layout = .presentSrc := by
  have hfits := hr.fits hd hu
  by_cases hpresent : u.state.layout = .presentSrc
  · exact .inr hpresent
  · refine .inl ?_
    cases hw : u.isWrite with
    | true => exact .inl (hfits.writing hw hpresent)
    | false =>
        rw [← hr.timeline_eq] at hu
        exact .inr ⟨access_ne_none_of_mem_timelineOf hd hu hw, hfits.staged⟩

theorem standsFor_last {last : Use} (hfits : last.state.Fits last.isWrite)
    (haccess : last.isWrite = false → last.state.access ≠ Access.none) :
    StandsFor last.state last :=
  ⟨rfl, Mask.contains_refl _, fun _ => rfl, fun hread => ⟨(hfits.readOnly hread).1, haccess hread⟩⟩

/-- A read that nothing separates from the last use goes on with the last reads. -/
theorem reads_of_not_separated_arriving {last j : Use} {uses : List Use}
    (hfits : last.state.Fits last.isWrite) (hj : j.state.layout ≠ .presentSrc)
    (h : ¬ Separated (.arriving last.state) uses j) :
    (last.isWrite = false ∧ last.state.layout = j.state.layout) ∧
      ∀ u ∈ uses ++ [j], u.isWrite = false ∧ u.state.layout = j.state.layout := by
  unfold Separated SeparatesReads SyncState.IsFresh at h
  simp only [not_or, SyncState.arriving_layout, ne_eq, Decidable.not_not, Bool.not_eq_true] at h
  obtain ⟨hread, ⟨hlayout, hfresh⟩, huses⟩ := h
  refine ⟨⟨Bool.eq_false_iff.2 fun hw => hfresh ?_, hlayout.symm⟩, fun u hu => ?_⟩
  · have hwrite := hfits.writing hw (hlayout ▸ hj)
    refine ⟨.ofState last.state, ?_, rfl, ?_⟩
    · simp [SyncState.arriving, hwrite]
    · rw [← hwrite, ← ImageState.srcAccess_intersects_writes]
      rfl
  · rcases List.mem_append.1 hu with hu | hu
    · refine ⟨Bool.eq_false_iff.2 fun hw => huses ⟨u, hu, .inl hw⟩, ?_⟩
      exact Decidable.byContradiction fun hne => huses ⟨u, hu, .inr hne⟩
    · rw [List.mem_singleton.1 hu]
      exact ⟨hread, rfl⟩

namespace OnTimeline

variable (hr : OnTimeline order passes registry h resource timeline) (hd : Declared registry passes)

include hr hd

/-- From a write to the reads at the end of the timeline of a plan. -/
theorem exists_steps_to_last_reads {i last : Use} (hi : i ∈ timeline)
    (hp : presentsAt passes i.pass h = false) (hw : i.isWrite = true)
    (hlast : timeline.getLast? = some last) (hread : last.isWrite = false) {left : ImageState}
    (hleft : timeline.lastAccess = some left) :
    ∃ more, StepsAfter resource timeline i.position more ∧
      Covers i.state left (more.map Step.transition) := by
  obtain ⟨before, later, hsplit, -, -⟩ := hr.exists_split hi
  have hend : (i :: later).getLast? = some last := by
    rw [← hlast, hsplit, List.getLast?_append, List.getLast?_cons, Option.some_or]
  have hfits : ∀ u ∈ i :: later, u.state.Fits u.isWrite := fun u hu =>
    hr.fits hd (hsplit ▸ List.mem_append_right _ hu)
  obtain ⟨more, hsub, hneeded, hcovers⟩ := exists_covering_last_reads hfits
    (hr.layout_ne_present hi hp) hw hend hread (hsplit ▸ hleft)
    ((SyncState.arriving (arrivalState resource timeline)).along (i :: later) before) resource false
  exact ⟨more, hr.stepsAfter hsplit hsub hneeded, hcovers⟩

/-- From the state in which the frame before left a resource to a use that something separates from
it. -/
theorem exists_returning_steps (hpersistent : resource.isPersistent = true) {last : Use}
    (hlast : timeline.getLast? = some last) {i : ImageState} {chain : List Transition}
    (hleaves : Leaves i chain last.state) (hi : i.layout ≠ .presentSrc) {j : Use}
    (hj : j.state.layout ≠ .presentSrc) {front rest : List Use}
    (hsplit : timeline = front ++ j :: rest)
    (hseparated : Separated (.arriving last.state) front j) :
    ∃ more : List Step, more.Sublist (resource.steps timeline) ∧
      (∀ x ∈ more, x.transition.isNeeded = true) ∧ (∀ x ∈ more, x.use ∈ front ++ [j]) ∧
      Covers i j.state (chain ++ more.map Step.transition) := by
  have hsource := of_decide_eq_true hpersistent
  have himported : resource.isImported = false := by rw [Resource.isImported, hsource]
  have harrival : arrivalState resource timeline = last.state := by
    rw [arrivalState, hsource, hlast]
    rfl
  have hfits : ∀ u ∈ front ++ [j], u.state.Fits u.isWrite := by
    intro u hu
    apply hr.fits hd
    rw [hsplit, ← List.singleton_append, ← List.append_assoc]
    exact List.mem_append_left _ hu
  obtain ⟨more, hsub, hneeded, hcovers⟩ := hleaves.exists_covering_steps hi
    (hr.isAwaited hd (List.mem_of_getLast? hlast)) hfits hj hseparated himported rest
  have hbeginning := steps_part resource [] (front ++ [j]) rest
  rw [List.nil_append, List.append_assoc, List.singleton_append, ← hsplit, harrival] at hbeginning
  refine ⟨more, hsub.trans hbeginning, hneeded, fun x hx => ?_, hcovers⟩
  exact (use_stepsAlong ..).subset (List.mem_map_of_mem (hsub.subset hx))

/-- **A chain around the end of a timeline**: from a use to the end, and from the beginning to a
use. -/
theorem exists_wrapping_steps (hpersistent : resource.isPersistent = true) {i j : Use}
    (hi : i ∈ timeline) (hj : j ∈ timeline) (hw : i.isWrite = true ∨ j.isWrite = true)
    (hip : presentsAt passes i.pass h = false) (hjp : presentsAt passes j.pass h = false)
    (hremembers : timeline.Remembers i) (hincludes : timeline.Includes j) :
    ∃ more more' : List Step, StepsAfter resource timeline i.position more ∧
      more'.Sublist (resource.steps timeline) ∧
      (∀ x ∈ more', x.transition.isNeeded = true ∧ x.use.position ≤ j.position) ∧
      Covers i.state j.state ((more ++ more').map Step.transition) := by
  have hilayout := hr.layout_ne_present hi hip
  have hjlayout := hr.layout_ne_present hj hjp
  obtain ⟨last, hlast⟩ : ∃ last, timeline.getLast? = some last :=
    ⟨_, List.getLast?_eq_some_getLast hr.used⟩
  have hlastMem := List.mem_of_getLast? hlast
  have hlastFits := hr.fits hd hlastMem
  obtain ⟨front, rest, hsplit, hfront, hrest⟩ := hr.exists_split hj
  by_cases hseparated : Separated (.arriving last.state) front j
  · -- The chain goes on to the use in the next walk.
    have haccess : last.isWrite = false → last.state.access ≠ Access.none := by
      intro hread
      rw [← hr.timeline_eq] at hlastMem
      exact access_ne_none_of_mem_timelineOf hd hlastMem hread
    obtain ⟨more, hafter, hleaves⟩ := hr.exists_leaving_steps hd hi hip hlast
      (standsFor_last hlastFits haccess) (fun hall => hremembers hall last hlast)
    obtain ⟨more', hsub, hneeded, hplace, hcovers⟩ := hr.exists_returning_steps hd hpersistent hlast
      hleaves hilayout hjlayout hsplit hseparated
    refine ⟨more, more', hafter, hsub, fun x hx => ⟨hneeded x hx, ?_⟩, ?_⟩
    · rcases List.mem_append.1 (hplace x hx) with hu | hu
      · exact Nat.le_of_lt (hfront _ hu)
      · rw [List.mem_singleton.1 hu]
    · rw [List.map_append]
      exact hcovers
  · -- The use goes on with the last reads, which the barrier before them serves.
    obtain ⟨⟨hread, hlayout⟩, hall⟩ := reads_of_not_separated_arriving hlastFits hjlayout hseparated
    have hjread := (hall j (List.mem_append_right _ List.mem_cons_self)).1
    have hiw : i.isWrite = true := hw.resolve_right (by rw [hjread]; exact Bool.false_ne_true)
    obtain ⟨left, hleft⟩ : ∃ left, timeline.lastAccess = some left := by
      obtain ⟨front', rfl⟩ := List.getLast?_eq_some_iff.1 hlast
      exact ⟨_, lastAccess_concat front' last⟩
    obtain ⟨more, hafter, hcovers⟩ :=
      hr.exists_steps_to_last_reads hd hi hip hiw hlast hread hleft
    have hincluded := hincludes (fun u hu hcases => ?_) left hleft
    · refine ⟨more, [], hafter, List.nil_sublist _, fun x hx => (by cases hx), ?_⟩
      rw [List.append_nil]
      exact hcovers.of_contains hincluded.1 hincluded.2
    · rcases hcases with hle | hislast
      · apply hall u
        rw [hsplit] at hu
        rcases List.mem_append.1 hu with hu | hu
        · exact List.mem_append_left _ hu
        · rcases List.mem_cons.1 hu with rfl | hu
          · exact List.mem_append_right _ List.mem_cons_self
          · have hlt := hrest u hu
            omega
      · obtain rfl : last = u := Option.some.inj (hlast.symm.trans hislast)
        exact ⟨hread, hlayout⟩

/-- **The chain around the end of a timeline is recorded**, in two frames that have the same plan and
the same object behind the resource. -/
theorem exists_recorded_around (hnd : order.Nodup) (hpersistent : resource.isPersistent = true)
    {input input' : FrameInput} (hbarriers : input.barriers = compiledAlong order passes registry)
    (hbarriers' : input'.barriers = compiledAlong order passes registry) {object : DeviceObject}
    (hkind : object.kind = resource.kind) (hobject : input.frame.objects.get? h = some object)
    (hobject' : input'.frame.objects.get? h = some object)
    (hcreated : input'.frame.created.contains h = false) {i j : Use} (hi : i ∈ timeline)
    (hj : j ∈ timeline) (hw : i.isWrite = true ∨ j.isWrite = true)
    (hip : presentsAt passes i.pass h = false) (hjp : presentsAt passes j.pass h = false)
    (hremembers : timeline.Remembers i) (hincludes : timeline.Includes j) :
    ∃ chain chain' : List MemoryBarrier,
      Recorded (· = h) (input.momentsFrom (i.position + 1) (order.drop (i.position + 1))) chain ∧
      Recorded (· = h) (input'.momentsUpTo j.position 0 order) chain' ∧
      Covers i.state j.state ((chain ++ chain').map MemoryBarrier.transition) := by
  obtain ⟨more, more', hafter, hsub', hplace', hcovers⟩ :=
    hr.exists_wrapping_steps hd hpersistent hi hj hw hip hjp hremembers hincludes
  have hlength : ∀ x ∈ resource.steps timeline, x.use.position < order.length := by
    intro x hx
    obtain ⟨hlt, -⟩ :=
      List.getElem?_eq_some_iff.1 (hr.getElem?_order (Resource.use_mem_of_mem_steps hx))
    exact hlt
  obtain ⟨hilt, -⟩ := List.getElem?_eq_some_iff.1 (hr.getElem?_order hi)
  obtain ⟨placed, hplaced, htransitions⟩ := hr.exists_places_after hnd hd hbarriers hobject hkind
    hafter (fun x hx => Nat.le_of_lt (hlength x (hafter.sub.subset hx))) (p := (· = h)) rfl
  obtain ⟨placed', hplaced', htransitions'⟩ := hr.exists_places hnd hd hbarriers' hobject' hkind
    hsub' (fun x hx => (hplace' x hx).1) (fun x hx _ => ⟨hpersistent, hcreated⟩)
    (fun x hx => ⟨Nat.zero_le _, (hplace' x hx).2⟩) (p := (· = h)) rfl
  have hrecorded := hplaced.recorded (by omega)
  have hrecorded' := hplaced'.recorded (Nat.zero_le _)
  rw [List.drop_zero] at hrecorded'
  rw [FrameInput.momentsUpTo_eq _ (by rw [List.length_drop]; omega)] at hrecorded
  refine ⟨_, placed'.map (·.2), hrecorded, hrecorded', ?_⟩
  have hlowered := hcovers.lowered
  rw [List.map_append, List.map_append, ← htransitions, ← htransitions'] at hlowered
  rw [List.map_append, List.map_map, List.map_map]
  exact hlowered

end OnTimeline

end Plan

/-! ## Between two frames -/

/-- Holds if the action leaves the plan as it is, and what is behind its resources. -/
def Action.keepsPlan : Action → Bool
  | .register op => Graph.keepsPlan op
  | .takeCommands => true
  | _ => false

namespace Graph

variable {g g' g'' : Graph}

/-- The second graph has the plan of the first and the same resources of its own. -/
structure KeepsPlan (g g' : Graph) : Prop where
  phase : g'.phase = g.phase
  plan : g'.plan = g.plan
  passes : g'.passes = g.passes
  backings : g'.backings = g.backings
  internal : ∀ h resource, resource.isImported = false → g.registry.get? h = some resource →
    g'.registry.get? h = some resource

theorem KeepsPlan.refl (g : Graph) : g.KeepsPlan g := ⟨rfl, rfl, rfl, rfl, fun _ _ _ hget => hget⟩

theorem KeepsPlan.trans (h : g.KeepsPlan g') (h' : g'.KeepsPlan g'') : g.KeepsPlan g'' :=
  ⟨h'.phase.trans h.phase, h'.plan.trans h.plan, h'.passes.trans h.passes,
    h'.backings.trans h.backings,
    fun k resource himported hget => h'.internal k resource himported (h.internal k resource himported hget)⟩

theorem keepsPlan_register {op : Registry.Operation} (hkeeps : keepsPlan op = true) (g : Graph) :
    g.KeepsPlan (g.register op).value.2 := by
  refine ⟨?_, rfl, rfl, rfl, fun h resource himported hget => ?_⟩
  · rw [phase_register, hkeeps, if_pos rfl]
  · -- An operation that keeps the plan gives new objects to imported resources only.
    have hmap : ((g.registry.perform op).value.2.get? h).map (fun r => if r.isImported then none else some r) =
        (g.registry.get? h).map fun r => if r.isImported then none else some r :=
      Registry.map_perform (fun r current object handover hsource => by
        simp [Resource.isImported, hsource]) hkeeps g.registry h
    rw [hget, Option.map_some, himported, if_neg Bool.false_ne_true] at hmap
    obtain ⟨found, hfound, hsame⟩ := Option.map_eq_some_iff.1 hmap
    show (g.registry.perform op).value.2.get? h = some resource
    split at hsame
    · cases hsame
    · rw [hfound, hsame]

theorem keepsPlan_performAll {actions : List Action}
    (hkeeps : ∀ action ∈ actions, action.keepsPlan = true) (hrun : g.performAll actions = .ok g') :
    g.KeepsPlan g' := by
  induction actions generalizing g with
  | nil =>
      cases hrun
      exact .refl _
  | cons action rest ih =>
      obtain ⟨middle, hstep, hrest⟩ := performAll_cons_eq_ok_iff.1 hrun
      have hfirst : g.KeepsPlan middle := by
        have haction := hkeeps action List.mem_cons_self
        cases action with
        | register op => cases hstep; exact keepsPlan_register haction g
        | takeCommands => cases hstep; exact ⟨rfl, rfl, rfl, rfl, fun _ _ _ hget => hget⟩
        | _ => cases haction
      exact hfirst.trans (ih (fun a ha => hkeeps a (List.mem_cons_of_mem _ ha)) hrest)

theorem upToDate_of_compiled (h : g.phase = .compiled) : g.upToDate = g :=
  if_pos (decide_eq_true h)

/-- **A backing that is declared as it was stays**: the next frame has the same object. -/
theorem object_of_backing (hg : g.Reachable) (hcompiled : g.phase = .compiled) {index : Nat}
    {r : Resolution} (hok : (resolveFrame index g.upToDate.registry g.upToDate.plan.table
      (g.resolution index)).result = .ok r) {h : Handle} {resource : Resource} {timeline : Timeline}
    (hget : g.registry.get? h = some resource) (hpersistent : resource.isPersistent = true)
    (htable : g.plan.table.get? h = some timeline) {backing : Backing}
    (hbacking : g.backings.get? resource.name = some backing) (hinfo : backing.info = resource.info) :
    r.frame.objects.get? h = some backing.object ∧ r.frame.created.contains h = false := by
  have hcurrent := upToDate_of_compiled hcompiled
  have hw := hg.isSound.declared.wellFormed
  have hkept : (g.resolution index).backings.get? resource.name = some backing := by
    show g.upToDate.backings.get? resource.name = _
    rw [hcurrent, hbacking]
  rw [hcurrent] at hok
  cases backs_resolveFrame hw hget hpersistent rfl hok with
  | kept other hcreated _ hother _ hfound =>
      obtain rfl : other = backing := Option.some.inj (hother.symm.trans hkept)
      exact ⟨hfound, by simpa using hcreated⟩
  | created other _ hdiffer _ _ _ => exact absurd hinfo (hdiffer backing hkept)
  | missing _ hdiffer =>
      obtain ⟨hused, hlifetime⟩ := hg.lifetime_eq hcompiled hget htable
      obtain ⟨first, last, -, -, hspan⟩ := Timeline.exists_span hused
      refine absurd hinfo (hdiffer ?_ backing hkept)
      rw [hlifetime, hspan]
      rfl

/-- **Hazards on persistent resources are covered from one frame to the next.**  After a frame the plan
is kept, and the next frame is executed, on whatever index.  Between a use in the first frame and a use
in the second, of which one writes, the recorded barriers on the resource contain a chain, if the last
use of the frame stands for those reads that it has to stand for. -/
theorem Reachable.frames_covered (hg : g.Reachable) {index : Nat}
    (hindex : index < g.settings.framesInFlight) {ran : List Invocation}
    (hrun : (g.execute index).result = .ok (ran, g')) {actions : List Action}
    (hkeeps : ∀ action ∈ actions, action.keepsPlan = true) {between : Graph}
    (hbetween : g'.performAll actions = .ok between) {index' : Nat}
    (hindex' : index' < between.settings.framesInFlight) {ran' : List Invocation}
    (hrun' : (between.execute index').result = .ok (ran', g'')) :
    ∃ frame frame' : FrameObjects, g.Records index frame g' ∧ between.Records index' frame' g'' ∧
      ∀ (h : Handle) (resource : Resource) (timeline : Timeline) (object : DeviceObject),
        g'.registry.get? h = some resource → resource.isPersistent = true →
          g'.plan.table.get? h = some timeline → g'.objects.get? h = some object →
          g''.objects.get? h = some object ∧
          ∀ i ∈ timeline, ∀ j ∈ timeline, i.isWrite = true ∨ j.isWrite = true →
            presentsAt g'.passes i.pass h = false → presentsAt g'.passes j.pass h = false →
            timeline.Remembers i → timeline.Includes j →
            ∃ chain chain' : List MemoryBarrier,
              Recorded (· = h) ((g'.frameInput index frame).momentsFrom (i.position + 1)
                (g'.plan.order.drop (i.position + 1))) chain ∧
              Recorded (· = h) ((g''.frameInput index' frame').momentsUpTo j.position 0
                g''.plan.order) chain' ∧
              Covers i.state j.state ((chain ++ chain').map MemoryBarrier.transition) := by
  have hreachable : g'.Reachable := .perform (.execute index) hg (by rw [Graph.perform, hrun]; rfl)
  have hg' := reachable_of_performAll hreachable hbetween
  have hkept := keepsPlan_performAll hkeeps hbetween
  obtain ⟨r, hok, -, rfl⟩ := (execute_eq_ok_iff hindex).1 hrun
  obtain ⟨r', hok', -, rfl⟩ := (execute_eq_ok_iff hindex').1 hrun'
  have hcompiled : between.phase = .compiled := hkept.phase.trans hg.isSound.upToDate.2
  have hcurrent := upToDate_of_compiled hcompiled
  refine ⟨r.frame, r'.frame, records_afterFrame hg hok, records_afterFrame hg' hok', ?_⟩
  intro h resource timeline object hget hpersistent htable hobject
  have himported : resource.isImported = false := by
    rw [Resource.isImported, of_decide_eq_true hpersistent]
  have hget' : between.registry.get? h = some resource := hkept.internal h resource himported hget
  have htable' : between.plan.table.get? h = some timeline := by
    rw [hkept.plan]
    exact htable
  -- The second frame finds the object of the first.
  obtain ⟨backing, hbacking, hinfo, rfl⟩ := exists_backing hg hok hget hpersistent hobject
  obtain ⟨hobject', hcreated⟩ := object_of_backing hg' hcompiled hok' hget' hpersistent htable'
    ((congrArg (·.get? resource.name) hkept.backings).trans hbacking) hinfo
  refine ⟨hobject', fun i hi j hj hw hip hjp hremembers hincludes => ?_⟩
  obtain ⟨registry, planned, hd, hplan, hr, houtline⟩ := hg.exists_planned hget htable
  have hkind : backing.object.kind = planned.kind :=
    (hg.kind_object hok hget hobject).trans (Resource.kind_of_outline houtline).symm
  have hplanned : planned.isPersistent = true :=
    (Resource.isPersistent_of_outline houtline).trans hpersistent
  have hbarriers : (g.frame index r).barriers =
      compiledAlong g.upToDate.plan.order g.upToDate.passes registry := hplan.barriers
  have hplan' : between.upToDate.plan = g.upToDate.plan := by
    rw [hcurrent]
    exact hkept.plan
  have hbarriers' : (between.frame index' r').barriers =
      compiledAlong g.upToDate.plan.order g.upToDate.passes registry := by
    show between.upToDate.plan.barriers = _
    rw [hplan']
    exact hplan.barriers
  obtain ⟨chain, chain', hchain, hchain', hcovers⟩ := hr.exists_recorded_around hd hplan.nodup hplanned
    hbarriers hbarriers' hkind hobject hobject' hcreated hi hj hw hip hjp hremembers hincludes
  refine ⟨chain, chain', hchain, ?_, hcovers⟩
  show Recorded _ ((between.frame index' r').momentsUpTo j.position 0 between.upToDate.plan.order) _
  rw [hplan']
  exact hchain'

/-- A persistent buffer is written, and then read at two stages. -/
def history : List Action :=
  [.register (.importBuffer "first" 7 {} .undefined .undefined),
    .register (.importBuffer "second" 8 {} .undefined .undefined),
    .register (.markOutput "first"),
    .register (.markOutput "second"),
    .addPass ⟨"trace", .compute,
      [.createBuffer "history" { size := 64 } true, .write "history" .shaderWrite], none⟩,
    .addPass ⟨"copy", .transfer, [.read "history" .transferSrc, .write "first" .transferDst], none⟩,
    .addPass ⟨"shade", .compute, [.read "history" .shaderRead, .write "second" .shaderWrite], none⟩]

/-- The uses of the buffer. -/
def historyTimeline : Timeline :=
  [⟨0, 0, .shaderWrite, false, true,
      ⟨Stage.computeShader, Access.none ||| Access.storageWrite, .undefined⟩⟩,
    ⟨1, 1, .transferSrc, true, false, ⟨Stage.transfer, Access.transferRead, .undefined⟩⟩,
    ⟨2, 2, .shaderRead, true, false, ⟨Stage.computeShader, Access.storageRead, .undefined⟩⟩]

theorem exists_history :
    ∃ (g g' g'' : Graph) (ran ran' : List Invocation), g.Reachable ∧
      0 < g.settings.framesInFlight ∧ (g.execute 0).result = .ok (ran, g') ∧
      1 < g'.settings.framesInFlight ∧ (g'.execute 1).result = .ok (ran', g'') ∧
      g'.registry.get? (.slot 2 0) =
        some ⟨"history", .buffer { size := 64 }, .internal true, false, some ⟨0, 2⟩⟩ ∧
      g'.plan.table.get? (.slot 2 0) = some historyTimeline ∧
      g'.objects.get? (.slot 2 0) = some (.buffer 1) ∧
      (∀ u ∈ historyTimeline, presentsAt g'.passes u.pass (.slot 2 0) = false) ∧
      ∀ b ∈ g'.device.memoryBarriers ++ g''.device.memoryBarriers,
        b.transition.source.stage.contains Stage.transfer = false := by
  have hcheck : checkFrame history 0 (fun _ g' => succeeds (g'.execute 1).result fun frame =>
      decide (1 < g'.settings.framesInFlight ∧
        g'.registry.get? (.slot 2 0) =
          some ⟨"history", .buffer { size := 64 }, .internal true, false, some ⟨0, 2⟩⟩ ∧
        g'.plan.table.get? (.slot 2 0) = some historyTimeline ∧
        g'.objects.get? (.slot 2 0) = some (.buffer 1) ∧
        (∀ u ∈ historyTimeline, presentsAt g'.passes u.pass (.slot 2 0) = false) ∧
        ∀ b ∈ g'.device.memoryBarriers ++ frame.2.device.memoryBarriers,
          b.transition.source.stage.contains Stage.transfer = false)) = true := by
    cbv
  obtain ⟨g, g', ran, hg, hindex, hrun, hcheck⟩ := exists_of_checkFrame hcheck
  obtain ⟨⟨ran', g''⟩, hrun', hcheck⟩ := exists_of_succeeds hcheck
  obtain ⟨hindex', hfacts⟩ := of_decide_eq_true hcheck
  exact ⟨g, g', g'', ran, ran', hg, hindex, hrun, hindex', hrun', hfacts⟩

/-- From the write of the buffer in one frame there is a chain to its first reader in the next. -/
theorem frames_covered_history :
    ∃ (g g' g'' : Graph) (ran ran' : List Invocation) (frame frame' : FrameObjects)
      (chain chain' : List MemoryBarrier) (i j : Use), (g.execute 0).result = .ok (ran, g') ∧
      (g'.execute 1).result = .ok (ran', g'') ∧ historyTimeline = i :: j :: historyTimeline.drop 2 ∧
      Recorded (· = .slot 2 0) ((g'.frameInput 0 frame).momentsFrom (i.position + 1)
        (g'.plan.order.drop (i.position + 1))) chain ∧
      Recorded (· = .slot 2 0) ((g''.frameInput 1 frame').momentsUpTo j.position 0
        g''.plan.order) chain' ∧
      Covers i.state j.state ((chain ++ chain').map MemoryBarrier.transition) := by
  obtain ⟨g, g', g'', ran, ran', hg, hindex, hrun, hindex', hrun', hget, htable, hobject, hpresents, -⟩ :=
    exists_history
  obtain ⟨frame, frame', -, -, hcovered⟩ := hg.frames_covered hindex hrun
    (fun action (haction : action ∈ ([] : List Action)) => by cases haction) rfl hindex' hrun'
  obtain ⟨-, hcovers⟩ := hcovered _ _ _ _ hget rfl htable hobject
  have hi : historyTimeline[0] ∈ historyTimeline := List.getElem_mem _
  have hj : historyTimeline[1] ∈ historyTimeline := List.getElem_mem _
  obtain ⟨chain, chain', hchain, hchain', hcovers⟩ := hcovers _ hi _ hj (.inl rfl) (hpresents _ hi)
    (hpresents _ hj) (fun hall => absurd (hall _ hi (Nat.le_refl _)).1 (by decide))
    (fun hall => absurd (hall _ hi (.inl (by decide))).1 (by decide))
  exact ⟨g, g', g'', ran, ran', frame, frame', chain, chain', _, _, hrun, hrun', rfl, hchain, hchain',
    hcovers⟩

/-- A read that the last use does not stand for is not waited for in the next frame. -/
theorem not_covered_across_frames :
    ¬ ∀ (g g' g'' : Graph) (index index' : Nat) (ran ran' : List Invocation), g.Reachable →
      index < g.settings.framesInFlight → (g.execute index).result = .ok (ran, g') →
      index' < g'.settings.framesInFlight → (g'.execute index').result = .ok (ran', g'') →
      ∃ frame frame' : FrameObjects, g.Records index frame g' ∧ g'.Records index' frame' g'' ∧
        ∀ (h : Handle) (resource : Resource) (timeline : Timeline) (object : DeviceObject),
          g'.registry.get? h = some resource → resource.isPersistent = true →
            g'.plan.table.get? h = some timeline → g'.objects.get? h = some object →
            ∀ i ∈ timeline, ∀ j ∈ timeline, i.isWrite = true ∨ j.isWrite = true →
              presentsAt g'.passes i.pass h = false → presentsAt g'.passes j.pass h = false →
              ∃ chain chain' : List MemoryBarrier,
                Recorded (· = h) ((g'.frameInput index frame).momentsFrom (i.position + 1)
                  (g'.plan.order.drop (i.position + 1))) chain ∧
                Recorded (· = h) ((g''.frameInput index' frame').momentsUpTo j.position 0
                  g''.plan.order) chain' ∧
                Covers i.state j.state ((chain ++ chain').map MemoryBarrier.transition) := by
  intro hall
  obtain ⟨g, g', g'', ran, ran', hg, hindex, hrun, hindex', hrun', hget, htable, hobject, hpresents,
    hnone⟩ := exists_history
  obtain ⟨frame, frame', hrecords, hrecords', hcovered⟩ :=
    hall g g' g'' 0 1 ran ran' hg hindex hrun hindex' hrun'
  have hi : historyTimeline[1] ∈ historyTimeline := List.getElem_mem _
  have hj : historyTimeline[0] ∈ historyTimeline := List.getElem_mem _
  obtain ⟨chain, chain', hchain, hchain', hcovers⟩ := hcovered _ _ _ _ hget rfl htable hobject _ hi _ hj
    (.inr rfl) (hpresents _ hi) (hpresents _ hj)
  obtain ⟨t, ht, hstage, -⟩ := hcovers.first
  obtain ⟨b, hb, rfl⟩ := List.mem_map.1 (List.mem_of_mem_head? ht)
  have hmem : b ∈ g'.device.memoryBarriers ++ g''.device.memoryBarriers := by
    rcases List.mem_append.1 hb with hb | hb
    · refine List.mem_append_left _ (hrecords.mem_memoryBarriers ?_ hchain hb)
      exact FrameInput.momentsFrom_infix ..
    · refine List.mem_append_right _ (hrecords'.mem_memoryBarriers ?_ hchain' hb)
      exact (FrameInput.momentsUpTo_prefix ..).isInfix
  exact Bool.false_ne_true ((hnone b hmem).symm.trans hstage)

end Graph

end FrameGraph
