import FrameGraph.Proofs.Barrier.TakingOver
import FrameGraph.Proofs.Frame.Recorded

/-!
# Recording one tenant of a memory after another

Within a frame several transient resources may lie in the same memory, one after another.  The first
barrier of each is recorded so that it waits for the one before, and a chain that ends where the one
before leaves the memory goes on along the recorded barriers of the next.

Principal statements: `FrameInput.Tenant.reaches`, `FrameInput.Tenant.passes_on` and
`FrameInput.Tenant.arrives`.
-/

set_option autoImplicit false

namespace FrameGraph

/-! ## Recording the first barrier of a tenant -/

section Recording

variable {frame : FrameObjects} {h : Handle} {resource : Resource} {object : DeviceObject}
  {left : ImageState}

/-- Whether it is needed is open until the frame is recorded. -/
theorem isEffective_barrierFor_first (htransient : resource.isTransient = true) (t : Transition) :
    (barrierFor h resource true t).isEffective = true := by
  unfold barrierFor
  rw [htransient]
  cases resource.info with
  | image info =>
      show ((true && resource.isPersistent || true) || _) = true
      rw [Bool.or_true, Bool.true_or]
  | buffer info => rfl

/-- **The first barrier of a resource in memory that was held before is recorded**, if it is on an image
or separates a write from another access. -/
theorem exists_recorded_takingOver (hobject : frame.objects.get? h = some object)
    (hkind : object.kind = resource.kind) (htransient : resource.isTransient = true)
    (hinherited : frame.inherited.get? h = some left) (t : Transition)
    (hbuffer : resource.kind = .buffer → t.target.layout = .undefined)
    (hwrites : resource.kind = .buffer → left.isWrite = true ∨ t.target.isWrite = true) :
    ∃ y, (barrierFor h resource true t).recorded? frame = some y ∧
      y.transition = (Transition.mk ⟨left.stage, left.access, .undefined⟩ t.target).lowered := by
  have hpersistent : resource.isPersistent = false := by
    rw [Resource.isPersistent, of_decide_eq_true htransient]
    rfl
  unfold barrierFor
  rw [htransient, hpersistent]
  cases hinfo : resource.info with
  | image info =>
      obtain ⟨image, view, rfl⟩ : ∃ image view, object = .image image view := by
        rw [Resource.kind, hinfo] at hkind
        cases object with
        | image image view => exact ⟨image, view, rfl⟩
        | buffer buffer => cases hkind
      refine ⟨.image (ImageBarrier.lower (ImageBarrier.takingOver ⟨h, t.source, t.target, info.aspect,
        false, true⟩ left) image), ?_, rfl⟩
      simp only [ResourceBarrier.recorded?, ImageBarrier.lowerIn, hobject, hinherited,
        Option.bind_some, DeviceObject.image?, Bool.and_false, Bool.false_and, Bool.and_self,
        Bool.false_eq_true, if_false, Lowering.emitted?, Option.map_some]
  | buffer info =>
      have hinfoKind : resource.kind = .buffer := by rw [Resource.kind, hinfo]; rfl
      obtain ⟨buffer, rfl⟩ : ∃ buffer, object = .buffer buffer := by
        rw [hinfoKind] at hkind
        cases object with
        | image image view => cases hkind
        | buffer buffer => exact ⟨buffer, rfl⟩
      have hneeded : BufferBarrier.isNeeded (BufferBarrier.takingOver ⟨h, t.source.toBufferState,
          t.target.toBufferState, 0, wholeSize, true⟩ left.toBufferState) = true := by
        have hor : (left.isWrite || t.target.isWrite) = true :=
          Bool.or_eq_true_iff.2 (hwrites hinfoKind)
        exact hor
      refine ⟨.buffer (BufferBarrier.lower (BufferBarrier.takingOver ⟨h, t.source.toBufferState,
        t.target.toBufferState, 0, wholeSize, true⟩ left.toBufferState) buffer), ?_, ?_⟩
      · simp only [ResourceBarrier.recorded?, BufferBarrier.lowerIn, BufferBarrier.inFrame?, hobject,
          hinherited, Option.bind_some, DeviceObject.buffer?, Bool.and_self, if_true,
          Option.map_some, hneeded, Lowering.emitted?]
      · have hlayout := hbuffer hinfoKind
        obtain ⟨source, ⟨stage, access, layout⟩⟩ := t
        cases hlayout
        rfl

end Recording

/-! ## Chains through a frame -/

/-- A transient resource of a frame that is there, with its timeline in the plan. -/
structure FrameInput.Tenant (input : FrameInput) (order : List Nat) (passes : List Pass)
    (registry : Registry) (h : Handle) (resource : Resource) (timeline : Timeline) : Prop where
  planned : OnTimeline order passes registry h resource timeline
  transient : resource.isTransient = true
  present : ∃ object, input.frame.objects.get? h = some object ∧ object.kind = resource.kind

/-- A chain leads from a use to the state in which the memory is left at a position: the barriers of the
chain are recorded between the two. -/
def FrameInput.Reaches (input : FrameInput) (p : Handle → Prop) (order : List Nat) (i : Use)
    (last : Nat) (left : ImageState) : Prop :=
  ∃ (placed : List (Nat × MemoryBarrier)) (chain : List Transition),
    input.Places p order (i.position + 1) last placed ∧
      placed.map (fun x => x.2.transition) = chain.map Transition.lowered ∧
      Leaves i.state chain left

namespace FrameInput

variable {input : FrameInput} {order : List Nat} {passes : List Pass} {registry : Registry}
  {h : Handle} {resource : Resource} {timeline : Timeline} {p : Handle → Prop} {left : ImageState}

/-- Bounds may be wider than needed. -/
theorem Places.widen {first last first' last' : Nat} {chain : List (Nat × MemoryBarrier)}
    (hplaces : input.Places p order first last chain) (hfirst : first' ≤ first)
    (hlast : last ≤ last') : input.Places p order first' last' chain := by
  refine ⟨hplaces.sorted, fun x hx => ?_, hplaces.placed⟩
  obtain ⟨hge, hle⟩ := hplaces.within x hx
  exact ⟨Nat.le_trans hfirst hge, Nat.le_trans hle hlast⟩

section Frame

variable (hnd : order.Nodup) (hd : Declared registry passes)
  (hbarriers : input.barriers = compiledAlong order passes registry)

include hnd hd hbarriers

/-- From a use of a tenant to the state in which it leaves the memory. -/
theorem Tenant.reaches (ht : input.Tenant order passes registry h resource timeline) (hp : p h)
    (hleft : timeline.lastAccess = some left) {i last : Use} (hi : i ∈ timeline)
    (hpresent : presentsAt passes i.pass h = false) (hlast : timeline.getLast? = some last) :
    input.Reaches p order i last.position left := by
  obtain ⟨object, hobject, hkind⟩ := ht.present
  obtain ⟨more, hafter, hleaves⟩ := ht.planned.exists_steps_to_lastAccess hd hleft hi hpresent
  obtain ⟨placed, hplaces, htransitions⟩ := ht.planned.exists_places_after hnd hd hbarriers hobject
    hkind hafter (fun x hx => ht.planned.position_le_last hlast
      (Resource.use_mem_of_mem_steps (hafter.sub.subset hx))) hp
  exact ⟨placed, more.map Step.transition, hplaces, htransitions, hleaves⟩

variable {u : Use} {later : List Use}

/-- The first barrier of a tenant and the needed ones behind it are recorded. -/
theorem Tenant.exists_places (ht : input.Tenant order passes registry h resource (u :: later))
    (hp : p h) (hinherited : input.frame.inherited.get? h = some left)
    (hwrites : resource.kind = .buffer → left.isWrite = true ∨ u.isWrite = true)
    {more : List Step} (hafter : StepsAfter resource (u :: later) u.position more) {last : Nat}
    (hfirst : u.position ≤ last) (hlast : ∀ x ∈ more, x.use.position ≤ last) :
    ∃ placed, input.Places p order u.position last placed ∧
      placed.map (fun x => x.2.transition) =
        (Transition.takingOver left u later :: more.map Step.transition).map Transition.lowered := by
  obtain ⟨object, hobject, hkind⟩ := ht.present
  have himported : resource.isImported = false := by
    rw [Resource.isImported, of_decide_eq_true ht.transient]
  have hmem : Step.mk u true ((SyncState.arriving (arrivalState resource (u :: later))).transition u
      later) ∈ resource.steps (u :: later) := by
    unfold Resource.steps stepsAlong
    simp [himported]
  have hlayout : resource.kind = .buffer → (SyncState.target u later).layout = .undefined :=
    fun hbuffer => (ht.planned.layouts_of_buffer hd hmem hbuffer).2
  have htarget : resource.kind = .buffer →
      left.isWrite = true ∨ (SyncState.target u later).isWrite = true := by
    refine fun hbuffer => (hwrites hbuffer).imp_right fun hw => ?_
    have hu : u.state.Fits u.isWrite := ht.planned.fits hd List.mem_cons_self
    have hsame : SyncState.target u later = u.state := by simp [SyncState.target, hw]
    have hundefined := hlayout hbuffer
    rw [hsame] at hundefined ⊢
    exact hu.writing hw (by rw [hundefined]; decide)
  obtain ⟨y, hrecorded, htransition⟩ := exists_recorded_takingOver hobject hkind ht.transient
    hinherited ((SyncState.arriving (arrivalState resource (u :: later))).transition u later) hlayout
    htarget
  obtain ⟨pass, hpass, hhas⟩ := ht.planned.exists_place hnd hbarriers hmem
    (isEffective_barrierFor_first ht.transient _) hrecorded hp
  obtain ⟨placed, hplaces, htransitions⟩ := ht.planned.exists_places_after hnd hd hbarriers
    hobject hkind hafter hlast hp
  have hentry : input.Places p order u.position u.position [(u.position, y)] := by
    refine ⟨List.pairwise_singleton .., fun x hx => ?_, fun x hx => ?_⟩
    · rw [List.mem_singleton.1 hx]
      exact ⟨Nat.le_refl _, Nat.le_refl _⟩
    · rw [List.mem_singleton.1 hx]
      exact ⟨pass, hpass, hhas⟩
  refine ⟨_, hentry.append hplaces (Nat.le_succ _) hfirst, ?_⟩
  rw [List.map_append, htransitions, List.map_cons, List.map_nil, htransition]
  rfl

variable {i : Use} {before : Nat} {left' : ImageState} (hreaches : input.Reaches p order i before left)
  (hi : i.state.layout ≠ .presentSrc) (hiu : i.position ≤ before) (hbefore : before < u.position)

include hreaches hi hiu hbefore

/-- **From one tenant through the next.** -/
theorem Tenant.passes_on (ht : input.Tenant order passes registry h resource (u :: later)) (hp : p h)
    (hinherited : input.frame.inherited.get? h = some left)
    (hwrites : resource.kind = .buffer → left.isWrite = true ∨ u.isWrite = true)
    (hleft : Timeline.lastAccess (u :: later) = some left') {last : Use}
    (hlast : (u :: later).getLast? = some last) :
    input.Reaches p order i last.position left' := by
  obtain ⟨placed, chain, hplaces, htransitions, hleaves⟩ := hreaches
  obtain ⟨more, hafter, hleaves'⟩ := ht.planned.exists_passing_steps hd hleaves hi hleft
  have hend : ∀ v ∈ u :: later, v.position ≤ last.position := fun v hv =>
    ht.planned.position_le_last hlast hv
  obtain ⟨placed', hplaces', htransitions'⟩ := ht.exists_places hnd hd hbarriers hp hinherited
    hwrites hafter (hend u List.mem_cons_self)
    (fun x hx => hend _ (Resource.use_mem_of_mem_steps (hafter.sub.subset hx)))
  have hu := hend u List.mem_cons_self
  refine ⟨placed ++ placed', _, hplaces.append (hplaces'.widen hbefore (Nat.le_refl _)) (by omega)
    (by omega), ?_, hleaves'⟩
  rw [List.map_append, List.map_append, htransitions, htransitions']

/-- **From one tenant to a use of the next.** -/
theorem Tenant.arrives (ht : input.Tenant order passes registry h resource (u :: later)) (hp : p h)
    (hinherited : input.frame.inherited.get? h = some left)
    (hwrites : resource.kind = .buffer → left.isWrite = true ∨ u.isWrite = true) {j : Use}
    (hj : j ∈ u :: later) (hpresent : presentsAt passes j.pass h = false) :
    ∃ chain, Recorded p
        (input.momentsUpTo j.position (i.position + 1) (order.drop (i.position + 1))) chain ∧
      Covers i.state j.state (chain.map MemoryBarrier.transition) := by
  obtain ⟨placed, chain, hplaces, htransitions, hleaves⟩ := hreaches
  obtain ⟨more, hafter, hlast, hcovers⟩ := ht.planned.exists_arriving_steps hd hleaves hi hj hpresent
  have huj : u.position ≤ j.position := by
    rcases List.mem_cons.1 hj with rfl | hj
    · exact Nat.le_refl _
    · exact Nat.le_of_lt ((List.pairwise_cons.1 ht.planned.sorted).1 j hj)
  obtain ⟨placed', hplaces', htransitions'⟩ := ht.exists_places hnd hd hbarriers hp hinherited
    hwrites hafter huj hlast
  have hall := hplaces.append (hplaces'.widen hbefore (Nat.le_refl _)) (by omega) (by omega)
  obtain ⟨hlt, -⟩ := List.getElem?_eq_some_iff.1 (ht.planned.getElem?_order hj)
  refine ⟨_, hall.recorded (by omega), ?_⟩
  rw [List.map_map]
  show Covers i.state j.state ((placed ++ placed').map fun x => x.2.transition)
  rw [List.map_append, htransitions, htransitions', ← List.map_append]
  exact hcovers.lowered

end Frame

end FrameInput

end FrameGraph
