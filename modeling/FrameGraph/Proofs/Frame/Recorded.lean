import FrameGraph.Proofs.Barrier.Leaving
import FrameGraph.Proofs.Frame.Layouts
import FrameGraph.Proofs.Memory.Reachable

/-!
# Chains of recorded barriers

The steps of a walk become memory barriers in the recorded stream.  `Recorded` says that some barriers
stand along a stream in order; each of them is in a command of its own, because barriers of one command
do not wait for each other.  Only the barrier before the first use may be recorded in another way than
it was planned, or not at all; every other step that is needed leaves its barrier.

Principal statements: `FrameInput.Places.recorded` and `OnTimeline.exists_places`.
-/

set_option autoImplicit false

namespace FrameGraph

/-! ## Memory barriers along a stream -/

/-- A memory barrier of either kind. -/
inductive MemoryBarrier where
  | image (barrier : ImageMemoryBarrier)
  | buffer (barrier : BufferMemoryBarrier)

instance : Inhabited MemoryBarrier :=
  ⟨.buffer ⟨0, Stage.none, Access.none, Stage.none, Access.none, 0, 0, 0, 0⟩⟩

/-- The step that a memory barrier makes; a buffer is in no layout. -/
def MemoryBarrier.transition : MemoryBarrier → Transition
  | .image b =>
      ⟨⟨b.srcStage, b.srcAccess, b.oldLayout⟩, ⟨b.dstStage, b.dstAccess, b.newLayout⟩⟩
  | .buffer b =>
      ⟨⟨b.srcStage, b.srcAccess, .undefined⟩, ⟨b.dstStage, b.dstAccess, .undefined⟩⟩

/-- A barrier of a moment is on one of some resources. -/
inductive Moment.Has (p : Handle → Prop) : Moment → MemoryBarrier → Prop
  | image {h : Handle} {b : ImageMemoryBarrier} {images : List (Handle × ImageMemoryBarrier)}
      {buffers : List (Handle × BufferMemoryBarrier)} (hp : p h) (hmem : (h, b) ∈ images) :
      Has p (.barriers images buffers) (.image b)
  | buffer {h : Handle} {b : BufferMemoryBarrier} {images : List (Handle × ImageMemoryBarrier)}
      {buffers : List (Handle × BufferMemoryBarrier)} (hp : p h) (hmem : (h, b) ∈ buffers) :
      Has p (.barriers images buffers) (.buffer b)

/-- Barriers on some resources stand along a stream in order, each at a moment of its own. -/
inductive Recorded (p : Handle → Prop) : List Moment → List MemoryBarrier → Prop
  | done : Recorded p [] []
  | skip {moment : Moment} {stream : List Moment} {chain : List MemoryBarrier} :
      Recorded p stream chain → Recorded p (moment :: stream) chain
  | take {moment : Moment} {b : MemoryBarrier} {stream : List Moment}
      {chain : List MemoryBarrier} :
      moment.Has p b → Recorded p stream chain → Recorded p (moment :: stream) (b :: chain)

namespace Recorded

variable {p : Handle → Prop} {stream : List Moment} {chain : List MemoryBarrier}

theorem skipAll (before : List Moment) (h : Recorded p stream chain) :
    Recorded p (before ++ stream) chain := by
  induction before with
  | nil => exact h
  | cons moment before ih => exact .skip ih

theorem nil (stream : List Moment) : Recorded p stream [] := by
  have h := skipAll stream (.done (p := p))
  rw [List.append_nil] at h
  exact h

theorem exists_moment (h : Recorded p stream chain) {b : MemoryBarrier} (hb : b ∈ chain) :
    ∃ moment ∈ stream, moment.Has p b := by
  induction h with
  | done => cases hb
  | skip _ ih =>
      obtain ⟨moment, hmem, hhas⟩ := ih hb
      exact ⟨moment, List.mem_cons_of_mem _ hmem, hhas⟩
  | take hhas _ ih =>
      rcases List.mem_cons.1 hb with rfl | hb
      · exact ⟨_, List.mem_cons_self, hhas⟩
      · obtain ⟨moment, hmem, hhas'⟩ := ih hb
        exact ⟨moment, List.mem_cons_of_mem _ hmem, hhas'⟩

end Recorded

/-- The memory barriers among the recorded commands. -/
def Device.memoryBarriers (d : Device) : List MemoryBarrier :=
  d.imageBarriers.map .image ++ d.bufferBarriers.map .buffer

theorem Moment.commands_barriers (input : FrameInput) {images : List (Handle × ImageMemoryBarrier)}
    {buffers : List (Handle × BufferMemoryBarrier)}
    (h : ¬(images.isEmpty = true ∧ buffers.isEmpty = true)) :
    (Moment.barriers images buffers).commands input =
      [.barrier (images.map (·.2)) (buffers.map (·.2))] := by
  rw [← Bool.and_eq_true] at h
  exact if_neg h

/-- The barriers of a moment are among its commands. -/
theorem Moment.Has.mem_memoryBarriers {p : Handle → Prop} {moment : Moment} {b : MemoryBarrier}
    (h : moment.Has p b) {input : FrameInput} {d : Device}
    (hcommands : ∀ command ∈ moment.commands input, command ∈ d.commands) : b ∈ d.memoryBarriers := by
  cases h with
  | @image k b images buffers hp hmem =>
      have hne : ¬(images.isEmpty = true ∧ buffers.isEmpty = true) := by
        rintro ⟨hempty, -⟩
        rw [List.isEmpty_iff.1 hempty] at hmem
        cases hmem
      rw [Moment.commands_barriers input hne] at hcommands
      apply List.mem_append_left
      refine List.mem_map_of_mem (List.mem_flatMap.2 ⟨_, hcommands _ List.mem_cons_self, ?_⟩)
      exact List.mem_map_of_mem (f := (·.2)) hmem
  | @buffer k b images buffers hp hmem =>
      have hne : ¬(images.isEmpty = true ∧ buffers.isEmpty = true) := by
        rintro ⟨-, hempty⟩
        rw [List.isEmpty_iff.1 hempty] at hmem
        cases hmem
      rw [Moment.commands_barriers input hne] at hcommands
      apply List.mem_append_right
      refine List.mem_map_of_mem (List.mem_flatMap.2 ⟨_, hcommands _ List.mem_cons_self, ?_⟩)
      exact List.mem_map_of_mem (f := (·.2)) hmem

namespace FrameInput

variable (input : FrameInput)

/-- What is recorded for an order, the first pass of which is at a position, up to the pass at another:
with the barriers before that pass, and no more. -/
def momentsUpTo (last position : Nat) : List Nat → List Moment
  | [] => []
  | pass :: rest =>
      if position = last then [input.barrierMoment (aroundPass input.barriers pass).before]
      else input.momentsAt position pass ++ momentsUpTo last (position + 1) rest

theorem momentsUpTo_prefix (last position : Nat) (order : List Nat) :
    input.momentsUpTo last position order <+: input.momentsFrom position order := by
  induction order generalizing position with
  | nil => exact List.prefix_rfl
  | cons pass rest ih =>
      rw [momentsUpTo, momentsFrom]
      split
      · exact ⟨_, rfl⟩
      · exact (List.prefix_append_right_inj _).2 (ih (position + 1))

/-- Up to a position behind all passes, everything is recorded. -/
theorem momentsUpTo_eq {last position : Nat} {order : List Nat} (h : position + order.length ≤ last) :
    input.momentsUpTo last position order = input.momentsFrom position order := by
  induction order generalizing position with
  | nil => rfl
  | cons pass rest ih =>
      rw [List.length_cons] at h
      rw [momentsUpTo, momentsFrom, if_neg (by omega), ih (by omega)]

theorem momentsFrom_append (position : Nat) (done rest : List Nat) :
    input.momentsFrom position (done ++ rest) =
      input.momentsFrom position done ++ input.momentsFrom (position + done.length) rest := by
  induction done generalizing position with
  | nil => rfl
  | cons pass done ih =>
      rw [List.cons_append, momentsFrom, momentsFrom, ih, List.append_assoc, List.length_cons,
        Nat.add_assoc, Nat.add_comm 1]

/-- What is recorded from a position on is a part of the stream. -/
theorem momentsFrom_infix (order : List Nat) (first : Nat) :
    input.momentsFrom first (order.drop first) <:+: input.momentsFrom 0 order := by
  by_cases hfirst : first ≤ order.length
  · have hlength : 0 + (order.take first).length = first := by
      rw [List.length_take]
      omega
    have hsplit := input.momentsFrom_append 0 (order.take first) (order.drop first)
    rw [List.take_append_drop, hlength] at hsplit
    rw [hsplit]
    exact (List.suffix_append _ _).isInfix
  · rw [List.drop_eq_nil_of_le (by omega)]
    exact List.nil_infix

/-- So is what is recorded from there up to another position. -/
theorem momentsUpTo_infix (order : List Nat) (first last : Nat) :
    input.momentsUpTo last first (order.drop first) <:+: input.momentsFrom 0 order :=
  (input.momentsUpTo_prefix last first _).isInfix.trans (input.momentsFrom_infix order first)

/-- Barriers with the positions of the passes before which they are recorded, in order and within
bounds. -/
structure Places (p : Handle → Prop) (order : List Nat) (first last : Nat)
    (chain : List (Nat × MemoryBarrier)) : Prop where
  sorted : chain.Pairwise fun x y => x.1 < y.1
  within : ∀ x ∈ chain, first ≤ x.1 ∧ x.1 ≤ last
  placed : ∀ x ∈ chain, ∃ pass, order[x.1]? = some pass ∧
    (input.barrierMoment (aroundPass input.barriers pass).before).Has p x.2

namespace Places

variable {input} {p : Handle → Prop} {order : List Nat} {first middle last : Nat}
  {chain chain' : List (Nat × MemoryBarrier)}

theorem append (h : input.Places p order first middle chain)
    (h' : input.Places p order (middle + 1) last chain') (hfirst : first ≤ middle + 1)
    (hlast : middle ≤ last) : input.Places p order first last (chain ++ chain') := by
  refine ⟨List.pairwise_append.2 ⟨h.sorted, h'.sorted, fun x hx y hy => ?_⟩, fun x hx => ?_,
    fun x hx => ?_⟩
  · exact Nat.lt_of_le_of_lt (h.within x hx).2 (h'.within y hy).1
  · rcases List.mem_append.1 hx with hx | hx
    · obtain ⟨hge, hle⟩ := h.within x hx
      exact ⟨hge, Nat.le_trans hle hlast⟩
    · obtain ⟨hge, hle⟩ := h'.within x hx
      exact ⟨Nat.le_trans hfirst hge, hle⟩
  · rcases List.mem_append.1 hx with hx | hx
    · exact h.placed x hx
    · exact h'.placed x hx

/-- **Barriers at different positions stand along the stream.** -/
theorem recorded_of_split {done rest : List Nat} (horder : order = done ++ rest)
    (h : input.Places p order done.length last chain) :
    Recorded p (input.momentsUpTo last done.length rest) (chain.map (·.2)) := by
  induction rest generalizing done chain with
  | nil =>
      cases chain with
      | nil => exact .done
      | cons x chain =>
          obtain ⟨pass, hpass, -⟩ := h.placed x List.mem_cons_self
          obtain ⟨hlt, -⟩ := List.getElem?_eq_some_iff.1 hpass
          have hge := (h.within x List.mem_cons_self).1
          rw [horder, List.append_nil] at hlt
          omega
  | cons pass rest ih =>
      have hpass : order[done.length]? = some pass := by rw [horder]; simp
      have hlength : (done ++ [pass]).length = done.length + 1 := by simp
      have hrest : ∀ more : List (Nat × MemoryBarrier),
          input.Places p order (done.length + 1) last more →
            Recorded p (input.momentsUpTo last (done.length + 1) rest) (more.map (·.2)) := by
        intro more hmore
        rw [← hlength] at hmore ⊢
        apply ih _ hmore
        rw [horder, List.append_assoc, List.singleton_append]
      cases chain with
      | nil => exact .nil _
      | cons x chain =>
          obtain ⟨hge, hle⟩ := h.within x List.mem_cons_self
          obtain ⟨hfirst, hsorted⟩ := List.pairwise_cons.1 h.sorted
          have htail : input.Places p order (x.1 + 1) last chain := by
            refine ⟨hsorted, fun y hy => ⟨hfirst y hy, ?_⟩, fun y hy => ?_⟩
            · exact (h.within y (List.mem_cons_of_mem _ hy)).2
            · exact h.placed y (List.mem_cons_of_mem _ hy)
          rw [momentsUpTo]
          by_cases hx : x.1 = done.length
          · -- The barrier is recorded before this pass.
            rw [hx] at htail
            obtain ⟨pass', hpass', hhas⟩ := h.placed x List.mem_cons_self
            obtain rfl : pass = pass' := Option.some.inj (hpass.symm.trans (hx ▸ hpass'))
            split
            · next hlast =>
                cases chain with
                | nil => exact .take hhas .done
                | cons y chain =>
                    obtain ⟨hlt, hle'⟩ := htail.within y List.mem_cons_self
                    omega
            · exact .take hhas (.skipAll _ (hrest chain htail))
          · rw [if_neg (by omega)]
            apply Recorded.skipAll
            apply hrest (x :: chain)
            refine ⟨h.sorted, fun y hy => ?_, h.placed⟩
            obtain ⟨hge', hle'⟩ := h.within y hy
            refine ⟨?_, hle'⟩
            rcases List.mem_cons.1 hy with rfl | hy
            · omega
            · have hlt := hfirst y hy
              omega

theorem recorded (h : input.Places p order first last chain) (hfirst : first ≤ order.length) :
    Recorded p (input.momentsUpTo last first (order.drop first)) (chain.map (·.2)) := by
  have hlength : (order.take first).length = first := by
    rw [List.length_take]
    omega
  have hsplit := recorded_of_split (List.take_append_drop first order).symm (hlength.symm ▸ h)
  rw [hlength] at hsplit
  exact hsplit

end Places

end FrameInput

/-! ## Recording one barrier -/

/-- The transition as a memory barrier makes it: only writes are waited for. -/
def Transition.lowered (t : Transition) : Transition :=
  { t with source := { t.source with access := t.source.srcAccess } }

theorem StartsFrom.lowered {i : ImageState} {chain : List Transition} (h : StartsFrom i chain) :
    StartsFrom i (chain.map Transition.lowered) := by
  obtain ⟨b, hb, hstage, haccess⟩ := h.first
  refine ⟨⟨b.lowered, ?_, hstage, ImageState.srcAccess_contains haccess⟩, ?_⟩
  · rw [List.head?_map, hb]
    rfl
  · rw [List.isChain_map]
    exact h.linked

theorem Covers.lowered {i j : ImageState} {chain : List Transition} (h : Covers i j chain) :
    Covers i j (chain.map Transition.lowered) := by
  obtain ⟨b, hb, hcontains⟩ := h.last
  refine ⟨h.toStartsFrom.lowered, b.lowered, ?_, hcontains⟩
  rw [List.getLast?_map, hb]
  rfl

/-- The memory barrier that is recorded for a barrier of the plan. -/
def ResourceBarrier.recorded? (frame : FrameObjects) : ResourceBarrier → Option MemoryBarrier
  | .image b => (b.lowerIn frame).emitted?.map .image
  | .buffer b => (b.lowerIn frame).emitted?.map .buffer

/-- What is recorded for a barrier of a list stands at the moment of the list. -/
theorem FrameInput.has_barrierMoment {input : FrameInput} {b : Barriers} {h : Handle}
    {x : ResourceBarrier} (hx : x ∈ b.on h) {y : MemoryBarrier}
    (hy : x.recorded? input.frame = some y) {p : Handle → Prop} (hp : p h) :
    (input.barrierMoment b).Has p y := by
  rcases List.mem_append.1 hx with hx | hx
  · obtain ⟨z, hz, rfl⟩ := List.mem_map.1 hx
    obtain ⟨hmem, hresource⟩ := List.mem_filter.1 hz
    obtain ⟨barrier, hemitted, rfl⟩ := Option.map_eq_some_iff.1 hy
    refine .image hp (List.mem_filterMap.2 ⟨z, hmem, ?_⟩)
    rw [hemitted, Option.map_some, of_decide_eq_true hresource]
  · obtain ⟨z, hz, rfl⟩ := List.mem_map.1 hx
    obtain ⟨hmem, hresource⟩ := List.mem_filter.1 hz
    obtain ⟨barrier, hemitted, rfl⟩ := Option.map_eq_some_iff.1 hy
    refine .buffer hp (List.mem_filterMap.2 ⟨z, hmem, ?_⟩)
    rw [hemitted, Option.map_some, of_decide_eq_true hresource]

section Recording

variable {frame : FrameObjects} {h : Handle} {resource : Resource} {object : DeviceObject}
  {t : Transition}

/-- **A barrier for a needed transition is recorded as it was planned**, unless it is one before the
first use of a new or transient resource. -/
theorem exists_recorded_barrierFor (hobject : frame.objects.get? h = some object)
    (hkind : object.kind = resource.kind)
    (hbuffer : resource.kind = .buffer →
      t.source.layout = .undefined ∧ t.target.layout = .undefined)
    (hneeded : t.isNeeded = true) {isFirst : Bool}
    (hplain : isFirst = true → resource.isPersistent = true ∧ frame.created.contains h = false) :
    ∃ y, (barrierFor h resource isFirst t).recorded? frame = some y ∧ y.transition = t.lowered := by
  have htakes : (isFirst && resource.isTransient) = false := by
    cases hfirst : isFirst with
    | false => rfl
    | true =>
        have hsource := of_decide_eq_true (hplain hfirst).1
        rw [Bool.true_and, Resource.isTransient, hsource]
        rfl
  have hcontinues : (isFirst && resource.isPersistent && frame.created.contains h) = false := by
    cases hfirst : isFirst with
    | false => rfl
    | true => rw [(hplain hfirst).2, Bool.and_false]
  unfold barrierFor
  cases hinfo : resource.info with
  | image info =>
      obtain ⟨image, view, rfl⟩ : ∃ image view, object = .image image view := by
        rw [Resource.kind, hinfo] at hkind
        cases object with
        | image image view => exact ⟨image, view, rfl⟩
        | buffer buffer => cases hkind
      refine ⟨.image (ImageBarrier.lower ⟨h, t.source, t.target, info.aspect,
        isFirst && resource.isPersistent, false⟩ image), ?_, rfl⟩
      have hnot : (isFirst && resource.isPersistent && !ImageBarrier.isNeeded ⟨h, t.source, t.target,
          info.aspect, isFirst && resource.isPersistent, false⟩) = false := by
        have hn : ImageBarrier.isNeeded ⟨h, t.source, t.target, info.aspect,
            isFirst && resource.isPersistent, false⟩ = true := hneeded
        rw [hn, Bool.not_true, Bool.and_false]
      simp only [ResourceBarrier.recorded?, ImageBarrier.lowerIn, hobject, Option.bind_some,
        DeviceObject.image?, htakes, hcontinues, hnot, Bool.false_eq_true, if_false,
        Lowering.emitted?, Option.map_some]
  | buffer info =>
      obtain ⟨hsource, htarget⟩ := hbuffer (by rw [Resource.kind, hinfo]; rfl)
      obtain ⟨buffer, rfl⟩ : ∃ buffer, object = .buffer buffer := by
        rw [Resource.kind, hinfo] at hkind
        cases object with
        | image image view => cases hkind
        | buffer buffer => exact ⟨buffer, rfl⟩
      have hwrites : BufferBarrier.isNeeded ⟨h, t.source.toBufferState, t.target.toBufferState, 0,
          wholeSize, false⟩ = true := by
        have hn : (t.source.isWrite || t.target.isWrite) = true := by
          simpa [Transition.isNeeded, hsource, htarget] using hneeded
        exact hn
      refine ⟨.buffer (BufferBarrier.lower ⟨h, t.source.toBufferState, t.target.toBufferState, 0,
        wholeSize, false⟩ buffer), ?_, ?_⟩
      · simp only [ResourceBarrier.recorded?, BufferBarrier.lowerIn, BufferBarrier.inFrame?, hobject,
          Option.bind_some, DeviceObject.buffer?, htakes, Bool.false_eq_true, if_false, hwrites,
          if_true, Lowering.emitted?, Option.map_some]
      · obtain ⟨⟨stage, access, layout⟩, ⟨stage', access', layout'⟩⟩ := t
        cases hsource
        cases htarget
        rfl

end Recording

/-! ## Recording the steps of a walk -/

section Plan

variable {order : List Nat} {passes : List Pass} {registry : Registry} {h : Handle}
  {resource : Resource} {timeline : Timeline} {input : FrameInput} {object : DeviceObject}

namespace OnTimeline

variable (hr : OnTimeline order passes registry h resource timeline) (hnd : order.Nodup)

include hr hnd

/-- What is recorded for the step before a use is recorded before its pass. -/
theorem exists_place (hbarriers : input.barriers = compiledAlong order passes registry) {x : Step}
    (hx : x ∈ resource.steps timeline)
    (heffective : (barrierFor h resource x.isFirst x.transition).isEffective = true)
    {y : MemoryBarrier}
    (hy : (barrierFor h resource x.isFirst x.transition).recorded? input.frame = some y)
    {p : Handle → Prop} (hp : p h) :
    ∃ pass, order[x.use.position]? = some pass ∧
      (input.barrierMoment (aroundPass input.barriers pass).before).Has p y := by
  refine ⟨x.use.pass, hr.getElem?_order (Resource.use_mem_of_mem_steps hx), ?_⟩
  refine FrameInput.has_barrierMoment (h := h) ?_ hy hp
  rw [hbarriers, hr.on_before_compiled hnd]
  refine List.mem_filter.2 ⟨List.mem_map.2 ⟨x, List.mem_filter.2 ⟨hx, ?_⟩, rfl⟩, heffective⟩
  simp

/-- **The needed steps of a walk are recorded**, each before the pass of its use. -/
theorem exists_places (hd : Declared registry passes)
    (hbarriers : input.barriers = compiledAlong order passes registry)
    (hobject : input.frame.objects.get? h = some object) (hkind : object.kind = resource.kind)
    {chain : List Step} (hsub : chain.Sublist (resource.steps timeline))
    (hneeded : ∀ x ∈ chain, x.transition.isNeeded = true)
    (hplain : ∀ x ∈ chain, x.isFirst = true →
      resource.isPersistent = true ∧ input.frame.created.contains h = false)
    {first last : Nat} (hplace : ∀ x ∈ chain, first ≤ x.use.position ∧ x.use.position ≤ last)
    {p : Handle → Prop} (hp : p h) :
    ∃ placed, input.Places p order first last placed ∧
      placed.map (fun x => x.2.transition) = (chain.map Step.transition).map Transition.lowered := by
  have hrecorded : ∀ x ∈ chain, ∃ y,
      (barrierFor h resource x.isFirst x.transition).recorded? input.frame = some y ∧
        y.transition = x.transition.lowered := fun x hx =>
    exists_recorded_barrierFor hobject hkind (hr.layouts_of_buffer hd (hsub.subset hx))
      (hneeded x hx) (hplain x hx)
  have hsorted : chain.Pairwise fun x y => x.use.position < y.use.position := by
    have huses := hr.sorted.sublist ((hsub.map Step.use).trans (use_stepsAlong ..))
    rw [List.pairwise_map] at huses
    exact huses
  choose! record hrecord htransition using hrecorded
  refine ⟨chain.map fun x => (x.use.position, record x), ⟨?_, ?_, ?_⟩, ?_⟩
  · exact List.pairwise_map.2 hsorted
  · intro y hy
    obtain ⟨x, hx, rfl⟩ := List.mem_map.1 hy
    exact hplace x hx
  · intro y hy
    obtain ⟨x, hx, rfl⟩ := List.mem_map.1 hy
    refine hr.exists_place hnd hbarriers (hsub.subset hx) ?_ (hrecord x hx) hp
    exact isEffective_barrierFor x.isFirst (hr.layouts_of_buffer hd (hsub.subset hx)) (hneeded x hx)
  · rw [List.map_map, List.map_map]
    exact List.map_congr_left fun x hx => htransition x hx

/-- The needed steps behind a position are recorded behind it. -/
theorem exists_places_after (hd : Declared registry passes)
    (hbarriers : input.barriers = compiledAlong order passes registry)
    (hobject : input.frame.objects.get? h = some object) (hkind : object.kind = resource.kind)
    {position : Nat} {more : List Step} (hafter : StepsAfter resource timeline position more)
    {last : Nat} (hlast : ∀ x ∈ more, x.use.position ≤ last) {p : Handle → Prop} (hp : p h) :
    ∃ placed, input.Places p order (position + 1) last placed ∧
      placed.map (fun x => x.2.transition) = (more.map Step.transition).map Transition.lowered := by
  refine hr.exists_places hnd hd hbarriers hobject hkind hafter.sub hafter.needed ?_
    (fun x hx => ⟨(hafter.later x hx).2, hlast x hx⟩) hp
  intro x hx hfirst
  rw [(hafter.later x hx).1] at hfirst
  cases hfirst

end OnTimeline

end Plan

/-! ## Every frame of every graph -/

namespace Graph

variable {g g' : Graph}

/-- The plan of a graph was made for a resource of the same outline. -/
theorem Reachable.exists_planned (hg : g.Reachable) {h : Handle} {resource : Resource}
    {timeline : Timeline} (hget : g.upToDate.registry.get? h = some resource)
    (htable : g.upToDate.plan.table.get? h = some timeline) :
    ∃ registry planned, Declared registry g.upToDate.passes ∧
      g.upToDate.plan.IsFor g.upToDate.passes registry ∧
      OnTimeline g.upToDate.plan.order g.upToDate.passes registry h planned timeline ∧
      planned.outline = resource.outline := by
  obtain ⟨hsound, hcompiled⟩ := hg.isSound.upToDate
  obtain ⟨registry, hd, hsame, hplan⟩ := hsound.planned hcompiled
  obtain ⟨planned, hplanned, houtline⟩ := hsame.exists_live hget
  rw [hplan.table] at htable
  obtain ⟨found, hr⟩ := exists_onTimeline htable
  obtain rfl : found = planned := Option.some.inj (hr.live.symm.trans hplanned)
  exact ⟨registry, found, hd, hplan, hr, houtline⟩

/-- The commands of a frame are those of a stream of moments. -/
structure Records (g : Graph) (index : Nat) (frame : FrameObjects) (g' : Graph) : Prop where
  objects : frame.objects = g'.objects
  commands : g'.device.commands = g.device.commands ++
    ((g'.frameInput index frame).momentsFrom 0 g'.plan.order).flatMap
      (Moment.commands (g'.frameInput index frame))

theorem records_afterFrame (hg : g.Reachable) {index : Nat} {r : Resolution}
    (hok : (resolveFrame index g.upToDate.registry g.upToDate.plan.table
      (g.resolution index)).result = .ok r) : g.Records index r.frame (g.afterFrame index r) := by
  refine ⟨rfl, ?_⟩
  have hstream := ((g.frame index r).stream_record g.upToDate.states g.upToDate.plan.order).1
  show r.device.commands ++ (g.frameRun index r).commands = _
  rw [(settles_frame hg.holdings hok).commands]
  exact congrArg (g.device.commands ++ ·) hstream

/-- What stands in the stream of a frame is recorded on the device. -/
theorem Records.mem_memoryBarriers {index : Nat} {frame : FrameObjects}
    (h : g.Records index frame g') {p : Handle → Prop} {stream : List Moment}
    (hstream : stream <:+: (g'.frameInput index frame).momentsFrom 0 g'.plan.order)
    {chain : List MemoryBarrier} (hchain : Recorded p stream chain) {b : MemoryBarrier}
    (hb : b ∈ chain) : b ∈ g'.device.memoryBarriers := by
  obtain ⟨moment, hmem, hhas⟩ := hchain.exists_moment hb
  apply hhas.mem_memoryBarriers
  intro command hcommand
  rw [h.commands]
  exact List.mem_append_right _ (List.mem_flatMap.2 ⟨moment, hstream.subset hmem, hcommand⟩)

end Graph

end FrameGraph
