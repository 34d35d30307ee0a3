import FrameGraph.Frame.Recording

/-!
# The recorded stream

The commands of a frame name the objects of the device, not the resources that the barriers were
planned for, and they do not tell whose callback recorded them.  A list of `Moment`s keeps both; the
commands and the callbacks of a frame are read off it.

Principal statements: `commands_recordFrom`, `invocations_recordFrom`, and `mem_momentsFrom`: what
stands in the stream.
-/

set_option autoImplicit false

namespace FrameGraph

/-- What is recorded at one point of a frame: memory barriers, each with the resource that it is on, or
the commands of the pass at a position of the order. -/
inductive Moment where
  | barriers (images : List (Handle × ImageMemoryBarrier))
      (buffers : List (Handle × BufferMemoryBarrier))
  | pass (position pass : Nat)

namespace FrameInput

variable (input : FrameInput)

/-- The barriers at one point, with their resources. -/
def barrierMoment (b : Barriers) : Moment :=
  .barriers
    (b.images.filterMap fun x => (x.lowerIn input.frame).emitted?.map fun y => (x.resource, y))
    (b.buffers.filterMap fun x => (x.lowerIn input.frame).emitted?.map fun y => (x.resource, y))

/-- What is recorded for the pass at a position: the barriers before it, the pass itself unless it is
skipped, and the barriers after it. -/
def momentsAt (position pass : Nat) : List Moment :=
  let p := input.passes.getD pass default
  let around := input.barriers.getD pass default
  input.barrierMoment around.before ::
    ((if (input.missing p).isEmpty then [.pass position pass] else []) ++
      [input.barrierMoment around.after])

/-- What is recorded for an order, the first pass of which is at a position. -/
def momentsFrom (position : Nat) : List Nat → List Moment
  | [] => []
  | pass :: rest => input.momentsAt position pass ++ momentsFrom (position + 1) rest

end FrameInput

namespace Moment

/-- The commands of a moment. -/
def commands (input : FrameInput) : Moment → List Command
  | .barriers images buffers =>
      if images.isEmpty && buffers.isEmpty then []
      else [.barrier (images.map (·.2)) (buffers.map (·.2))]
  | .pass _ i => input.passCommands (input.passes.getD i default)

/-- The callbacks that run at a moment. -/
def invocations (input : FrameInput) : Moment → List Invocation
  | .barriers _ _ => []
  | .pass _ i => input.invocations i (input.passes.getD i default)

end Moment

namespace FrameInput

variable (input : FrameInput)

/-- Taking the resources off again leaves the barriers. -/
private theorem map_snd_filterMap {α β : Type} (f : α → Option β) (key : α → Handle) (l : List α) :
    (l.filterMap fun x => (f x).map fun y => (key x, y)).map (·.2) = l.filterMap f := by
  rw [List.map_filterMap]
  refine congrArg (List.filterMap · l) (funext fun x => ?_)
  cases f x <;> rfl

/-- The commands at one point are those of its moment. -/
theorem commands_recordPoint (b : Barriers) (states : HandleMap ImageState) :
    (recordPoint input.frame b states).1 = (input.barrierMoment b).commands input := by
  have hempty : ∀ {α : Type} (l : List (Handle × α)), l.isEmpty = (l.map (·.2)).isEmpty := by
    intro α l
    cases l <;> rfl
  unfold barrierMoment Moment.commands
  dsimp only
  rw [hempty, hempty, map_snd_filterMap, map_snd_filterMap]
  rfl

theorem commands_recordPass (run : FrameRun) (position pass : Nat) :
    (input.recordPass run position pass).value.commands =
      run.commands ++ (input.momentsAt position pass).flatMap (Moment.commands input) := by
  unfold recordPass momentsAt
  dsimp only
  rw [commands_recordPoint, commands_recordPoint, List.flatMap_cons, List.flatMap_append]
  cases (input.missing (input.passes.getD pass default)).isEmpty <;>
    simp [Moment.commands, List.append_assoc]

theorem invocations_recordPass (run : FrameRun) (position pass : Nat) :
    (input.recordPass run position pass).value.invocations =
      run.invocations ++ (input.momentsAt position pass).flatMap (Moment.invocations input) := by
  unfold recordPass momentsAt
  dsimp only
  rw [List.flatMap_cons, List.flatMap_append]
  cases (input.missing (input.passes.getD pass default)).isEmpty <;>
    simp [Moment.invocations, barrierMoment]

/-- **The recorded commands are those of the moments**, in their order. -/
theorem commands_recordFrom (run : FrameRun) (position : Nat) (order : List Nat) :
    (input.recordFrom run position order).value.commands =
      run.commands ++ (input.momentsFrom position order).flatMap (Moment.commands input) := by
  induction order generalizing run position with
  | nil =>
      rw [momentsFrom, List.flatMap_nil, List.append_nil]
      rfl
  | cons pass rest ih =>
      have hstep := commands_recordPass input run position pass
      rw [momentsFrom, List.flatMap_append, ← List.append_assoc, ← hstep]
      exact ih (input.recordPass run position pass).value (position + 1)

/-- **The callbacks that run are those of the moments**, in their order. -/
theorem invocations_recordFrom (run : FrameRun) (position : Nat) (order : List Nat) :
    (input.recordFrom run position order).value.invocations =
      run.invocations ++ (input.momentsFrom position order).flatMap (Moment.invocations input) := by
  induction order generalizing run position with
  | nil =>
      rw [momentsFrom, List.flatMap_nil, List.append_nil]
      rfl
  | cons pass rest ih =>
      have hstep := invocations_recordPass input run position pass
      rw [momentsFrom, List.flatMap_append, ← List.append_assoc, ← hstep]
      exact ih (input.recordPass run position pass).value (position + 1)

/-- The stream of a frame, whole. -/
theorem stream_record (states : HandleMap ImageState) (order : List Nat) :
    (input.record states order).value.commands =
        (input.momentsFrom 0 order).flatMap (Moment.commands input) ∧
      (input.record states order).value.invocations =
        (input.momentsFrom 0 order).flatMap (Moment.invocations input) := by
  have hcommands := commands_recordFrom input { states := input.enter states } 0 order
  have hinvocations := invocations_recordFrom input { states := input.enter states } 0 order
  exact ⟨hcommands, hinvocations⟩

/-! ## What stands in the stream -/

variable {input}

theorem mem_momentsAt {moment : Moment} {position pass : Nat}
    (hmem : moment ∈ input.momentsAt position pass) :
    (∃ b, moment = input.barrierMoment b) ∨ moment = .pass position pass := by
  rw [momentsAt, List.mem_cons, List.mem_append, List.mem_singleton] at hmem
  rcases hmem with heq | hmem | heq
  · exact .inl ⟨_, heq⟩
  · split at hmem
    · exact .inr (List.mem_singleton.1 hmem)
    · cases hmem
  · exact .inl ⟨_, heq⟩

/-- A moment is one of barriers, or that of a pass at its position of the order. -/
theorem mem_momentsFrom {moment : Moment} {done rest : List Nat}
    (hmem : moment ∈ input.momentsFrom done.length rest) :
    (∃ b, moment = input.barrierMoment b) ∨
      ∃ position pass, moment = .pass position pass ∧ (done ++ rest)[position]? = some pass := by
  induction rest generalizing done with
  | nil => cases hmem
  | cons next rest ih =>
      rw [momentsFrom] at hmem
      rcases List.mem_append.1 hmem with hmem | hmem
      · rcases mem_momentsAt hmem with hbarriers | heq
        · exact .inl hbarriers
        · exact .inr ⟨done.length, next, heq, by simp⟩
      · have hlength : (done ++ [next]).length = done.length + 1 := by simp
        rw [← hlength] at hmem
        have hnext := ih hmem
        rw [List.append_assoc] at hnext
        exact hnext

/-- A moment of barriers is that of the barriers before or after a pass. -/
theorem exists_around_of_mem_momentsFrom {images : List (Handle × ImageMemoryBarrier)}
    {buffers : List (Handle × BufferMemoryBarrier)} {position : Nat} {order : List Nat}
    (hmem : .barriers images buffers ∈ input.momentsFrom position order) :
    ∃ pass, .barriers images buffers = input.barrierMoment (input.barriers.getD pass default).before ∨
      .barriers images buffers = input.barrierMoment (input.barriers.getD pass default).after := by
  induction order generalizing position with
  | nil => cases hmem
  | cons pass rest ih =>
      rw [momentsFrom] at hmem
      rcases List.mem_append.1 hmem with hmem | hmem
      · rw [momentsAt, List.mem_cons, List.mem_append, List.mem_singleton] at hmem
        rcases hmem with hbefore | hmem | hafter
        · exact ⟨pass, .inl hbefore⟩
        · split at hmem
          · cases List.mem_singleton.1 hmem
          · cases hmem
        · exact ⟨pass, .inr hafter⟩
      · exact ih hmem

/-- A recorded barrier is one on the image of its resource. -/
theorem image_of_barrierMoment {b : Barriers} {images : List (Handle × ImageMemoryBarrier)}
    {buffers : List (Handle × BufferMemoryBarrier)}
    (hb : .barriers images buffers = input.barrierMoment b) {x : Handle × ImageMemoryBarrier}
    (hx : x ∈ images) :
    (input.frame.objects.get? x.1).bind DeviceObject.image? = some x.2.image := by
  rw [barrierMoment] at hb
  obtain ⟨rfl, -⟩ := Moment.barriers.inj hb
  obtain ⟨planned, -, hplanned⟩ := List.mem_filterMap.1 hx
  obtain ⟨barrier, hemitted, rfl⟩ := Option.map_eq_some_iff.1 hplanned
  show (input.frame.objects.get? planned.resource).bind DeviceObject.image? = some barrier.image
  unfold ImageBarrier.lowerIn at hemitted
  split at hemitted
  · cases hemitted
  · next image himage =>
      rw [himage]
      split at hemitted
      · cases hemitted
        rfl
      · split at hemitted
        · cases hemitted
        · split at hemitted
          · cases hemitted
            rfl
          · cases hemitted
            rfl

end FrameInput

end FrameGraph
