import FrameGraph.Barrier.Basic
import FrameGraph.Logged
import FrameGraph.Pass
import FrameGraph.Timeline

/-!
# Recording a frame

The passes of a plan are recorded in order: the barriers before the pass, its commands inside a
label, the barriers after it.  A pass whose resources are not all there in this frame is skipped,
but its barriers are recorded, so that the layouts of the other resources stay on their way.

Recording a barrier settles what the plan left open: whether a persistent image is new, and who
held the memory of a transient resource before.

Principal statement: `states_of_not_dropped` — a barrier that is not dropped takes its resource to its
target.
-/

set_option autoImplicit false

namespace FrameGraph

/-- The resources of one frame. -/
structure FrameObjects where
  objects : HandleMap DeviceObject := .empty
  /-- The persistent resources that were created in this frame. -/
  created : List Handle := []
  /-- For a transient resource in memory that was held before: the state in which it was left. -/
  inherited : HandleMap ImageState := .empty

/-- What becomes of a barrier of the plan: its resource is missing or needs no barrier at all, or
its resource is there but already as it should be, or it is recorded. -/
inductive Lowering (β : Type) where
  | dropped
  | elided
  | emitted (barrier : β)
  deriving DecidableEq, Repr

/-- The recorded barrier. -/
def Lowering.emitted? {β : Type} : Lowering β → Option β
  | .emitted barrier => some barrier
  | _ => none

/-- The barrier on the image of this frame.  New images are discarded, persistent images that stay
as they are need nothing, and images in shared memory wait for who held it before. -/
def ImageBarrier.lowerIn (frame : FrameObjects) (b : ImageBarrier) :
    Lowering ImageMemoryBarrier :=
  match (frame.objects.get? b.resource).bind DeviceObject.image? with
  | none => .dropped
  | some image =>
      if b.continues && frame.created.contains b.resource then
        .emitted (b.withoutContent.lower image)
      else if b.continues && !b.isNeeded then .elided
      else
        match b.takesOver, frame.inherited.get? b.resource with
        | true, some previous => .emitted ((b.takingOver previous).lower image)
        | _, _ => .emitted (b.lower image)

/-- The barrier as it applies in this frame: a buffer in shared memory waits for who held it
before, and one with memory of its own has nobody to wait for. -/
def BufferBarrier.inFrame? (frame : FrameObjects) (b : BufferBarrier) : Option BufferBarrier :=
  if b.takesOver then
    (frame.inherited.get? b.resource).map fun previous => b.takingOver previous.toBufferState
  else some b

/-- The barrier on the buffer of this frame, unless it only separates reads. -/
def BufferBarrier.lowerIn (frame : FrameObjects) (b : BufferBarrier) :
    Lowering BufferMemoryBarrier :=
  match (frame.objects.get? b.resource).bind DeviceObject.buffer?, b.inFrame? frame with
  | some buffer, some settled =>
      if settled.isNeeded then .emitted (settled.lower buffer) else .dropped
  | _, _ => .dropped

/-- The states of the resources after a barrier. -/
def observe {β : Type} (states : HandleMap ImageState) (h : Handle) (target : ImageState) :
    Lowering β → HandleMap ImageState
  | .dropped => states
  | .elided | .emitted _ => states.insert h target

/-- Records the barriers at one point of a frame.  Answers the commands, of which there is at most
one, and the new states of the resources. -/
def recordPoint (frame : FrameObjects) (barriers : Barriers)
    (states : HandleMap ImageState) : List Command × HandleMap ImageState :=
  let images := barriers.images.filterMap fun b => (b.lowerIn frame).emitted?
  let buffers := barriers.buffers.filterMap fun b => (b.lowerIn frame).emitted?
  let states := barriers.images.foldl
    (fun states b => observe states b.resource b.target (b.lowerIn frame)) states
  let states := barriers.buffers.foldl
    (fun states b => observe states b.resource b.target.toImageState (b.lowerIn frame))
    states
  (if images.isEmpty && buffers.isEmpty then [] else [.barrier images buffers], states)

/-! ## Passes -/

/-- What a frame is recorded from. -/
structure FrameInput where
  index : Nat
  registry : Registry
  table : UsageTable
  passes : List Pass
  barriers : List AroundPass
  frame : FrameObjects
  labels : Bool

/-- A callback that ran: that of which pass, and what it saw. -/
structure Invocation where
  pass : Nat
  context : PassView

/-- The frame as far as it is recorded. -/
structure FrameRun where
  states : HandleMap ImageState
  commands : List Command := []
  skipped : Nat := 0
  invocations : List Invocation := []

namespace FrameInput

/-- Holds if the resource is there in this frame. -/
def isBacked (input : FrameInput) (h : Handle) : Bool := input.frame.objects.contains h

/-- The resources of a pass that are missing in this frame. -/
def missing (input : FrameInput) (p : Pass) : List Handle :=
  p.resources.filter fun h => !input.isBacked h

/-- What the callback of a pass sees. -/
def context (input : FrameInput) (p : Pass) : PassView where
  frame := input.index
  name := p.name
  kind := p.kind
  registry := input.registry
  objects := input.frame.objects

/-- The callback of a pass as it runs. -/
def invocations (input : FrameInput) (pass : Nat) (p : Pass) : List Invocation :=
  if p.callback.isSome then [⟨pass, input.context p⟩] else []

/-- The commands of a pass that is executed. -/
def passCommands (input : FrameInput) (p : Pass) : List Command :=
  let commands :=
    match p.callback with
    | none => []
    | some callback => callback (input.context p)
  if input.labels then .beginLabel p.name p.kind.labelColor :: commands ++ [.endLabel]
  else commands

/-- The states of the resources after the pass at a position. -/
def observeUses (input : FrameInput) (p : Pass) (position : Nat)
    (states : HandleMap ImageState) : HandleMap ImageState :=
  p.resources.foldl
    (fun states h =>
      match input.table.useAt? h position with
      | some u => if input.isBacked h then states.insert h u.state else states
      | none => states)
    states

/-- Records the pass at a position of the order: executes it, or skips it. -/
def recordPass (input : FrameInput) (run : FrameRun) (position pass : Nat) : Logged FrameRun :=
  let p := input.passes.getD pass default
  let around := input.barriers.getD pass default
  let (before, states) := recordPoint input.frame around.before run.states
  let missing := input.missing p
  let isSkipped := !missing.isEmpty
  let (after, states) :=
    recordPoint input.frame around.after (input.observeUses p position states)
  { value :=
      { states
        commands :=
          run.commands ++ before ++ (if isSkipped then [] else input.passCommands p) ++ after
        skipped := if isSkipped then run.skipped + 1 else run.skipped
        invocations :=
          run.invocations ++ if isSkipped then [] else input.invocations pass p }
    events :=
      if isSkipped then
        [.passSkipped p.name input.index (missing.map input.registry.nameOf)]
      else [] }

/-- Records the passes of an order, the first of which is at `position`. -/
def recordFrom (input : FrameInput) (run : FrameRun) (position : Nat) :
    List Nat → Logged FrameRun
  | [] => return run
  | pass :: rest => do
      let run ← input.recordPass run position pass
      input.recordFrom run (position + 1) rest

/-- The states in which the resources enter the frame.  Imported resources are as they are handed
over; what is created in this frame is undefined; the others stay as the frame before left them. -/
def enter (input : FrameInput) (states : HandleMap ImageState) : HandleMap ImageState :=
  input.registry.toList.foldl
    (fun states (h, resource) =>
      match resource.source with
      | .imported _ handover => states.insert h handover.initial
      | .internal false => states.insert h .undefined
      | .internal true =>
          if input.frame.created.contains h then states.insert h .undefined else states)
    states

/-- Hands the imported resources back.  One that is in the agreed layout is in the agreed state,
as all that is left to do is up to the owner; any other is reported. -/
def leave (states : HandleMap ImageState) :
    List (Handle × Resource) → Logged (HandleMap ImageState)
  | [] => return states
  | (h, resource) :: rest =>
      match resource.handover? with
      | none => leave states rest
      | some handover =>
          let layout := (states.get? h).map (·.layout)
          if layout = some handover.final.layout then
            leave (states.insert h handover.final) rest
          else do
            Logged.report (.exitLayout resource.name layout handover.final.layout)
            leave states rest

/-- Records a frame along an order. -/
def record (input : FrameInput) (states : HandleMap ImageState) (order : List Nat) :
    Logged FrameRun := do
  let run ← input.recordFrom { states := input.enter states } 0 order
  let states ← leave run.states input.registry.toList
  return { run with states }

end FrameInput

/-! ## What a barrier leaves -/

/-- A barrier that is not dropped takes its resource to its target. -/
theorem states_of_not_dropped {β : Type} {lowering : Lowering β} (hl : lowering ≠ .dropped)
    (states : HandleMap ImageState) (h : Handle) (target : ImageState) :
    (observe states h target lowering).get? h = some target := by
  cases lowering with
  | dropped => exact absurd rfl hl
  | elided => exact HandleMap.get?_insert_self states h target
  | emitted _ => exact HandleMap.get?_insert_self states h target

end FrameGraph
