import FrameGraph.Barrier.Sync
import FrameGraph.Logged
import FrameGraph.Node

/-!
# Planning barriers

Every timeline is walked along, which tells before which uses a barrier is needed.  The first
use of an internal resource always gets one: whether it is needed, and what it leads away from, is
only known when the frame is recorded.  An imported resource gets a barrier after its last use if
it is not yet in the state in which it is to be handed back.

The barriers are kept with the passes.  Those of an earlier plan are cleared before any is added.
-/

set_option autoImplicit false

namespace FrameGraph

/-- A barrier on a resource of either kind. -/
inductive ResourceBarrier where
  | image (barrier : ImageBarrier)
  | buffer (barrier : BufferBarrier)
  deriving DecidableEq, Repr

namespace ResourceBarrier

def image? : ResourceBarrier → Option ImageBarrier
  | .image barrier => some barrier
  | .buffer _ => none

def buffer? : ResourceBarrier → Option BufferBarrier
  | .image _ => none
  | .buffer barrier => some barrier

end ResourceBarrier

/-- Adds a barrier at the end of those of its kind. -/
def Barriers.push (b : Barriers) : ResourceBarrier → Barriers
  | .image barrier => { b with images := b.images ++ [barrier] }
  | .buffer barrier => { b with buffers := b.buffers ++ [barrier] }

/-- A barrier with its place: before or after a pass. -/
structure PlacedBarrier where
  pass : Nat
  isAfter : Bool
  barrier : ResourceBarrier
  deriving DecidableEq, Repr

/-- Adds a barrier before or after the pass. -/
def AroundPass.push (b : AroundPass) (placed : PlacedBarrier) : AroundPass :=
  if placed.isAfter then { b with after := b.after.push placed.barrier }
  else { b with before := b.before.push placed.barrier }

/-- Adds a barrier to those around its pass. -/
def pushBarrier (nodes : List PassNode) (placed : PlacedBarrier) : List PassNode :=
  nodes.modify placed.pass fun node => { node with around := node.around.push placed }

/-! ## One resource -/

/-- The state in which a resource enters the frame.  A persistent one is in the state in which the
frame before left it. -/
def arrivalState (resource : Resource) (timeline : Timeline) : ImageState :=
  match resource.source with
  | .imported _ handover => handover.initial
  | .internal true => (timeline.getLast?.map Use.state).getD .undefined
  | .internal false => .undefined

/-- A barrier before a use of a resource. -/
structure Step where
  use : Use
  isFirst : Bool
  transition : Transition
  deriving DecidableEq, Repr

/-- The steps along a timeline, and what is known behind its end. -/
def walk (resource : Resource) (sync : SyncState) (isFirst : Bool) :
    Timeline → List Step × SyncState
  | [] => ([], sync)
  | u :: later =>
      let (rest, final) := walk resource (sync.after u later) false later
      let kept := sync.needs u || isFirst && !resource.isImported
      (if kept then ⟨u, isFirst, sync.transition u later⟩ :: rest else rest, final)

/-- The barrier on a resource for a transition; `isFirst` says that it precedes the first use. -/
def barrierFor (h : Handle) (resource : Resource) (isFirst : Bool) (t : Transition) :
    ResourceBarrier :=
  let takesOver := isFirst && resource.isTransient
  match resource.info with
  | .image info =>
      .image
        { resource := h
          source := t.source
          target := t.target
          aspect := info.aspect
          continues := isFirst && resource.isPersistent
          takesOver }
  | .buffer _ =>
      .buffer
        { resource := h
          source := t.source.toBufferState
          target := t.target.toBufferState
          takesOver }

/-- The barrier after the last use of a resource. -/
def handBack? (resource : Resource) (sync : SyncState) : Option Transition :=
  resource.handover?.bind fun handover => sync.handBack? handover.final

/-- The name of a pass. -/
def passName (passes : List Pass) (pass : Nat) : String := (passes.getD pass default).name

/-- What planning the barriers on one resource reports. -/
def planEvents (passes : List Pass) (resource : Resource) (first last : Use) (steps : List Step)
    (final : Option Transition) : List Event :=
  (if resource.isTransient && !first.isWrite then
    [.readBeforeWrite resource.name (passName passes first.pass)] else []) ++
    steps.map (fun s =>
      .preBarrier resource.name (passName passes s.use.pass) s.transition.source.layout
        s.transition.target.layout) ++
    final.toList.map fun t =>
      .postBarrier resource.name (passName passes last.pass) t.source.layout t.target.layout

/-- Plans the barriers on one resource. -/
def planResource (passes : List Pass) (h : Handle) (resource : Resource) (timeline : Timeline) :
    Logged (List PlacedBarrier) :=
  match timeline, timeline.getLast? with
  | first :: _, some last =>
      let (steps, sync) :=
        walk resource (.arriving (arrivalState resource timeline)) true timeline
      let final := handBack? resource sync
      { value :=
          steps.map (fun s =>
            ⟨s.use.pass, false, barrierFor h resource s.isFirst s.transition⟩) ++
            final.toList.map fun t => ⟨last.pass, true, barrierFor h resource false t⟩
        events := planEvents passes resource first last steps final }
  | _, _ => pure []

/-! ## All resources -/

/-- Plans the barriers on the resources of a list of timelines, in order. -/
def placeBarriers (passes : List Pass) (registry : Registry) :
    List (Handle × Timeline) → Logged (List PlacedBarrier)
  | [] => return []
  | (h, timeline) :: rest => do
      let placed ←
        match registry.get? h with
        | none => pure []
        | some resource => planResource passes h resource timeline
      let others ← placeBarriers passes registry rest
      return placed ++ others

/-- Plans the barriers around each pass, in place of those that an earlier plan has left there. -/
def generateBarriers (table : UsageTable) (nodes : List PassNode) (registry : Registry) :
    Logged (List PassNode) := do
  let placed ← placeBarriers (nodes.map (·.toPass)) registry table.entries
  return placed.foldl pushBarrier (nodes.map PassNode.clearBarriers)

/-- The barriers around each pass of which nothing is known yet. -/
def planBarriers (table : UsageTable) (passes : List Pass) (registry : Registry) :
    Logged (List AroundPass) :=
  List.map PassNode.around <$> generateBarriers table (passes.map .fresh) registry

end FrameGraph
