import FrameGraph.Graph.Compile

/-!
# Executing a frame

A frame is executed on one of the frame indices in flight.  The plan is compiled first if it is not
up to date; then the resources of the frame are resolved, and the passes are recorded.

Principal statement: `execute_of_out_of_range` — a frame index that is not in flight is reported
and nothing else happens.
-/

set_option autoImplicit false

namespace FrameGraph

namespace Graph

/-- What a frame is recorded from. -/
def frameInput (g : Graph) (index : Nat) (frame : FrameObjects) : FrameInput where
  index
  registry := g.registry
  table := g.plan.table
  passes := g.passes
  barriers := g.plan.barriers
  frame
  labels := g.settings.labelPasses

/-- Frees what the pool holds for a frame index. -/
def recycle (g : Graph) (index : Nat) : Graph :=
  let pool := { g.pool with shareMemory := g.settings.shareMemory }
  let (pool, device) := pool.recycle g.device index
  { g with pool, device }

/-- Resolves the resources of a frame. -/
def resolve (g : Graph) (index : Nat) : Outcome (FrameObjects × Graph) := do
  let start : Resolution := { device := g.device, backings := g.backings, pool := g.pool }
  let r ← resolveFrame index g.registry g.plan.table start
  return (r.frame, { g with device := r.device, backings := r.backings, pool := r.pool })

/-- Records the passes of the plan.  Answers the callbacks that ran. -/
def recordFrame (g : Graph) (index : Nat) (frame : FrameObjects) :
    Logged (List Invocation × Graph) := do
  let run ← (g.frameInput index frame).record g.states g.plan.order
  Logged.report (.frameRecorded index (g.plan.order.length - run.skipped) run.skipped
    (g.pool.blocks.map (·.size)))
  return (run.invocations,
    { g with
      device := g.device.record run.commands
      states := run.states
      objects := frame.objects })

/-- Executes a frame.  Answers the callbacks that ran. -/
def execute (g : Graph) (index : Nat) : Outcome (List Invocation × Graph) :=
  if index ≥ g.settings.framesInFlight then do
    (Logged.report (.frameOutOfRange index g.settings.framesInFlight) : Logged Unit)
    return ([], g)
  else do
    let g ← (if g.isCompiled then pure g else g.compile : Logged Graph)
    let (frame, g) ← (g.recycle index).resolve index
    g.recordFrame index frame

/-- A frame index that is not in flight is reported, and nothing else happens. -/
theorem execute_of_out_of_range {g : Graph} {index : Nat}
    (h : g.settings.framesInFlight ≤ index) :
    g.execute index = ⟨.ok ([], g), [.frameOutOfRange index g.settings.framesInFlight]⟩ := by
  simp only [execute, ge_iff_le, h, if_true]
  rfl

end Graph

end FrameGraph
