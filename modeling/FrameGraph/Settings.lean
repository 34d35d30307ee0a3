/-!
# Settings

What can be configured about a graph.
-/

set_option autoImplicit false

namespace FrameGraph

/-- The settings of a graph. -/
structure Settings where
  /-- How many frames may be in flight; frames are indexed below it. -/
  framesInFlight : Nat := 3
  /-- Whether transient resources may share memory. -/
  shareMemory : Bool := true
  /-- Whether the execution plan is reported after every compilation. -/
  printPlan : Bool := false
  /-- Whether the commands of every pass are put inside a label. -/
  labelPasses : Bool := true
  deriving DecidableEq, Repr, Inhabited

end FrameGraph
