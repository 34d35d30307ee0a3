import FrameGraph.Dependency.Distance

/-!
# Reachability

A pass contributes to a result if a path of dependencies leads from it to a terminal pass: if it
has a distance to the terminals.

Principal statement: `length_reaching` — there is one mark for each pass.
-/

set_option autoImplicit false

namespace FrameGraph

namespace DependencyGraph

/-- For every pass, whether it contributes to one of the terminals. -/
def reaching (g : DependencyGraph) (terminals : List Nat) : List Bool :=
  (g.distancesTo terminals).map Option.isSome

/-- Reachability of terminals that may lie outside the graph, which is a fault. -/
def reaching? (g : DependencyGraph) (terminals : List Nat) : Except Fault (List Bool) := do
  checkIndices g.passCount terminals
  return g.reaching terminals

@[simp] theorem length_reaching (g : DependencyGraph) (terminals : List Nat) :
    (g.reaching terminals).length = g.passCount := by
  simp [reaching]

end DependencyGraph

end FrameGraph
