import FrameGraph.Dependency.Countdown
import FrameGraph.Dependency.Graph

/-!
# Topological sorting

Passes are taken from a queue that starts with those that depend on nothing.  Taking a pass counts
down the in-degrees of its successors, and a pass whose count reaches zero joins the queue.  If
some pass never joins, the passes with a remaining count are the answer instead: they lie on a
circle of dependencies or behind one.

Principal statement: `topologicalSort_eq_ok_iff` — the sort succeeds exactly when the drained queue
has taken every pass.
-/

set_option autoImplicit false

namespace FrameGraph

namespace DependencyGraph

/-- Takes passes from the queue until it is empty.  Answers the passes taken, in order, and the
counts that remain. -/
def drain (g : DependencyGraph) (counts queue taken : List Nat) : List Nat × List Nat :=
  match queue with
  | [] => (taken, counts)
  | pass :: rest =>
      g.drain (countDown counts (g.successorsOf pass)).1
        (rest ++ (countDown counts (g.successorsOf pass)).2) (taken ++ [pass])
termination_by totalOf counts + queue.length
decreasing_by
  have := totalOf_countDown_le counts (g.successorsOf pass)
  simp only [List.length_append, List.length_cons]
  omega

/-- The passes at which a count is zero. -/
def idle (g : DependencyGraph) (counts : List Nat) : List Nat :=
  (List.range g.passCount).filter fun pass => counts.getD pass 0 = 0

/-- The passes at which a count remains. -/
def waiting (g : DependencyGraph) (counts : List Nat) : List Nat :=
  (List.range g.passCount).filter fun pass => counts.getD pass 0 > 0

/-- The passes in an order in which every producer comes before its consumers, or else the passes
that cannot be ordered. -/
def topologicalSort (g : DependencyGraph) : Except (List Nat) (List Nat) :=
  let (taken, counts) := g.drain g.inDegrees (g.idle g.inDegrees) []
  if taken.length = g.passCount then .ok taken else .error (g.waiting counts)

theorem topologicalSort_eq_ok_iff {g : DependencyGraph} {order : List Nat} :
    g.topologicalSort = .ok order ↔
      (g.drain g.inDegrees (g.idle g.inDegrees) []).1 = order ∧ order.length = g.passCount := by
  unfold topologicalSort
  dsimp only
  split
  · next h =>
      constructor
      · intro he
        cases he
        exact ⟨rfl, h⟩
      · rintro ⟨rfl, _⟩
        rfl
  · next h =>
      constructor
      · intro he; cases he
      · rintro ⟨rfl, hl⟩
        exact absurd hl h

end DependencyGraph

end FrameGraph
