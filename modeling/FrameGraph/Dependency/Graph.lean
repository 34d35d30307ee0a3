import FrameGraph.Fault
import FrameGraph.Handle

/-!
# Dependency graphs

The passes of a graph are numbered from zero.  An edge says that its consumer has to come after its
producer, because of one resource and one kind of hazard.  Beside the list of edges the graph keeps
tables of successors, predecessors and in-degrees in which two passes are linked at most once,
however many edges there are between them.

Principal statements: `addEdge_self` — an edge from a pass to itself is ignored — and
`insertEdge_eq_ok_iff` — an edge is accepted if it is such an edge or lies within the tables.
-/

set_option autoImplicit false

namespace FrameGraph

/-- Why one access has to come after another. -/
inductive Hazard where
  | readAfterWrite
  | writeAfterWrite
  | writeAfterRead
  deriving DecidableEq, Repr

/-- A dependency between two passes. -/
structure Edge where
  producer : Nat
  consumer : Nat
  resource : Handle
  hazard : Hazard
  deriving DecidableEq, Repr

/-- The edges between passes, with their tables of neighbours. -/
structure DependencyGraph where
  passCount : Nat
  successors : List (List Nat)
  predecessors : List (List Nat)
  inDegrees : List Nat
  edges : List Edge
  deriving DecidableEq, Repr

namespace DependencyGraph

/-- The graph without edges. -/
def edgeless (passCount : Nat) : DependencyGraph where
  passCount
  successors := List.replicate passCount []
  predecessors := List.replicate passCount []
  inDegrees := List.replicate passCount 0
  edges := []

/-- The passes that directly depend on a pass. -/
def successorsOf (g : DependencyGraph) (pass : Nat) : List Nat := g.successors.getD pass []

/-- The passes that a pass directly depends on. -/
def predecessorsOf (g : DependencyGraph) (pass : Nat) : List Nat := g.predecessors.getD pass []

/-- Makes two passes neighbours, unless they are. -/
def link (g : DependencyGraph) (producer consumer : Nat) : DependencyGraph :=
  if consumer ∈ g.successorsOf producer then g
  else
    { g with
      successors := g.successors.modify producer (· ++ [consumer])
      predecessors := g.predecessors.modify consumer (· ++ [producer])
      inDegrees := g.inDegrees.modify consumer (· + 1) }

/-- Adds an edge; a pass does not depend on itself. -/
def addEdge (g : DependencyGraph) (e : Edge) : DependencyGraph :=
  if e.producer = e.consumer then g
  else
    let linked := g.link e.producer e.consumer
    { linked with edges := linked.edges ++ [e] }

/-- Adds an edge whose ends may lie outside the tables, which is a fault. -/
def insertEdge (g : DependencyGraph) (e : Edge) : Except Fault DependencyGraph :=
  if e.producer = e.consumer then .ok g
  else do
    checkIndices g.passCount [e.producer, e.consumer]
    return g.addEdge e

/-- Adds edges in order. -/
def insertEdges (g : DependencyGraph) (edges : List Edge) : Except Fault DependencyGraph :=
  edges.foldlM insertEdge g

/-! ## The tables -/

@[simp] theorem passCount_link (g : DependencyGraph) (producer consumer : Nat) :
    (g.link producer consumer).passCount = g.passCount := by
  unfold link
  split <;> rfl

@[simp] theorem edges_link (g : DependencyGraph) (producer consumer : Nat) :
    (g.link producer consumer).edges = g.edges := by
  unfold link
  split <;> rfl

@[simp] theorem passCount_addEdge (g : DependencyGraph) (e : Edge) :
    (g.addEdge e).passCount = g.passCount := by
  unfold addEdge
  split
  · rfl
  · exact passCount_link g e.producer e.consumer

theorem addEdge_self {e : Edge} (h : e.producer = e.consumer) (g : DependencyGraph) :
    g.addEdge e = g := by
  simp [addEdge, h]

theorem edges_addEdge {e : Edge} (h : e.producer ≠ e.consumer) (g : DependencyGraph) :
    (g.addEdge e).edges = g.edges ++ [e] := by
  simp [addEdge, h]

theorem insertEdge_eq_ok_iff {g g' : DependencyGraph} {e : Edge} :
    g.insertEdge e = .ok g' ↔
      (e.producer = e.consumer ∨ e.producer < g.passCount ∧ e.consumer < g.passCount) ∧
        g' = g.addEdge e := by
  unfold insertEdge
  split
  · next h => simp [h, addEdge_self h, eq_comm]
  · next h =>
      have hends : (∀ pass ∈ [e.producer, e.consumer], pass < g.passCount) ↔
          e.producer < g.passCount ∧ e.consumer < g.passCount := by simp
      rw [bind_eq_ok_iff, or_iff_right h, ← hends]
      constructor
      · rintro ⟨_, hcheck, hadd⟩
        cases hadd
        exact ⟨checkIndices_eq_ok_iff.1 hcheck, rfl⟩
      · rintro ⟨hcheck, rfl⟩
        exact ⟨(), checkIndices_eq_ok_iff.2 hcheck, rfl⟩

end DependencyGraph

end FrameGraph
