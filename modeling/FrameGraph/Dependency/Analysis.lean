import FrameGraph.Dependency.Graph
import FrameGraph.Pass

/-!
# Dependencies of a list of passes

The passes are visited in the order of their declaration.  For every resource the analysis knows
its last writer and the readers since then.  A read depends on the last writer; a write depends on
the last writer and on the readers since then.  Within one pass the reads come first, so that a
pass that does both reads what was there before.

Principal statement: `passCount_ofPasses` — the graph has one node for each pass.
-/

set_option autoImplicit false

namespace FrameGraph

/-- The dependencies found so far, and for every resource its last writer and the readers since
then. -/
structure HazardTracker where
  graph : DependencyGraph
  lastWriter : HandleMap Nat := .empty
  readers : HandleMap (List Nat) := .empty
  deriving Repr

namespace HazardTracker

/-- The passes that read a resource since it was written. -/
def readersOf (t : HazardTracker) (h : Handle) : List Nat := (t.readers.get? h).getD []

/-- Makes a pass depend on the last writer of a resource, if there is one. -/
def dependOnWriter (t : HazardTracker) (pass : Nat) (h : Handle) (hazard : Hazard) :
    DependencyGraph :=
  match t.lastWriter.get? h with
  | none => t.graph
  | some writer => t.graph.addEdge ⟨writer, pass, h, hazard⟩

/-- A pass reads a resource. -/
def read (t : HazardTracker) (pass : Nat) (h : Handle) : HazardTracker :=
  { t with
    graph := t.dependOnWriter pass h .readAfterWrite
    readers :=
      if pass ∈ t.readersOf h then t.readers
      else t.readers.insert h (t.readersOf h ++ [pass]) }

/-- A pass writes a resource. -/
def write (t : HazardTracker) (pass : Nat) (h : Handle) : HazardTracker where
  graph :=
    (t.readersOf h).foldl (fun g reader => g.addEdge ⟨reader, pass, h, .writeAfterRead⟩)
      (t.dependOnWriter pass h .writeAfterWrite)
  lastWriter := t.lastWriter.insert h pass
  readers := t.readers.erase h

/-- The resources that a pass accesses in one direction, one for each access. -/
def accessed (p : Pass) (isWrite : Bool) : List Handle :=
  (p.accesses.filter fun a => a.isWrite = isWrite).map PassAccess.resource

/-- A pass does all its accesses, the reads first. -/
def visit (t : HazardTracker) (pass : Nat) (p : Pass) : HazardTracker :=
  let afterReads := (accessed p false).foldl (fun t h => t.read pass h) t
  (accessed p true).foldl (fun t h => t.write pass h) afterReads

/-- The passes are visited in order, numbered from `first`. -/
def visitFrom (t : HazardTracker) (first : Nat) : List Pass → HazardTracker
  | [] => t
  | p :: rest => (t.visit first p).visitFrom (first + 1) rest

end HazardTracker

/-- The dependencies among passes in the order of their declaration. -/
def DependencyGraph.ofPasses (passes : List Pass) : DependencyGraph :=
  (HazardTracker.visitFrom { graph := .edgeless passes.length } 0 passes).graph

/-- The passes that write something for presentation or an output of the graph. -/
def outputPasses (passes : List Pass) (registry : Registry) : List Nat :=
  (List.range passes.length).filter fun i => (passes[i]?).any fun p => p.producesOutput registry

/-! ## One node for each pass -/

namespace HazardTracker

@[simp] theorem passCount_dependOnWriter (t : HazardTracker) (pass : Nat) (h : Handle)
    (hazard : Hazard) : (t.dependOnWriter pass h hazard).passCount = t.graph.passCount := by
  unfold dependOnWriter
  split <;> simp

@[simp] theorem passCount_read (t : HazardTracker) (pass : Nat) (h : Handle) :
    (t.read pass h).graph.passCount = t.graph.passCount := by
  simp [read]

@[simp] theorem passCount_write (t : HazardTracker) (pass : Nat) (h : Handle) :
    (t.write pass h).graph.passCount = t.graph.passCount := by
  have fold : ∀ (readers : List Nat) (g : DependencyGraph),
      (readers.foldl (fun g reader => g.addEdge ⟨reader, pass, h, .writeAfterRead⟩) g).passCount =
        g.passCount := by
    intro readers
    induction readers with
    | nil => intro g; rfl
    | cons reader rest ih => intro g; simp [ih]
  simp [write, fold]

theorem passCount_visit (t : HazardTracker) (pass : Nat) (p : Pass) :
    (t.visit pass p).graph.passCount = t.graph.passCount := by
  have reads : ∀ (handles : List Handle) (t : HazardTracker),
      (handles.foldl (fun t h => t.read pass h) t).graph.passCount = t.graph.passCount := by
    intro handles
    induction handles with
    | nil => intro t; rfl
    | cons h rest ih => intro t; simp [ih]
  have writes : ∀ (handles : List Handle) (t : HazardTracker),
      (handles.foldl (fun t h => t.write pass h) t).graph.passCount = t.graph.passCount := by
    intro handles
    induction handles with
    | nil => intro t; rfl
    | cons h rest ih => intro t; simp [ih]
  simp [visit, reads, writes]

theorem passCount_visitFrom (t : HazardTracker) (first : Nat) (passes : List Pass) :
    (t.visitFrom first passes).graph.passCount = t.graph.passCount := by
  induction passes generalizing t first with
  | nil => rfl
  | cons p rest ih => simp [visitFrom, ih, passCount_visit]

end HazardTracker

@[simp] theorem passCount_ofPasses (passes : List Pass) :
    (DependencyGraph.ofPasses passes).passCount = passes.length := by
  simp [DependencyGraph.ofPasses, HazardTracker.passCount_visitFrom, DependencyGraph.edgeless]

end FrameGraph
