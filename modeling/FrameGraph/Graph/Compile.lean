import FrameGraph.Barrier.Merge
import FrameGraph.Dependency.Reach
import FrameGraph.Dependency.Sort
import FrameGraph.Graph.Report
import FrameGraph.Schedule
import FrameGraph.Total

/-!
# Analysing and compiling

Analysing finds the dependencies and prunes the passes that contribute to no output.  Compiling
schedules the others, follows every resource along the schedule and plans the barriers.

What they find out is kept with the passes, in place of what earlier rounds have left there.

Principal statements: `phase_analyse` and `phase_compile`.
-/

set_option autoImplicit false

namespace FrameGraph

/-- The dependencies among the passes of a registry, with the passes that are reachable. -/
def Analysis.ofPasses (passes : List Pass) (registry : Registry) : Analysis :=
  let graph := DependencyGraph.ofPasses passes
  ⟨graph, graph.reaching (outputPasses passes registry)⟩

/-- What an analysis reports. -/
def Analysis.events (a : Analysis) (passes : List Pass) (registry : Registry) : List Event :=
  (match a.graph.topologicalSort with
    | .ok _ => []
    | .error cycle => [.dependencyCycle (cycle.map (passName passes))]) ++
  (if (outputPasses passes registry).isEmpty && !passes.isEmpty then [.everyPassPruned]
   else []) ++
  (passes.zipIdx.filterMap fun (p, i) =>
    if a.reachable.getD i false then none else some (.passPruned p.name)) ++
  [.analysed passes.length (a.reachable.count true) a.graph.edges.length]

/-- The passes that a pass depends on, each once, in ascending order. -/
def DependencyGraph.dependenciesOf (g : DependencyGraph) (pass : Nat) : List Nat :=
  (g.predecessorsOf pass).mergeSort.eraseDups

/-- Notes down with each pass whether it is reachable and what it depends on, in place of what was known
before. -/
def Analysis.mark (a : Analysis) (nodes : List PassNode) : List PassNode :=
  nodes.mapIdx fun i node =>
    { node with
      reachable := a.reachable.getD i false
      dependencies := a.graph.dependenciesOf i }

/-- Merges the barriers around the passes along an order. -/
def mergeBarriers (order : List Nat) (nodes : List PassNode) : List PassNode :=
  withBarriers nodes (mergeAlong order (nodes.map (·.around)))

/-- The number of barriers around the scheduled passes. -/
def Plan.barrierCount (plan : Plan) : Nat :=
  totalOf (plan.order.map fun pass => (plan.barriers.getD pass {}).count)

namespace Graph

/-- Analyses the declarations. -/
def analyse (g : Graph) : Logged Graph :=
  let a := Analysis.ofPasses g.passes g.registry
  { value := { g with dependencyGraph := some a.graph, nodes := a.mark g.nodes, phase := .analysed }
    events := a.events g.passes g.registry }

/-- The dependencies among the passes and the passes with their marks; they are found anew if something
was declared since the last analysis. -/
def currentAnalysis (g : Graph) : Logged (DependencyGraph × List PassNode) :=
  match g.phase, g.dependencyGraph with
  | .analysed, some graph | .compiled, some graph => pure (graph, g.nodes)
  | _, _ =>
      let a := Analysis.ofPasses g.passes g.registry
      ⟨(a.graph, a.mark g.nodes), a.events g.passes g.registry⟩

/-- Destroys the backings of persistent resources that are no longer declared. -/
def releaseStale (g : Graph) : Logged Graph := do
  let (backings, device) ← g.backings.releaseStale g.registry g.device
  return { g with backings, device }

/-- Compiles the declarations into a plan. -/
def compile (g : Graph) : Logged Graph := do
  let (graph, nodes) ← g.currentAnalysis
  let order ← schedule g.passes graph (nodes.map (·.reachable)) g.registry
  let registry := g.registry.withLifetimes order g.passes
  let table := UsageTable.along order g.passes registry
  let nodes ← generateBarriers table nodes registry
  let g :=
    { g with
      registry
      dependencyGraph := some graph
      nodes := mergeBarriers order nodes
      order
      table
      phase := .compiled }
  Logged.report (.compiled g.scheduledNames g.plan.barrierCount)
  let g ← g.releaseStale
  ⟨g, if g.settings.printPlan then g.planLines.map .report else []⟩

theorem phase_analyse (g : Graph) : g.analyse.value.phase = .analysed := rfl

theorem phase_compile (g : Graph) : g.compile.value.phase = .compiled := rfl

end Graph

end FrameGraph
