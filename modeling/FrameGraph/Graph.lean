import FrameGraph.Barrier.Plan
import FrameGraph.Dependency.Graph
import FrameGraph.Frame.Backing
import FrameGraph.Settings

/-!
# The graph

A graph collects resources and passes, analyses their dependencies, compiles them into a plan, and
records frames from the plan.  It goes through three phases: whatever is declared takes it back to
the first, and analysing and compiling take it onwards.

Principal statements: `phase_register` — which registrations take the graph back to declaring — and
`phase_addPass`.
-/

set_option autoImplicit false

namespace FrameGraph

/-- How far the graph has come since something was declared. -/
inductive Phase where
  | declaring
  | analysed
  | compiled
  deriving DecidableEq, Repr

/-- The dependencies among the passes, and which of them contribute to an output. -/
structure Analysis where
  graph : DependencyGraph
  reachable : List Bool
  deriving Repr

/-- The order of execution, the uses of every resource along it, and the barriers around each
pass. -/
structure Plan where
  order : List Nat := []
  table : UsageTable := .empty
  barriers : List AroundPass := []
  deriving Repr

/-- Resources and passes, the plan compiled from them, and what is behind the resources.  What was found
out about a pass is kept with the pass. -/
structure Graph where
  settings : Settings
  device : Device
  registry : Registry := {}
  nodes : List PassNode := []
  phase : Phase := .declaring
  /-- The dependencies found by the last analysis. -/
  dependencyGraph : Option DependencyGraph := none
  /-- The execution order of the last plan. -/
  order : List Nat := []
  /-- The uses of every resource along the order of the last plan. -/
  table : UsageTable := .empty
  pool : Pool
  backings : Backings := {}
  /-- The objects behind the resources of the last frame. -/
  objects : HandleMap DeviceObject := .empty
  /-- The states in which the resources were left. -/
  states : HandleMap ImageState := .empty

/-- How a pass is declared. -/
structure PassDeclaration where
  name : String
  kind : PassKind
  acts : List Act
  callback : Option Callback

namespace Graph

/-- The graph without declarations. -/
def empty (device : Device) (settings : Settings) : Graph where
  settings
  device
  pool := { shareMemory := settings.shareMemory }

/-! ## What is kept -/

/-- The declared passes. -/
def passes (g : Graph) : List Pass := g.nodes.map (·.toPass)

/-- The last analysis, with the marks of the passes. -/
def analysis (g : Graph) : Option Analysis :=
  g.dependencyGraph.map fun graph => ⟨graph, g.nodes.map (·.reachable)⟩

/-- The last plan, with the barriers of the passes. -/
def plan (g : Graph) : Plan := ⟨g.order, g.table, g.nodes.map (·.around)⟩

/-! ## Declarations -/

/-- Updating the object of an imported resource leaves the plan as it is; everything else takes the
graph back to declaring. -/
def keepsPlan : Registry.Operation → Bool
  | .updateImage _ _ _ | .updateBuffer _ _ => true
  | _ => false

/-- Performs an operation on the registry. -/
def register (g : Graph) (op : Registry.Operation) : Logged (Registry.Reply × Graph) := do
  let (reply, registry) ← g.registry.perform op
  return (reply, { g with registry, phase := if keepsPlan op then g.phase else .declaring })

/-- Adds a declared pass. -/
def appendPass (g : Graph) (p : Pass) : Logged Graph where
  value := { g with nodes := g.nodes ++ [.fresh p], phase := .declaring }
  events :=
    (if g.passes.any fun other => other.name = p.name then [.passNameReused p.name] else []) ++
      if p.callback.isNone then [.passWithoutCallback p.name] else []

/-- Declares a pass.  Answers the handles of its acts; its index is the number of passes
before. -/
def addPass (g : Graph) (d : PassDeclaration) : Logged (List Handle × Graph) := do
  let draft : PassDraft := { name := d.name, kind := d.kind, registry := g.registry }
  let (handles, draft) ← draft.performAll d.acts
  let g ← appendPass { g with registry := draft.registry } (draft.toPass d.callback)
  return (handles, g)

/-- Forgets all declarations and the plan.  The memory stays. -/
def clear (g : Graph) : Graph :=
  { g with
    nodes := []
    registry := g.registry.clear
    dependencyGraph := none
    order := []
    table := .empty
    objects := .empty
    states := .empty
    phase := .declaring }

/-- Destroys everything that the graph has created.  The declarations and the plan stay. -/
def dispose (g : Graph) : Graph :=
  let (pool, device) := g.pool.release g.device
  { g with
    pool
    device := g.backings.releaseAll device
    backings := {}
    objects := .empty }

/-! ## Queries -/

/-- Holds if the plan is that of the current declarations. -/
def isCompiled (g : Graph) : Bool := g.phase = .compiled

/-- Holds if a pass contributes to an output, as far as analysed. -/
def isReachable (g : Graph) (pass : Nat) : Bool := (g.nodes.map (·.reachable)).getD pass false

/-- The passes that a pass depends on, as far as analysed, in ascending order. -/
def dependenciesOf (g : Graph) (pass : Nat) : List Nat :=
  (g.nodes.map (·.dependencies)).getD pass []

/-- The barriers around a pass, as far as compiled. -/
def barriersOf (g : Graph) (pass : Nat) : AroundPass := (g.nodes.map (·.around)).getD pass {}

/-- The number of passes that contribute to an output. -/
def reachableCount (g : Graph) : Nat := (List.range g.passes.length).countP g.isReachable

/-- The names of the scheduled passes in order. -/
def scheduledNames (g : Graph) : List String := g.plan.order.map (passName g.passes)

/-- The first pass with a given name, with its index. -/
def pass? (g : Graph) (name : String) : Option (Pass × Nat) :=
  g.passes.zipIdx.find? fun entry => entry.1.name = name

/-- The object behind a resource in the last frame. -/
def object? (g : Graph) (name : String) : Option DeviceObject :=
  (g.registry.handle? name).bind g.objects.get?

/-- The state in which a resource was left. -/
def state? (g : Graph) (name : String) : Option ImageState :=
  (g.registry.handle? name).bind g.states.get?

/-! ## What declaring changes -/

/-- Only an update of an imported object leaves the phase as it is. -/
theorem phase_register (g : Graph) (op : Registry.Operation) :
    (g.register op).value.2.phase = if keepsPlan op then g.phase else .declaring := rfl

theorem passes_appendPass (g : Graph) (p : Pass) :
    (g.appendPass p).value.passes = g.passes ++ [p] := List.map_append

theorem passes_addPass (g : Graph) (d : PassDeclaration) :
    (g.addPass d).value.2.passes = g.passes ++
      [((⟨d.name, d.kind, g.registry, []⟩ : PassDraft).performAll d.acts).value.2.toPass d.callback] :=
  passes_appendPass ..

theorem phase_addPass (g : Graph) (d : PassDeclaration) :
    (g.addPass d).value.2.phase = .declaring := rfl

end Graph

end FrameGraph
