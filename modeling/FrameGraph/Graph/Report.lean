import FrameGraph.Graph

/-!
# The execution plan as text

`Graph.planLines` lays the plan out line by line: for every scheduled pass what it depends on, what
it uses and the barriers around it, and at the end the passes that were pruned.
-/

set_option autoImplicit false

namespace FrameGraph

namespace Graph

/-- The sign for the directions of a use. -/
def directionSign (u : Use) : String :=
  match u.isRead, u.isWrite with
  | true, true => "🔁"
  | false, true => "✏️ "
  | _, false => "📖"

/-- The line for a use of a resource. -/
def useLine (g : Graph) (h : Handle) (u : Use) : String :=
  let lifetime := ((g.registry.get? h).bind (·.lifetime)).getD ⟨0, 0⟩
  s!"│   {directionSign u} \"{g.registry.nameOf h}\" as {u.usage.text} @ {u.state.layout.text} " ++
    s!"(stage: {u.state.stage.describe}, access: {u.state.access.describe}) " ++
    s!"lifetime [{lifetime.first}, {lifetime.last}]"

/-- The lines that a barrier of either kind has in common. -/
def stageLine (source target : StageMask) : String :=
  s!"│       Stage:  {source.describe} → {target.describe}"

/-- The accesses on both sides of a barrier. -/
def accessLine (source target : AccessMask) : String :=
  s!"│       Access: {source.describe} → {target.describe}"

/-- The layouts on both sides of a barrier. -/
def layoutChange (source target : Layout) : String :=
  if source ≠ target then s!"{source.text} → {target.text}"
  else s!"{source.text} (no layout change)"

/-- The lines for an image barrier. -/
def imageBarrierLines (g : Graph) (b : ImageBarrier) : List String :=
  let continued := if b.continues then " (from previous frame)" else ""
  [s!"│   🔒 Image \"{g.registry.nameOf b.resource}\"{continued}",
   s!"│       Layout: {layoutChange b.source.layout b.target.layout}",
   stageLine b.source.stage b.target.stage,
   accessLine b.source.srcAccess b.target.access]

/-- The lines for a buffer barrier. -/
def bufferBarrierLines (g : Graph) (b : BufferBarrier) : List String :=
  [s!"│   🔒 Buffer \"{g.registry.nameOf b.resource}\"",
   stageLine b.source.stage b.target.stage,
   accessLine b.source.access b.target.access]

/-- The line between two parts of a pass. -/
def partLine : String := "├─────────────────────────────────────────────────────────────────┤"

/-- The lines for the barriers at one point. -/
def barrierLines (g : Graph) (title : String) (b : Barriers) : List String :=
  partLine ::
    if b.isEmpty then [s!"│ {title}: none"]
    else
      s!"│ {title}: {b.images.length} image, {b.buffers.length} buffer" ::
        (b.images.flatMap g.imageBarrierLines ++ b.buffers.flatMap g.bufferBarrierLines)

/-- The lines for the pass at a position of the plan. -/
def passLines (g : Graph) (position pass : Nat) : List String :=
  let p := g.passes.getD pass default
  let dependencies := g.dependenciesOf pass
  let around := g.barriersOf pass
  ["",
   "┌─────────────────────────────────────────────────────────────────┐",
   s!"│ [{position + 1}/{g.plan.order.length}] {p.kind.text} Pass: \"{p.name}\""] ++
  (if dependencies.isEmpty then []
   else
    ["│ Depends on: " ++
      ", ".intercalate (dependencies.map fun d => s!"\"{passName g.passes d}\"")]) ++
  [partLine] ++
  p.resources.filterMap (fun h => (g.plan.table.useAt? h position).map (g.useLine h)) ++
  g.barrierLines "Pre-barriers" around.before ++
  (if around.after.isEmpty then [] else g.barrierLines "Post-barriers" around.after) ++
  ["└─────────────────────────────────────────────────────────────────┘"]

/-- The names of the passes that contribute to no output. -/
def prunedNames (g : Graph) : List String :=
  g.passes.zipIdx.filterMap fun (p, i) => if g.isReachable i then none else some p.name

/-- The execution plan, line by line. -/
def planLines (g : Graph) : List String :=
  let pruned := g.prunedNames
  ["╔══════════════════════════════════════════════════════════════════╗",
   "║              RenderGraph Execution Plan                          ║",
   "╠══════════════════════════════════════════════════════════════════╣",
   s!"║ Passes: {g.passes.length} declared, {g.plan.order.length} scheduled  |  " ++
     s!"Resources: {g.registry.size}",
   "╚══════════════════════════════════════════════════════════════════╝"] ++
  (g.plan.order.zipIdx.flatMap fun (pass, position) => g.passLines position pass) ++
  (if pruned.isEmpty then [] else ["", "Pruned: " ++ ", ".intercalate pruned]) ++
  ["", "═══════════════════════ End of Execution Plan ═══════════════════════"]

end Graph

end FrameGraph
