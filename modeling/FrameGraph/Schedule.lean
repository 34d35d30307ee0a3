import FrameGraph.Dependency.Analysis
import FrameGraph.Dependency.Countdown
import FrameGraph.Dependency.Distance

/-!
# Scheduling

Passes are ordered one by one.  Among the passes whose dependencies are all scheduled, the next one
is chosen by locality: it shares the most resources with the pass before it, then needs the fewest
layout transitions, then is nearest to a pass that accesses an imported resource, and last was
declared first.  The layouts of images are simulated along the way.

If no pass is ready although some are missing, the rest follows in the order of declaration.

Principal statement: `pick_mem` — the chosen pass is one of the candidates.
-/

set_option autoImplicit false

namespace FrameGraph

/-- The layout that a pass requires of an image: that of its first usage of the image, in all the
directions in which the pass accesses it.  A buffer has none. -/
def Pass.layoutFor? (p : Pass) (registry : Registry) (h : Handle) : Option Layout :=
  match registry.get? h, p.accesses.find? fun a => a.resource = h with
  | some resource, some first =>
      match resource.kind with
      | .buffer => none
      | .image =>
          let read := p.accesses.any fun a => a.resource = h && !a.isWrite
          let write := p.accesses.any fun a => a.resource = h && a.isWrite
          some (first.usage.resolve p.kind .image read write).layout
  | _, _ => none

/-- The number of resources that both passes access. -/
def Pass.sharedCount (p q : Pass) : Nat := p.resources.countP q.involves

/-- The number of images that the pass needs in another layout than the one they are in. -/
def Pass.transitionCount (p : Pass) (registry : Registry) (layouts : HandleMap Layout) : Nat :=
  p.resources.countP fun h =>
    match p.layoutFor? registry h with
    | none => false
    | some layout => layouts.get? h ≠ some layout

/-- Holds if the pass accesses an imported resource. -/
def Pass.involvesImported (p : Pass) (registry : Registry) : Bool :=
  p.resources.any fun h => (registry.get? h).any Resource.isImported

/-! ## The choice among passes -/

/-- What speaks for scheduling a pass next. -/
structure Priority where
  shared : Nat
  transitions : Nat
  distance : Option Nat
  index : Nat
  deriving DecidableEq, Repr

namespace Priority

/-- Holds if the first distance is the smaller one; no distance is the greatest. -/
def nearer : Option Nat → Option Nat → Bool
  | some d, some e => d < e
  | some _, none => true
  | none, _ => false

/-- Holds if the first candidate is to be scheduled before the second. -/
def precedes (a b : Priority) : Bool :=
  if a.shared ≠ b.shared then b.shared < a.shared
  else if a.transitions ≠ b.transitions then a.transitions < b.transitions
  else if a.distance ≠ b.distance then nearer a.distance b.distance
  else a.index < b.index

end Priority

/-- The candidate that precedes the others. -/
def pick (priority : Nat → Priority) (first : Nat) (rest : List Nat) : Nat :=
  rest.foldl (fun best next => if (priority next).precedes (priority best) then next else best)
    first

/-- The chosen pass is one of the candidates. -/
theorem pick_mem (priority : Nat → Priority) (first : Nat) (rest : List Nat) :
    pick priority first rest ∈ first :: rest := by
  induction rest generalizing first with
  | nil => simp [pick]
  | cons next rest ih =>
      have step := ih (if (priority next).precedes (priority first) then next else first)
      change pick priority _ rest ∈ _
      rcases List.mem_cons.1 step with h | h
      · rw [h]
        split <;> simp
      · simp [h]

/-! ## The schedule -/

/-- What the scheduler looks at. -/
structure ScheduleInput where
  passes : List Pass
  graph : DependencyGraph
  reachable : List Bool
  registry : Registry

namespace ScheduleInput

/-- Holds if the pass is to be scheduled. -/
def wants (s : ScheduleInput) (pass : Nat) : Bool := s.reachable.getD pass false

/-- The accesses of a pass. -/
def passAt (s : ScheduleInput) (pass : Nat) : Pass := s.passes.getD pass default

/-- For every pass, the number of passes to be scheduled on which it depends. -/
def dependencyCounts (s : ScheduleInput) : List Nat :=
  (List.range s.passes.length).map fun pass => (s.graph.predecessorsOf pass).countP s.wants

/-- The passes that wait for no other. -/
def initiallyReady (s : ScheduleInput) : List Nat :=
  (List.range s.passes.length).filter fun pass =>
    s.wants pass && s.dependencyCounts.getD pass 0 = 0

/-- The layouts at the beginning: that in which an imported image is handed over, or none. -/
def initialLayouts (s : ScheduleInput) : HandleMap Layout :=
  s.registry.toList.foldl
    (fun layouts (h, resource) =>
      layouts.insert h ((resource.handover?.map (·.initial.layout)).getD .undefined))
    .empty

/-- The layouts after a pass. -/
def layoutsAfter (s : ScheduleInput) (layouts : HandleMap Layout) (pass : Nat) : HandleMap Layout :=
  (s.passAt pass).accesses.foldl
    (fun layouts a =>
      match (s.passAt pass).layoutFor? s.registry a.resource with
      | none => layouts
      | some layout => layouts.insert a.resource layout)
    layouts

/-- The distance of every pass to a scheduled pass that accesses an imported resource. -/
def importDistances (s : ScheduleInput) : List (Option Nat) :=
  s.graph.distancesTo <|
    (List.range s.passes.length).filter fun pass =>
      s.wants pass && (s.passAt pass).involvesImported s.registry

/-- What speaks for scheduling a pass after `previous`. -/
def priority (s : ScheduleInput) (distances : List (Option Nat)) (layouts : HandleMap Layout)
    (previous : Option Nat) (pass : Nat) : Priority where
  shared :=
    match previous with
    | none => 0
    | some previous => (s.passAt previous).sharedCount (s.passAt pass)
  transitions := (s.passAt pass).transitionCount s.registry layouts
  distance := distances.getD pass none
  index := pass

/-- Schedules passes as long as one is ready. -/
def extend (s : ScheduleInput) (distances : List (Option Nat)) (counts : List Nat)
    (layouts : HandleMap Layout) (order ready : List Nat) : List Nat :=
  match ready with
  | [] => order
  | first :: rest =>
      let next := pick (s.priority distances layouts order.getLast?) first rest
      let counted := countDown counts ((s.graph.successorsOf next).filter s.wants)
      s.extend distances counted.1 (s.layoutsAfter layouts next) (order ++ [next])
        ((first :: rest).erase next ++ counted.2)
termination_by totalOf counts + ready.length
decreasing_by
  have hlen := List.length_erase_of_mem
    (pick_mem (s.priority distances layouts order.getLast?) first rest)
  have hle := totalOf_countDown_le counts ((s.graph.successorsOf
    (pick (s.priority distances layouts order.getLast?) first rest)).filter s.wants)
  simp only [List.length_append, List.length_cons] at hlen ⊢
  omega

/-- The passes in the order in which they become ready and are chosen. -/
def greedyOrder (s : ScheduleInput) : List Nat :=
  s.extend s.importDistances s.dependencyCounts s.initialLayouts [] s.initiallyReady

/-- The passes to be scheduled that an order lacks, in the order of declaration. -/
def missing (s : ScheduleInput) (order : List Nat) : List Nat :=
  (List.range s.passes.length).filter fun pass => s.wants pass && !order.contains pass

/-- An order of the passes to be scheduled. -/
def order (s : ScheduleInput) : Logged (List Nat) :=
  let order := s.greedyOrder
  let total := s.reachable.count true
  if order.length = total then return order
  else do
    Logged.report (.schedulerStalled order.length total)
    return order ++ s.missing order

/-- An order of the passes to be scheduled; a pass without a mark is a fault. -/
def order? (s : ScheduleInput) : Outcome (List Nat) := do
  if s.reachable.length < s.passes.length then
    Outcome.ofExcept (checkIndex s.reachable.length s.reachable.length)
  s.order

end ScheduleInput

/-- The order in which the reachable passes are executed. -/
def schedule (passes : List Pass) (graph : DependencyGraph) (reachable : List Bool)
    (registry : Registry) : Logged (List Nat) :=
  ScheduleInput.order ⟨passes, graph, reachable, registry⟩

end FrameGraph
