import FrameGraph.Pass

/-!
# Timelines

The timeline of a resource lists its uses along an execution order, one for each pass that accesses
it.  A pass with several accesses to a resource uses it once, in the union of their states.

Principal statement: `mergedState_contains` — merging a run of reads only adds stages and accesses.
-/

set_option autoImplicit false

namespace FrameGraph

/-- One use of a resource: the position in the execution order, the pass there, and the state that
the pass requires. -/
structure Use where
  position : Nat
  pass : Nat
  usage : Usage
  isRead : Bool
  isWrite : Bool
  state : ImageState
  deriving DecidableEq, Repr

/-- The use that consists of one access. -/
def Use.ofAccess (position pass : Nat) (a : PassAccess) (state : ImageState) : Use where
  position
  pass
  usage := a.usage
  isRead := !a.isWrite
  isWrite := a.isWrite
  state

/-- A use with a further access.  The stages and accesses add up; the usage and the layout are
those of the last access that writes, if there is one. -/
def Use.merge (u : Use) (a : PassAccess) (state : ImageState) : Use :=
  let merged := u.state.union state
  { u with
    usage := if a.isWrite then a.usage else u.usage
    isRead := u.isRead || !a.isWrite
    isWrite := u.isWrite || a.isWrite
    state := if a.isWrite then { merged with layout := state.layout } else merged }

namespace Pass

/-- The state that one access requires.  A write also reads if the pass reads the same resource for
the same usage. -/
def accessState (p : Pass) (kind : ResourceKind) (a : PassAccess) : ImageState :=
  let reads := !a.isWrite ||
    p.accesses.any fun other =>
      other.resource = a.resource && other.usage = a.usage && !other.isWrite
  a.usage.resolve p.kind kind reads a.isWrite

/-- The use that a pass makes of a resource. -/
def use? (p : Pass) (kind : ResourceKind) (h : Handle) (position index : Nat) : Option Use :=
  match p.accesses.filter fun a => a.resource = h with
  | [] => none
  | first :: rest =>
      some (rest.foldl (fun u a => u.merge a (p.accessState kind a))
        (.ofAccess position index first (p.accessState kind first)))

end Pass

/-- The uses of a resource along an execution order. -/
abbrev Timeline := List Use

/-- The timeline of a resource. -/
def timelineOf (order : List Nat) (passes : List Pass) (kind : ResourceKind) (h : Handle) :
    Timeline :=
  order.zipIdx.filterMap fun (pass, position) =>
    (passes[pass]?).bind fun p => p.use? kind h position pass

/-- The timelines of all resources that are used, in ascending order of slots. -/
abbrev UsageTable := HandleMap Timeline

/-- The timelines along an execution order. -/
def UsageTable.along (order : List Nat) (passes : List Pass) (registry : Registry) : UsageTable :=
  ⟨registry.toList.filterMap fun (h, resource) =>
    match timelineOf order passes resource.kind h with
    | [] => none
    | timeline => some (h, timeline)⟩

/-- The use of a resource at a position of the execution order. -/
def UsageTable.useAt? (table : UsageTable) (h : Handle) (position : Nat) : Option Use :=
  (table.get? h).bind fun timeline => timeline.find? fun u => u.position = position

/-! ## Lifetimes -/

/-- A lifetime that also covers a later position. -/
def Lifetime.extend (lifetime : Option Lifetime) (position : Nat) : Option Lifetime :=
  match lifetime with
  | none => some ⟨position, position⟩
  | some l => some { l with last := position }

/-- Extends the lifetime of a resource; a stale handle changes nothing. -/
def Registry.extendLifetime (r : Registry) (h : Handle) (position : Nat) : Registry :=
  match r.get? h with
  | none => r
  | some resource =>
      r.set h { resource with lifetime := Lifetime.extend resource.lifetime position }

/-- Extends the lifetimes of the resources of a pass. -/
def Registry.extendLifetimes (r : Registry) (p : Pass) (position : Nat) : Registry :=
  p.accesses.foldl (fun r a => r.extendLifetime a.resource position) r

/-- Gives every resource its lifetime along an execution order, in place of the one that it had. -/
def Registry.withLifetimes (registry : Registry) (order : List Nat) (passes : List Pass) :
    Registry :=
  order.zipIdx.foldl
    (fun r (pass, position) => r.extendLifetimes (passes.getD pass default) position)
    (registry.setLifetimes fun _ => none)

/-! ## Runs of reads -/

/-- The union of a state with the reads that directly follow in the same layout. -/
def mergedState (first : ImageState) (later : List Use) : ImageState :=
  (later.takeWhile fun u => !u.isWrite && u.state.layout = first.layout).foldl
    (fun state u => state.union u.state) first

/-- The union of the state at an index with the reads that directly follow. -/
def Timeline.mergedFrom? (timeline : Timeline) (index : Nat) : Option ImageState :=
  match timeline.drop index with
  | [] => none
  | u :: later => some (mergedState u.state later)

/-- The state in which a timeline leaves a resource.  A last read stands for the whole run of reads
at the end, since there may be no barrier between them. -/
def Timeline.lastAccess (timeline : Timeline) : Option ImageState :=
  match timeline.reverse with
  | [] => none
  | last :: earlier =>
      some (if last.isWrite then last.state else mergedState last.state earlier)

theorem foldl_union_contains (uses : List Use) (state : ImageState) :
    (uses.foldl (fun state u => state.union u.state) state).stage.contains state.stage = true ∧
      (uses.foldl (fun state u => state.union u.state) state).access.contains state.access =
        true := by
  induction uses generalizing state with
  | nil => exact ⟨Mask.contains_refl _, Mask.contains_refl _⟩
  | cons u rest ih =>
      have h := ih (state.union u.state)
      exact ⟨Mask.contains_trans h.1 (Mask.contains_or_left _ _),
        Mask.contains_trans h.2 (Mask.contains_or_left _ _)⟩

/-- Merging a run of reads only adds stages and accesses. -/
theorem mergedState_contains (first : ImageState) (later : List Use) :
    (mergedState first later).stage.contains first.stage = true ∧
      (mergedState first later).access.contains first.access = true :=
  foldl_union_contains _ first

end FrameGraph
