import FrameGraph.Timeline

/-!
# Synchronising one resource

What is known about a resource between two of its uses: the layout it is in, the last write, and
the stages that have read it since.  A write carries along to which stages and accesses it was made
visible, so that a further read of the same kind need not wait again.

Principal statements: `needs_write` and `needs_read` — when a use needs a barrier — and
`source_layout`: a barrier leads away from the layout that the resource is in.
-/

set_option autoImplicit false

namespace FrameGraph

/-- A write, and where it was made visible. -/
structure PendingWrite where
  stage : StageMask
  access : AccessMask
  shownAt : StageMask := Stage.none
  shownTo : AccessMask := Access.none
  deriving DecidableEq, Repr

namespace PendingWrite

/-- A write in a given state, which nobody has waited for. -/
def ofState (state : ImageState) : PendingWrite where
  stage := state.stage
  access := state.srcAccess

/-- Makes the write visible to a state. -/
def reveal (w : PendingWrite) (state : ImageState) : PendingWrite :=
  { w with shownAt := w.shownAt ||| state.stage, shownTo := w.shownTo ||| state.access }

/-- Holds if the write was made visible to a state. -/
def isShownTo (w : PendingWrite) (state : ImageState) : Bool :=
  w.shownAt.contains state.stage && w.shownTo.contains state.access

end PendingWrite

/-- A step from one state to another. -/
structure Transition where
  source : ImageState
  target : ImageState
  deriving DecidableEq, Repr

/-- What is known about a resource between two uses. -/
structure SyncState where
  layout : Layout
  write : Option PendingWrite
  readers : StageMask
  /-- The stages to wait for if there is neither a write nor a read to wait for. -/
  idle : StageMask
  deriving DecidableEq, Repr

namespace SyncState

/-- A resource that arrives in a given state. -/
def arriving (state : ImageState) : SyncState where
  layout := state.layout
  write := if state.isWrite then some (.ofState state) else none
  readers := if !state.isWrite && state.access ≠ Access.none then state.stage else Stage.none
  idle := state.stage

/-- The state that the next barrier leads away from. -/
def source (s : SyncState) : ImageState :=
  let (stage, access) :=
    match s.write with
    | none => (s.readers, Access.none)
    | some w => (s.readers ||| w.stage, w.access)
  ⟨if stage.isEmpty then s.idle else stage, access, s.layout⟩

/-- Holds if a write has to wait for an earlier access. -/
def isBusy (s : SyncState) : Bool := s.write.isSome || !s.readers.isEmpty

/-- Holds if everything written so far is visible to a state. -/
def isSettledFor (s : SyncState) (state : ImageState) : Bool :=
  s.write.all fun w => w.isShownTo state

/-- Holds if a use has to be preceded by a barrier. -/
def needs (s : SyncState) (u : Use) : Bool :=
  u.state.layout ≠ s.layout || if u.isWrite then s.isBusy else !s.isSettledFor u.state

/-- The state that a barrier before a use leads to.  A read stands for the whole run of reads that
it begins. -/
def target (u : Use) (later : List Use) : ImageState :=
  if u.isWrite then u.state else mergedState u.state later

/-- The barrier before a use. -/
def transition (s : SyncState) (u : Use) (later : List Use) : Transition :=
  ⟨s.source, target u later⟩

/-- What is known after a use, which was preceded by a barrier if it needed one.  A barrier that
changes the layout has waited for the reads before it. -/
def after (s : SyncState) (u : Use) (later : List Use) : SyncState :=
  if u.isWrite then
    { s with
      layout := u.state.layout
      write := some (.ofState u.state)
      readers := Stage.none }
  else
    { s with
      layout := u.state.layout
      write := if s.needs u then s.write.map (·.reveal (target u later)) else s.write
      readers := if u.state.layout ≠ s.layout then u.state.stage else s.readers ||| u.state.stage }

/-- The barrier after the last use, into the state in which the resource is handed back. -/
def handBack? (s : SyncState) (final : ImageState) : Option Transition :=
  let mustWait :=
    if final.isWrite then s.isBusy
    else final.access ≠ Access.none && !s.isSettledFor final
  if final.layout ≠ s.layout || mustWait then some ⟨s.source, final⟩ else none

/-! ## Barriers -/

theorem needs_write {u : Use} (h : u.isWrite = true) (s : SyncState) :
    s.needs u = true ↔ u.state.layout ≠ s.layout ∨ s.isBusy = true := by
  simp [needs, h]

theorem needs_read {u : Use} (h : u.isWrite = false) (s : SyncState) :
    s.needs u = true ↔ u.state.layout ≠ s.layout ∨ s.isSettledFor u.state = false := by
  simp [needs, h]

/-- A barrier leads away from the layout that the resource is in. -/
@[simp] theorem source_layout (s : SyncState) : s.source.layout = s.layout := by
  simp [source]

@[simp] theorem arriving_layout (state : ImageState) : (arriving state).layout = state.layout := rfl

/-- After a use the resource is in the layout of that use. -/
@[simp] theorem after_layout (s : SyncState) (u : Use) (later : List Use) :
    (s.after u later).layout = u.state.layout := by
  unfold after
  split <;> rfl

end SyncState

end FrameGraph
