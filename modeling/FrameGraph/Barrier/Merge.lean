import FrameGraph.Barrier.Basic
import FrameGraph.Fault
import FrameGraph.Total

/-!
# Merging barriers

Redundant barriers are merged until nothing changes any more.

* A barrier after a pass that ends where a barrier before the next pass begins is folded into it.
* Of equal barriers in one list, one is kept.
* Barriers of one list that follow each other on one resource become one.
* A barrier that neither changes the state nor separates a write from another access is dropped.

Image barriers and buffer barriers are merged by the same rules: `Mergeable` says what the rules
look at.

Principal statements: `length_absorbAll_le` and `length_foldInto` — merging never adds a
barrier, and each fold removes one — so the rounds come to an end.
-/

set_option autoImplicit false

namespace FrameGraph

/-- What merging needs to know about a kind of barriers with states of type `σ`. -/
class Mergeable (β : Type) (σ : outParam Type) where
  resource : β → Handle
  source : β → σ
  target : β → σ
  withSource : β → σ → β
  withTarget : β → σ → β
  /-- Holds if the barrier depends on what is only known when the frame is recorded. -/
  isPinned : β → Bool
  /-- Holds if the barrier has an effect of its own. -/
  hasEffect : β → Bool

instance : Mergeable ImageBarrier ImageState where
  resource := ImageBarrier.resource
  source := ImageBarrier.source
  target := ImageBarrier.target
  withSource b source := { b with source }
  withTarget b target := { b with target }
  isPinned := ImageBarrier.isPinned
  hasEffect := ImageBarrier.isNeeded

instance : Mergeable BufferBarrier BufferState where
  resource := BufferBarrier.resource
  source := BufferBarrier.source
  target := BufferBarrier.target
  withSource b source := { b with source }
  withTarget b target := { b with target }
  isPinned := BufferBarrier.takesOver
  hasEffect b := b.isNeeded || b.source.stage ≠ b.target.stage

/-- Replaces the first element that satisfies `p`; answers nothing if there is none. -/
def replaceFirst? {α : Type} (p : α → Bool) (f : α → α) : List α → Option (List α)
  | [] => none
  | a :: rest =>
      if p a then some (f a :: rest) else (replaceFirst? p f rest).map (a :: ·)

theorem length_replaceFirst? {α : Type} {p : α → Bool} {f : α → α} {l l' : List α}
    (h : replaceFirst? p f l = some l') : l'.length = l.length := by
  induction l generalizing l' with
  | nil => cases h
  | cons a rest ih =>
      unfold replaceFirst? at h
      split at h
      · cases h; rfl
      · obtain ⟨rest', hrest, rfl⟩ := Option.map_eq_some_iff.1 h
        simp [ih hrest]

section Merging

variable {β σ : Type} [DecidableEq β] [DecidableEq σ] [Mergeable β σ]

open Mergeable

/-- Adds a barrier to a list: not at all if it is there, by extending the barrier that it follows
on the same resource, or else at the end. -/
def absorb (kept : List β) (b : β) : List β :=
  if b ∈ kept then kept
  else
    match replaceFirst? (fun k => resource k = resource b && target k = source b)
        (fun k => withTarget k (target b)) kept with
    | some extended => extended
    | none => kept ++ [b]

/-- Adds barriers one by one. -/
def absorbAll (barriers : List β) : List β := barriers.foldl absorb []

/-- Merges the barriers of one list and drops those without effect. -/
def condense (barriers : List β) : List β :=
  (absorbAll barriers).filter fun b => isPinned b || hasEffect b

theorem length_absorb_le (kept : List β) (b : β) :
    (absorb kept b).length ≤ kept.length + 1 := by
  unfold absorb
  split
  · omega
  · split
    · next h => rw [length_replaceFirst? h]; omega
    · simp

theorem length_foldl_absorb_le (barriers kept : List β) :
    (barriers.foldl absorb kept).length ≤ kept.length + barriers.length := by
  induction barriers generalizing kept with
  | nil => simp
  | cons b rest ih =>
      have h := length_absorb_le kept b
      have hr := ih (absorb kept b)
      simp only [List.foldl_cons, List.length_cons]
      omega

/-- Merging never adds a barrier. -/
theorem length_absorbAll_le (barriers : List β) :
    (absorbAll barriers).length ≤ barriers.length := by
  simpa [absorbAll] using length_foldl_absorb_le barriers []

end Merging

section Folding

variable {β σ : Type} [DecidableEq σ] [Mergeable β σ]

open Mergeable

/-- Folds barriers after a pass into the barriers before the next one.  Answers the barriers that
remain after the pass and the new barriers before the next. -/
def foldInto : List β → List β → List β × List β
  | [], entries => ([], entries)
  | flush :: rest, entries =>
      match replaceFirst?
          (fun b => resource b = resource flush && source b = target flush && !isPinned b)
          (fun b => withSource b (source flush)) entries with
      | some folded => foldInto rest folded
      | none =>
          let (remaining, entries) := foldInto rest entries
          (flush :: remaining, entries)

/-- Folding keeps the barriers before the next pass in number. -/
theorem length_foldInto (flushes entries : List β) :
    (foldInto flushes entries).2.length = entries.length ∧
      (foldInto flushes entries).1.length ≤ flushes.length := by
  induction flushes generalizing entries with
  | nil => simp [foldInto]
  | cons flush rest ih =>
      unfold foldInto
      split
      · next folded h =>
          have := ih folded
          rw [length_replaceFirst? h] at this
          simp only [List.length_cons]
          omega
      · have := ih entries
        simp only [List.length_cons]
        omega

end Folding

/-! ## All passes -/

/-- Merges the barriers at one point of a frame. -/
def Barriers.merge (b : Barriers) : Barriers := ⟨condense b.images, condense b.buffers⟩

/-- Merges the barriers before and after a pass. -/
def AroundPass.merge (b : AroundPass) : AroundPass := ⟨b.before.merge, b.after.merge⟩

/-- Folds the barriers after one pass into those before another. -/
def foldBetween (all : List AroundPass) (current next : Nat) : List AroundPass :=
  let after := (all.getD current default).after
  let before := (all.getD next default).before
  let images := foldInto after.images before.images
  let buffers := foldInto after.buffers before.buffers
  (all.modify next fun b => { b with before := ⟨images.2, buffers.2⟩ }).modify current fun b =>
    { b with after := ⟨images.1, buffers.1⟩ }

/-- Folds the barriers between each two neighbours of the execution order. -/
def foldAlong (all : List AroundPass) : List Nat → List AroundPass
  | current :: next :: rest => foldAlong (foldBetween all current next) (next :: rest)
  | _ => all

/-- Folds and merges once along the execution order. -/
def mergeRound (order : List Nat) (all : List AroundPass) : List AroundPass :=
  order.foldl (fun all pass => all.modify pass AroundPass.merge) (foldAlong all order)

/-- The number of barriers around all passes. -/
def totalCount (all : List AroundPass) : Nat := totalOf (all.map AroundPass.count)

/-- Merges barriers in rounds until none is saved any more. -/
def mergeAlong (order : List Nat) (all : List AroundPass) : List AroundPass :=
  if totalCount (mergeRound order all) < totalCount all then
    mergeAlong order (mergeRound order all)
  else mergeRound order all
termination_by totalCount all

/-- Merges barriers along an order that may lie outside the list of passes, which is a fault. -/
def mergeAlong? (order : List Nat) (all : List AroundPass) :
    Except Fault (List AroundPass) := do
  checkIndices all.length order
  return mergeAlong order all

end FrameGraph
