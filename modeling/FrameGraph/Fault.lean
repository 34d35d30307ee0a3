import FrameGraph.Total

/-!
# Faults of checked machine arithmetic

Sizes, counts and positions are natural numbers here, but they stand for 64-bit machine words
(and image extents for 32-bit ones).  An operation whose exact result does not fit stops with a
`Fault` instead of wrapping around, and so does an access past the end of a table.

Principal statements: `checkedAdd_eq_ok_iff`, `checkedMul_eq_ok_iff`, `checkedShift_eq_ok_iff`,
`checkIndices_eq_ok_iff` — each operation succeeds exactly when the exact result fits, and then
returns it.  `bind_eq_ok_iff` — a sequence succeeds exactly when both of its parts do.
-/

set_option autoImplicit false

namespace FrameGraph

/-- The reasons for which an operation stops without a result. -/
inductive Fault where
  | addOverflow
  | mulOverflow
  | shiftOverflow
  | indexOutOfBounds (length index : Nat)
  deriving DecidableEq, Repr

/-- The wording of a fault. -/
def Fault.message : Fault → String
  | .addOverflow => "attempt to add with overflow"
  | .mulOverflow => "attempt to multiply with overflow"
  | .shiftOverflow => "attempt to shift right with overflow"
  | .indexOutOfBounds length index =>
      s!"index out of bounds: the len is {length} but the index is {index}"

/-- One more than the largest 64-bit word. -/
def wordLimit : Nat := 0x10000000000000000

/-- The sum of two words, if it is a word. -/
def checkedAdd (a b : Nat) : Except Fault Nat :=
  if a + b < wordLimit then .ok (a + b) else .error .addOverflow

/-- The product of two words, if it is a word. -/
def checkedMul (a b : Nat) : Except Fault Nat :=
  if a * b < wordLimit then .ok (a * b) else .error .mulOverflow

/-- A 32-bit word shifted right; the distance must be smaller than the width of the word. -/
def checkedShift (word : UInt32) (distance : Nat) : Except Fault Nat :=
  if distance < 32 then .ok (word.toNat >>> distance) else .error .shiftOverflow

/-- The sum of a list of words, added from the left. -/
def checkedSum (words : List Nat) : Except Fault Nat :=
  words.foldlM checkedAdd 0

/-- Requires `index` to be a position of a table with `length` rows. -/
def checkIndex (length index : Nat) : Except Fault Unit :=
  if index < length then .ok () else .error (.indexOutOfBounds length index)

/-- Requires every index to be a position of the table; the first that is not is the fault. -/
def checkIndices (length : Nat) : List Nat → Except Fault Unit
  | [] => .ok ()
  | index :: rest => do
      checkIndex length index
      checkIndices length rest

/-! ## When a checked operation succeeds -/

/-- A sequence succeeds exactly when both of its parts do. -/
theorem bind_eq_ok_iff {α β : Type} {x : Except Fault α} {f : α → Except Fault β} {b : β} :
    (x >>= f) = .ok b ↔ ∃ a, x = .ok a ∧ f a = .ok b := by
  cases x with
  | error fault =>
      constructor
      · intro h; cases h
      · rintro ⟨_, h, _⟩; cases h
  | ok a =>
      constructor
      · intro h; exact ⟨a, rfl, h⟩
      · rintro ⟨_, h, hb⟩; cases h; exact hb

theorem checkedAdd_eq_ok_iff {a b c : Nat} :
    checkedAdd a b = .ok c ↔ a + b < wordLimit ∧ c = a + b := by
  unfold checkedAdd
  split
  · next h => simp [h, eq_comm]
  · next h => simp [h]

theorem checkedMul_eq_ok_iff {a b c : Nat} :
    checkedMul a b = .ok c ↔ a * b < wordLimit ∧ c = a * b := by
  unfold checkedMul
  split
  · next h => simp [h, eq_comm]
  · next h => simp [h]

theorem checkedShift_eq_ok_iff {word : UInt32} {distance c : Nat} :
    checkedShift word distance = .ok c ↔ distance < 32 ∧ c = word.toNat >>> distance := by
  unfold checkedShift
  split
  · next h => simp [h, eq_comm]
  · next h => simp [h]

theorem checkIndex_eq_ok_iff {length index : Nat} :
    checkIndex length index = .ok () ↔ index < length := by
  unfold checkIndex
  split <;> simp_all

theorem checkIndices_eq_ok_iff {length : Nat} {indices : List Nat} :
    checkIndices length indices = .ok () ↔ ∀ i ∈ indices, i < length := by
  induction indices with
  | nil => simp [checkIndices]
  | cons i rest ih =>
      rw [checkIndices, bind_eq_ok_iff, List.forall_mem_cons]
      constructor
      · rintro ⟨_, hi, hrest⟩
        exact ⟨checkIndex_eq_ok_iff.1 hi, ih.1 hrest⟩
      · rintro ⟨hi, hrest⟩
        exact ⟨(), checkIndex_eq_ok_iff.2 hi, ih.2 hrest⟩

end FrameGraph
