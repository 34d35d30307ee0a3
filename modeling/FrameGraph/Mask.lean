/-!
# Masks: sets of bit flags

A pipeline stage, an access, an image aspect, a usage and a memory type are each one bit of a
mask.  Masks of different families have different types, so a stage never meets an access.

The view of a mask is `Mask.has m i`, the presence of bit `i`.  Principal statements: `has_or`,
`has_and`, `contains_iff`, `intersects_iff` and `ext_has` reduce every operation to that view.
-/

set_option autoImplicit false

namespace FrameGraph

/-- The families of flags. -/
inductive FlagFamily where
  | stage
  | access
  | aspect
  | imageUsage
  | bufferUsage
  | memoryType
  deriving DecidableEq, Repr

/-- A set of flags of one family, one bit each. -/
structure Mask (family : FlagFamily) where
  bits : BitVec 64
  deriving DecidableEq, Repr

abbrev StageMask := Mask .stage
abbrev AccessMask := Mask .access
abbrev AspectMask := Mask .aspect
abbrev ImageUsageMask := Mask .imageUsage
abbrev BufferUsageMask := Mask .bufferUsage
abbrev MemoryTypeMask := Mask .memoryType

namespace Mask

variable {family : FlagFamily}

/-- The mask with the given bit pattern. -/
def ofNat (pattern : Nat) : Mask family := ⟨BitVec.ofNat 64 pattern⟩

/-- The mask with one bit. -/
def bit (i : Nat) : Mask family := ⟨BitVec.twoPow 64 i⟩

/-- The bit pattern as a number. -/
def toNat (m : Mask family) : Nat := m.bits.toNat

/-- The empty mask. -/
def none : Mask family := ofNat 0

instance : Inhabited (Mask family) := ⟨none⟩

instance : OrOp (Mask family) := ⟨fun a b => ⟨a.bits ||| b.bits⟩⟩

instance : AndOp (Mask family) := ⟨fun a b => ⟨a.bits &&& b.bits⟩⟩

/-- Holds if no bit is set. -/
def isEmpty (m : Mask family) : Bool := m == none

/-- Holds if every bit of `b` is set in `a`. -/
def contains (a b : Mask family) : Bool := a &&& b == b

/-- Holds if some bit is set in both masks. -/
def intersects (a b : Mask family) : Bool := !(a &&& b).isEmpty

/-- The bits of `a` that are not in `b`. -/
def without (a b : Mask family) : Mask family := ⟨a.bits &&& ~~~b.bits⟩

/-! ## The bits of a mask -/

/-- Presence of bit `i`. -/
def has (m : Mask family) (i : Nat) : Bool := m.bits.getLsbD i

theorem ext_has {a b : Mask family} (h : ∀ i, a.has i = b.has i) : a = b := by
  obtain ⟨a⟩ := a
  obtain ⟨b⟩ := b
  exact congrArg Mask.mk (BitVec.eq_of_getLsbD_eq fun i _ => h i)

@[simp] theorem has_or (a b : Mask family) (i : Nat) : (a ||| b).has i = (a.has i || b.has i) :=
  BitVec.getLsbD_or

@[simp] theorem has_and (a b : Mask family) (i : Nat) : (a &&& b).has i = (a.has i && b.has i) :=
  BitVec.getLsbD_and

@[simp] theorem has_none (i : Nat) : (none : Mask family).has i = false := by
  simp [has, none, ofNat]

theorem isEmpty_iff {m : Mask family} : m.isEmpty = true ↔ ∀ i, m.has i = false := by
  simp only [isEmpty, beq_iff_eq]
  exact ⟨fun h i => by rw [h, has_none], fun h => ext_has fun i => by rw [h i, has_none]⟩

theorem contains_iff {a b : Mask family} :
    a.contains b = true ↔ ∀ i, b.has i = true → a.has i = true := by
  simp only [contains, beq_iff_eq]
  constructor
  · intro h i hi
    have hi' : (a &&& b).has i = true := by rw [h]; exact hi
    simp only [has_and, Bool.and_eq_true] at hi'
    exact hi'.1
  · intro h
    refine ext_has fun i => ?_
    rw [has_and]
    cases hb : b.has i with
    | false => simp
    | true => simp [h i hb]

theorem intersects_iff {a b : Mask family} :
    a.intersects b = true ↔ ∃ i, a.has i = true ∧ b.has i = true := by
  simp only [intersects, Bool.not_eq_true', ← Bool.not_eq_true, isEmpty_iff, has_and]
  simp

theorem contains_refl (a : Mask family) : a.contains a = true :=
  contains_iff.2 fun _ h => h

theorem contains_trans {a b c : Mask family} (hab : a.contains b = true)
    (hbc : b.contains c = true) : a.contains c = true :=
  contains_iff.2 fun i h => contains_iff.1 hab i (contains_iff.1 hbc i h)

theorem contains_or_left (a b : Mask family) : (a ||| b).contains a = true :=
  contains_iff.2 fun i h => by simp [h]

theorem contains_or_right (a b : Mask family) : (a ||| b).contains b = true :=
  contains_iff.2 fun i h => by simp [h]

end Mask

/-- Names for the bits of a mask in the order of `table`: each entry whose bits are all still
present is named and removed, and what is left over is written in binary. -/
def Mask.describe {family : FlagFamily} (table : List (Mask family × String))
    (m : Mask family) : String :=
  let (rest, names) := table.foldl
    (fun (left, names) (flag, name) =>
      if !flag.isEmpty && left.contains flag then (left.without flag, names ++ [name])
      else (left, names))
    (m, [])
  let tail := if rest.isEmpty then [] else [String.ofList (Nat.toDigits 2 rest.toNat)]
  " | ".intercalate (names ++ tail)

end FrameGraph
