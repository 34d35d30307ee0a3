import FrameGraph.Handle

/-!
# Slot tables

A slot table stores values under handles that it hands out itself.  Removing a value moves its slot
to the next generation and puts the slot on top of a stack of vacant ones; inserting a value takes
the top of that stack, or else opens a new slot.  Values are visited in ascending order of slots.

Principal statements: `SlotTable.get?_insert` — a fresh handle reads back what was inserted —
`SlotTable.get?_clear` — after `clear` every handle reads nothing — and `SlotTable.mem_toList` — the
list of values holds exactly what the handles name.
-/

set_option autoImplicit false

namespace FrameGraph

/-- A slot at its current generation, vacant or filled. -/
structure Slot (α : Type) where
  generation : Nat
  content : Option α
  deriving Repr

/-- The slot after its value was removed; a vacant slot stays as it is. -/
def Slot.vacated {α : Type} (slot : Slot α) : Slot α :=
  match slot.content with
  | none => slot
  | some _ => ⟨slot.generation + 1, none⟩

/-- The slots in ascending order, and the stack of vacant ones. -/
structure SlotTable (α : Type) where
  slots : List (Slot α) := []
  vacant : List Nat := []
  deriving Repr

namespace SlotTable

variable {α : Type}

/-- The slot table without slots. -/
def empty : SlotTable α := {}

instance : Inhabited (SlotTable α) := ⟨empty⟩

/-- The value that a handle names, unless it is stale or null. -/
def get? (m : SlotTable α) : Handle → Option α
  | .null => none
  | .slot index generation =>
      match m.slots[index]? with
      | none => none
      | some slot => if slot.generation = generation then slot.content else none

/-- Holds if the handle names a value. -/
def contains (m : SlotTable α) (h : Handle) : Bool := (m.get? h).isSome

/-- Opens a slot for a value. -/
def push (m : SlotTable α) (a : α) : Handle × SlotTable α :=
  (.slot m.slots.length 0, { m with slots := m.slots ++ [⟨0, some a⟩] })

/-- Stores a value in the slot vacated last, or in a new one. -/
def insert (m : SlotTable α) (a : α) : Handle × SlotTable α :=
  match m.vacant with
  | [] => m.push a
  | index :: rest =>
      match m.slots[index]? with
      | none => m.push a
      | some slot =>
          (.slot index slot.generation,
            { slots := m.slots.set index ⟨slot.generation, some a⟩, vacant := rest })

/-- Replaces the value that a handle names; a stale handle changes nothing. -/
def set (m : SlotTable α) (h : Handle) (a : α) : SlotTable α :=
  match h, m.get? h with
  | .slot index generation, some _ =>
      { m with slots := m.slots.set index ⟨generation, some a⟩ }
  | _, _ => m

/-- Removes the value that a handle names; a stale handle changes nothing. -/
def remove (m : SlotTable α) (h : Handle) : SlotTable α :=
  match h, m.get? h with
  | .slot index generation, some _ =>
      { slots := m.slots.set index ⟨generation + 1, none⟩, vacant := index :: m.vacant }
  | _, _ => m

def entriesFrom : Nat → List (Slot α) → List (Handle × α)
  | _, [] => []
  | index, slot :: rest =>
      match slot.content with
      | none => entriesFrom (index + 1) rest
      | some a => (.slot index slot.generation, a) :: entriesFrom (index + 1) rest

/-- The values with their handles, in ascending order of slots. -/
def toList (m : SlotTable α) : List (Handle × α) := entriesFrom 0 m.slots

/-- The number of values. -/
def size (m : SlotTable α) : Nat := m.toList.length

def filledFrom : Nat → List (Slot α) → List Nat
  | _, [] => []
  | index, slot :: rest =>
      match slot.content with
      | none => filledFrom (index + 1) rest
      | some _ => index :: filledFrom (index + 1) rest

/-- Removes every value, slot by slot in ascending order, so that the last slot is filled first
afterwards. -/
def clear (m : SlotTable α) : SlotTable α where
  slots := m.slots.map Slot.vacated
  vacant := (filledFrom 0 m.slots).reverse ++ m.vacant

/-- Applies `f` to every value, which keeps its handle. -/
def mapValues (f : Handle → α → α) (m : SlotTable α) : SlotTable α :=
  { m with
    slots := m.slots.mapIdx fun index slot =>
      { slot with content := slot.content.map (f (.slot index slot.generation)) } }

/-! ## Reading back -/

@[simp] theorem get?_null (m : SlotTable α) : m.get? .null = none := rfl

@[simp] theorem get?_empty (h : Handle) : (empty : SlotTable α).get? h = none := by
  cases h <;> rfl

/-- The handle of an inserted value names it. -/
@[simp] theorem get?_insert (m : SlotTable α) (a : α) :
    (m.insert a).2.get? (m.insert a).1 = some a := by
  have hpush : (m.push a).2.get? (m.push a).1 = some a := by simp [push, get?]
  unfold insert
  split
  · exact hpush
  · split
    · exact hpush
    · next index rest _ _ slot hslot =>
        have hlt : index < m.slots.length := (List.getElem?_eq_some_iff.1 hslot).1
        simp [get?, hlt]

/-- After `clear` no handle names anything. -/
@[simp] theorem get?_clear (m : SlotTable α) (h : Handle) : m.clear.get? h = none := by
  cases h with
  | null => rfl
  | slot index generation =>
      simp only [get?, clear, List.getElem?_map]
      cases m.slots[index]? with
      | none => rfl
      | some slot =>
          obtain ⟨g, content⟩ := slot
          cases content <;> simp [Slot.vacated]

theorem get?_mapValues (f : Handle → α → α) (m : SlotTable α) (h : Handle) :
    (m.mapValues f).get? h = (m.get? h).map (f h) := by
  cases h with
  | null => rfl
  | slot index generation =>
      simp only [get?, mapValues, List.getElem?_mapIdx]
      cases m.slots[index]? with
      | none => rfl
      | some slot =>
          simp only [Option.map_some]
          split
          · next hg => subst hg; rfl
          · rfl

theorem mem_entriesFrom {h : Handle} {a : α} {start : Nat} {slots : List (Slot α)} :
    (h, a) ∈ entriesFrom start slots ↔
      ∃ i generation, h = .slot (start + i) generation ∧
        slots[i]? = some ⟨generation, some a⟩ := by
  induction slots generalizing start with
  | nil => simp [entriesFrom]
  | cons slot rest ih =>
      obtain ⟨g, content⟩ := slot
      have tail : (h, a) ∈ entriesFrom (start + 1) rest ↔
          ∃ i generation, h = .slot (start + (i + 1)) generation ∧
            (⟨g, content⟩ :: rest)[i + 1]? = some ⟨generation, some a⟩ := by
        rw [ih]
        simp only [List.getElem?_cons_succ, Nat.add_assoc, Nat.add_comm 1]
      cases content with
      | none =>
          simp only [entriesFrom]
          rw [tail]
          constructor
          · rintro ⟨i, g', hh, hi⟩
            exact ⟨i + 1, g', hh, hi⟩
          · rintro ⟨i, g', hh, hi⟩
            cases i with
            | zero => simp at hi
            | succ i => exact ⟨i, g', hh, hi⟩
      | some b =>
          simp only [entriesFrom, List.mem_cons, Prod.mk.injEq]
          rw [tail]
          constructor
          · rintro (⟨hh, ha⟩ | ⟨i, g', hh, hi⟩)
            · exact ⟨0, g, by simpa using hh, by simp [ha]⟩
            · exact ⟨i + 1, g', hh, hi⟩
          · rintro ⟨i, g', hh, hi⟩
            cases i with
            | zero =>
                simp only [List.getElem?_cons_zero, Option.some.injEq, Slot.mk.injEq] at hi
                exact Or.inl ⟨by simpa [hi.1] using hh, hi.2.symm⟩
            | succ i => exact Or.inr ⟨i, g', hh, hi⟩

/-- The list of values holds exactly what the handles name. -/
theorem mem_toList {m : SlotTable α} {h : Handle} {a : α} :
    (h, a) ∈ m.toList ↔ m.get? h = some a := by
  rw [toList, mem_entriesFrom]
  cases h with
  | null => simp
  | slot index generation =>
      simp only [Nat.zero_add, Handle.slot.injEq, get?]
      constructor
      · rintro ⟨i, g, ⟨rfl, rfl⟩, hi⟩
        simp [hi]
      · intro hget
        cases hs : m.slots[index]? with
        | none => simp [hs] at hget
        | some slot =>
            obtain ⟨g, content⟩ := slot
            simp only [hs] at hget
            split at hget
            · next hg => exact ⟨index, generation, ⟨rfl, rfl⟩, by simp_all⟩
            · cases hget

end SlotTable

end FrameGraph
