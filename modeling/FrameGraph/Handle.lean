/-!
# Handles and tables keyed by handles

A handle names one slot of a slot table at one of its generations, so that a handle outlives what it
named without ever naming anything else.  `Handle.null` names nothing.

A `HandleMap` is a table from handles to values, kept in ascending order of slots: that order is
the order in which resources are visited everywhere.  Its view is `get?`; principal statements:
`get?_insert_self` and `get?_insert_of_ne`.
-/

set_option autoImplicit false

namespace FrameGraph

/-- The null handle, or a slot at one of its generations. -/
inductive Handle where
  | null
  | slot (index generation : Nat)
  deriving DecidableEq, Repr, Inhabited

namespace Handle

/-- A handle as `3v1`: slots count from one, and a slot that is filled for the `n`-th time has
version `2 n - 1`.  The null handle has no text of its own. -/
def label? : Handle → Option String
  | .null => none
  | .slot index generation => some s!"{index + 1}v{2 * generation + 1}"

/-- A handle as it appears in diagnostics. -/
def text (h : Handle) : String := h.label?.getD "null"

/-- Handles in ascending order of slots; the null handle comes first. -/
def precedes : Handle → Handle → Bool
  | .null, .null => false
  | .null, .slot _ _ => true
  | .slot _ _, .null => false
  | .slot i _, .slot j _ => i < j

end Handle

/-- A table from handles to values, in ascending order of slots. -/
structure HandleMap (α : Type) where
  entries : List (Handle × α) := []
  deriving Repr

namespace HandleMap

variable {α : Type}

/-- The table without entries. -/
def empty : HandleMap α := {}

instance : Inhabited (HandleMap α) := ⟨empty⟩

def lookupEntry (h : Handle) : List (Handle × α) → Option α
  | [] => none
  | (k, v) :: rest => if k = h then some v else lookupEntry h rest

def insertEntry (h : Handle) (a : α) : List (Handle × α) → List (Handle × α)
  | [] => [(h, a)]
  | (k, v) :: rest =>
      if k = h then (h, a) :: rest
      else if h.precedes k then (h, a) :: (k, v) :: rest
      else (k, v) :: insertEntry h a rest

/-- The value of a handle. -/
def get? (m : HandleMap α) (h : Handle) : Option α := lookupEntry h m.entries

/-- Holds if the handle has a value. -/
def contains (m : HandleMap α) (h : Handle) : Bool := (m.get? h).isSome

/-- Gives the handle a value, in place of the one it had. -/
def insert (m : HandleMap α) (h : Handle) (a : α) : HandleMap α := ⟨insertEntry h a m.entries⟩

/-- Forgets the handle. -/
def erase (m : HandleMap α) (h : Handle) : HandleMap α :=
  ⟨m.entries.filter fun entry => entry.1 ≠ h⟩

theorem lookupEntry_insertEntry (h : Handle) (a : α) (k : Handle) :
    ∀ entries : List (Handle × α),
      lookupEntry k (insertEntry h a entries) =
        if h = k then some a else lookupEntry k entries
  | [] => by simp [insertEntry, lookupEntry]
  | (j, v) :: rest => by
      have ih := lookupEntry_insertEntry h a k rest
      unfold insertEntry
      split
      · next hj => subst hj; simp only [lookupEntry]; split <;> rfl
      · next hj =>
          split
          · simp [lookupEntry]
          · simp only [lookupEntry, ih]
            by_cases hk : h = k
            · subst hk; simp [hj]
            · simp [hk]

@[simp] theorem get?_insert_self (m : HandleMap α) (h : Handle) (a : α) :
    (m.insert h a).get? h = some a := by
  simp [get?, insert, lookupEntry_insertEntry]

theorem get?_insert_of_ne (m : HandleMap α) {h k : Handle} (a : α) (hk : h ≠ k) :
    (m.insert h a).get? k = m.get? k := by
  simp [get?, insert, lookupEntry_insertEntry, hk]

theorem get?_erase (m : HandleMap α) (h k : Handle) :
    (m.erase h).get? k = if h = k then none else m.get? k := by
  obtain ⟨entries⟩ := m
  show lookupEntry k (entries.filter fun entry => entry.1 ≠ h) = _
  induction entries with
  | nil => simp [lookupEntry, get?]
  | cons entry rest ih =>
      obtain ⟨j, v⟩ := entry
      by_cases hj : j = h
      · subst hj
        simp only [ne_eq, not_true_eq_false, decide_false, Bool.false_eq_true,
          not_false_eq_true, List.filter_cons_of_neg]
        rw [ih]
        by_cases hk : j = k <;> simp [get?, lookupEntry, hk]
      · simp only [ne_eq, hj, not_false_eq_true, decide_true, List.filter_cons_of_pos,
          lookupEntry]
        rw [ih]
        by_cases hk : h = k
        · subst hk; simp [hj]
        · simp [get?, lookupEntry, hk]

end HandleMap

end FrameGraph
