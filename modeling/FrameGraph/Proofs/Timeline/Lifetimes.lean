import FrameGraph.Proofs.Declarations
import FrameGraph.Timeline

/-!
# Giving lifetimes

Lifetimes are given by extending them access by access.  Since all of them are taken away first, what a
resource ends up with is a function of the order and the passes: `lifetimeOf`.

Principal statement: `Registry.withLifetimes_eq`.
-/

set_option autoImplicit false

namespace FrameGraph

/-- The first and the last position at which a resource is accessed. -/
def lifetimeOf (order : List Nat) (passes : List Pass) (h : Handle) : Option Lifetime :=
  order.zipIdx.foldl
    (fun lifetime (pass, position) =>
      if (passes[pass]?).any fun p => p.involves h then Lifetime.extend lifetime position
      else lifetime)
    none

/-! ## Changing all values of a table -/

namespace SlotTable

variable {α : Type} {m : SlotTable α}

theorem mapValues_mapValues (m : SlotTable α) (f g : Handle → α → α) :
    (m.mapValues f).mapValues g = m.mapValues fun h a => g h (f h a) := by
  simp [mapValues, Function.comp_def]

/-- Only what is done to the values that are there matters. -/
theorem mapValues_congr {f g : Handle → α → α} (h : ∀ k a, m.get? k = some a → f k a = g k a) :
    m.mapValues f = m.mapValues g := by
  obtain ⟨slots, vacant⟩ := m
  simp only [mapValues, SlotTable.mk.injEq, and_true]
  refine List.ext_getElem (by simp) fun i hi _ => ?_
  rw [List.length_mapIdx] at hi
  rw [List.getElem_mapIdx, List.getElem_mapIdx]
  cases hslot : slots[i] with
  | mk generation content =>
      cases content with
      | none => rfl
      | some a =>
          have hget : (⟨slots, vacant⟩ : SlotTable α).get? (.slot i generation) = some a := by
            simp [get?, List.getElem?_eq_getElem hi, hslot]
          rw [Option.map_some, Option.map_some, h _ a hget]

theorem mapValues_eq_self {f : Handle → α → α} (h : ∀ k a, m.get? k = some a → f k a = a) :
    m.mapValues f = m := by
  rw [mapValues_congr h]
  simp [mapValues, List.mapIdx_eq_zipIdx_map]

/-- Replacing one value afterwards. -/
theorem set_mapValues {h : Handle} {a : α} (hget : m.get? h = some a) (f : Handle → α → α) (b : α) :
    (m.mapValues f).set h b = m.mapValues fun k x => if k = h then b else f k x := by
  cases h with
  | null => cases hget
  | slot index generation =>
      have hset : (m.mapValues f).set (.slot index generation) b =
          { m.mapValues f with slots := (m.mapValues f).slots.set index ⟨generation, some b⟩ } := by
        have hmap := get?_mapValues f m (.slot index generation)
        rw [hget, Option.map_some] at hmap
        simp only [set, hmap]
      rw [hset]
      refine congrArg (SlotTable.mk · m.vacant) (List.ext_getElem? fun i => ?_)
      rw [get?_slot_eq_some_iff] at hget
      simp only [mapValues, List.getElem?_set, List.getElem?_mapIdx, List.length_mapIdx]
      by_cases hi : index = i
      · subst hi
        obtain ⟨hlt, -⟩ := List.getElem?_eq_some_iff.1 hget
        rw [if_pos rfl, if_pos hlt, hget]
        simp
      · rw [if_neg hi]
        have hne : ∀ g, Handle.slot i g ≠ .slot index generation := fun g heq => hi (by
          injection heq with hindex
          exact hindex.symm)
        simp only [hne, if_false]

end SlotTable

/-! ## Lifetimes -/

/-- Extending twice to one position is extending once. -/
theorem Lifetime.extend_extend (lifetime : Option Lifetime) (position : Nat) :
    extend (extend lifetime position) position = extend lifetime position := by
  cases lifetime <;> rfl

namespace Registry

variable {r : Registry} {lifetimes : Handle → Option Lifetime}

theorem extendLifetime_setLifetimes (r : Registry) (lifetimes : Handle → Option Lifetime)
    (h : Handle) (position : Nat) :
    (r.setLifetimes lifetimes).extendLifetime h position =
      r.setLifetimes fun k => if k = h then Lifetime.extend (lifetimes k) position else lifetimes k := by
  have hmap : (r.setLifetimes lifetimes).get? h =
      (r.get? h).map fun resource => { resource with lifetime := lifetimes h } :=
    SlotTable.get?_mapValues _ r.table h
  unfold extendLifetime
  rw [hmap]
  cases hget : r.get? h with
  | none =>
      refine congrArg (Registry.mk · r.names) (SlotTable.mapValues_congr fun k resource hk => ?_)
      have hne : k ≠ h := by
        rintro rfl
        cases hget.symm.trans hk
      dsimp only
      rw [if_neg hne]
  | some resource =>
      refine congrArg (Registry.mk · r.names) ((SlotTable.set_mapValues hget _ _).trans
        (SlotTable.mapValues_congr fun k found hk => ?_))
      dsimp only
      split
      · next heq =>
          subst heq
          cases hget.symm.trans hk
          rfl
      · rfl

theorem extendLifetimes_setLifetimes (r : Registry) (lifetimes : Handle → Option Lifetime)
    (p : Pass) (position : Nat) :
    (r.setLifetimes lifetimes).extendLifetimes p position =
      r.setLifetimes fun k =>
        if p.involves k then Lifetime.extend (lifetimes k) position else lifetimes k := by
  have hfold : ∀ (accesses : List PassAccess) (lifetimes : Handle → Option Lifetime),
      accesses.foldl (fun r a => r.extendLifetime a.resource position) (r.setLifetimes lifetimes) =
        r.setLifetimes fun k =>
          if accesses.any fun a => a.resource = k then Lifetime.extend (lifetimes k) position
          else lifetimes k := by
    intro accesses
    induction accesses with
    | nil => exact fun _ => rfl
    | cons a rest ih =>
        intro lifetimes
        rw [List.foldl_cons, extendLifetime_setLifetimes, ih]
        refine congrArg r.setLifetimes (funext fun k => ?_)
        rw [List.any_cons]
        by_cases hk : k = a.resource
        · subst hk
          simp [Lifetime.extend_extend]
        · simp [hk, Ne.symm hk]
  exact hfold p.accesses lifetimes

/-- **Lifetimes do not depend on those of an earlier order.** -/
theorem withLifetimes_eq (r : Registry) (order : List Nat) (passes : List Pass) :
    r.withLifetimes order passes = r.setLifetimes (lifetimeOf order passes) := by
  have hfold : ∀ (entries : List (Nat × Nat)) (lifetimes : Handle → Option Lifetime),
      entries.foldl (fun r entry => r.extendLifetimes (passes.getD entry.1 default) entry.2)
          (r.setLifetimes lifetimes) =
        r.setLifetimes fun h => entries.foldl
          (fun lifetime entry =>
            if (passes[entry.1]?).any fun p => p.involves h then Lifetime.extend lifetime entry.2
            else lifetime)
          (lifetimes h) := by
    intro entries
    induction entries with
    | nil => exact fun _ => rfl
    | cons entry rest ih =>
        intro lifetimes
        have hinvolves : ∀ h, (passes.getD entry.1 default).involves h =
            (passes[entry.1]?).any fun p => p.involves h := by
          intro h
          rw [List.getD_eq_getElem?_getD]
          cases passes[entry.1]? <;> rfl
        simp only [List.foldl_cons, extendLifetimes_setLifetimes, ih, hinvolves]
  exact hfold order.zipIdx fun _ => none

theorem get?_withLifetimes (r : Registry) (order : List Nat) (passes : List Pass) (h : Handle) :
    (r.withLifetimes order passes).get? h = (r.get? h).map fun resource =>
      { resource with lifetime := lifetimeOf order passes h } := by
  rw [withLifetimes_eq]
  exact SlotTable.get?_mapValues _ r.table h

end Registry

end FrameGraph
