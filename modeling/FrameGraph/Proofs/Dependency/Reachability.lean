import FrameGraph.Dependency.Reach
import FrameGraph.Proofs.Dependency.Tables
import Mathlib.Logic.Relation

/-!
# Reachability is exact

The search goes backwards from the terminals.  What it has settled so far leads to a terminal, and a
settled pass whose predecessors are not settled yet is still in the queue: `Searching` states both,
every step of the search keeps it, and with an empty queue it says that the settled passes are
exactly those that lead to a terminal.

Principal statements: `reaching_eq_true_iff`, and `reaching_of_hasEdge` — what a reachable pass
depends on is reachable.
-/

set_option autoImplicit false

namespace FrameGraph

open Relation

/-! ## Settling passes -/

/-- The search has met the pass. -/
def IsSettled (table : List (Option Nat)) (pass : Nat) : Prop :=
  ∃ d, table[pass]? = some (some d)

theorem getElem?_settleAll (table : List (Option Nat)) (d : Nat) (passes : List Nat) (i : Nat) :
    (settleAll table d passes).1[i]? =
      if i ∈ passes ∧ table[i]? = some none then some (some d) else table[i]? := by
  induction passes generalizing table with
  | nil => simp [settleAll]
  | cons pass rest ih =>
      unfold settleAll
      split
      · next hnew =>
          obtain ⟨hlt, hentry⟩ := List.getElem?_eq_some_iff.1 hnew
          simp only [ih, List.getElem?_set]
          by_cases hi : pass = i
          · subst hi
            simp [hlt, hentry]
          · simp [hi, Ne.symm hi]
      · next hold =>
          rw [ih]
          by_cases hi : i = pass
          · subst hi
            have hne : table[i]? ≠ some none := fun h => hold h
            simp [hne]
          · simp [hi]

theorem mem_settleAll {table : List (Option Nat)} {d : Nat} {passes : List Nat} {i : Nat} :
    i ∈ (settleAll table d passes).2 ↔ i ∈ passes ∧ table[i]? = some none := by
  induction passes generalizing table with
  | nil => simp [settleAll]
  | cons pass rest ih =>
      unfold settleAll
      split
      · next hnew =>
          obtain ⟨hlt, hentry⟩ := List.getElem?_eq_some_iff.1 hnew
          simp only [List.mem_cons, ih, List.getElem?_set]
          by_cases hi : pass = i
          · subst hi
            simp [hlt, hentry]
          · simp [hi, Ne.symm hi]
      · next hold =>
          rw [ih, List.mem_cons]
          by_cases hi : i = pass
          · subst hi
            have hne : table[i]? ≠ some none := fun h => hold h
            simp [hne]
          · simp [hi]

/-- Exactly the passes of the list that lie within the table become settled. -/
theorem isSettled_settleAll {table : List (Option Nat)} {d : Nat} {passes : List Nat} {i : Nat} :
    IsSettled (settleAll table d passes).1 i ↔
      IsSettled table i ∨ i ∈ passes ∧ i < table.length := by
  unfold IsSettled
  rw [getElem?_settleAll]
  by_cases hlt : i < table.length
  · cases hentry : table[i] with
    | none => by_cases hi : i ∈ passes <;> simp [hi, hlt, hentry]
    | some e => simp [hlt, hentry]
  · simp [hlt]

namespace DependencyGraph

variable {g : DependencyGraph} {terminals : List Nat}

/-- The pass leads to one of the terminals. -/
def Reaches (g : DependencyGraph) (terminals : List Nat) (pass : Nat) : Prop :=
  ∃ t ∈ terminals, ReflTransGen g.HasEdge pass t

/-- What holds at every step of the search. -/
structure Searching (g : DependencyGraph) (terminals : List Nat) (table : List (Option Nat))
    (queue : List Nat) : Prop where
  length_eq : table.length = g.passCount
  queued : ∀ i ∈ queue, IsSettled table i
  closed : ∀ i, IsSettled table i → i ∈ queue ∨ ∀ p, g.HasEdge p i → IsSettled table p
  sound : ∀ i, IsSettled table i → g.Reaches terminals i
  complete : ∀ t ∈ terminals, IsSettled table t

/-- The next step of the search: the pass at the front of the queue gives way to those of its
predecessors that are met for the first time. -/
theorem Searching.step (hg : g.Consistent) {table : List (Option Nat)} {pass : Nat}
    {rest : List Nat} (hs : g.Searching terminals table (pass :: rest)) (d : Nat) :
    g.Searching terminals (settleAll table d (g.predecessorsOf pass)).1
      (rest ++ (settleAll table d (g.predecessorsOf pass)).2) where
  length_eq := by rw [length_settleAll, hs.length_eq]
  queued := by
    intro i hi
    rw [isSettled_settleAll]
    rcases List.mem_append.1 hi with hi | hi
    · exact .inl (hs.queued i (List.mem_cons_of_mem _ hi))
    · obtain ⟨hp, hnew⟩ := mem_settleAll.1 hi
      exact .inr ⟨hp, (List.getElem?_eq_some_iff.1 hnew).1⟩
  closed := by
    intro i hi
    by_cases hold : IsSettled table i
    · rcases hs.closed i hold with hq | hq
      · rcases List.mem_cons.1 hq with rfl | hq
        · -- The predecessors of the pass itself have just been settled.
          refine .inr fun p hp => isSettled_settleAll.2 (.inr ⟨hg.mem_predecessorsOf.2 hp, ?_⟩)
          rw [hs.length_eq]
          exact (hg.lt_of_hasEdge hp).1
        · exact .inl (List.mem_append_left _ hq)
      · exact .inr fun p hp => isSettled_settleAll.2 (.inl (hq p hp))
    · obtain ⟨hp, hlt⟩ := (isSettled_settleAll.1 hi).resolve_left hold
      refine .inl (List.mem_append_right _ (mem_settleAll.2 ⟨hp, ?_⟩))
      cases hentry : table[i] with
      | none => rw [List.getElem?_eq_getElem hlt, hentry]
      | some e => exact absurd ⟨e, by rw [List.getElem?_eq_getElem hlt, hentry]⟩ hold
  sound := by
    intro i hi
    rcases isSettled_settleAll.1 hi with hold | ⟨hp, -⟩
    · exact hs.sound i hold
    · obtain ⟨t, ht, hpath⟩ := hs.sound pass (hs.queued pass List.mem_cons_self)
      exact ⟨t, ht, .head (hg.mem_predecessorsOf.1 hp) hpath⟩
  complete := fun t ht => isSettled_settleAll.2 (.inl (hs.complete t ht))

/-- The whole search, by its steps. -/
theorem Searching.searchBack (hg : g.Consistent) {table : List (Option Nat)} {queue : List Nat}
    (hs : g.Searching terminals table queue) :
    g.Searching terminals (g.searchBack table queue) [] := by
  fun_induction DependencyGraph.searchBack g table queue with
  | case1 table => exact hs
  | case2 table pass rest met ih => exact ih (hs.step hg _)

/-- The search starts at the terminals. -/
theorem searching_start (ht : ∀ t ∈ terminals, t < g.passCount) :
    g.Searching terminals (settleAll (List.replicate g.passCount none) 0 terminals).1
      (settleAll (List.replicate g.passCount none) 0 terminals).2 := by
  have hnone : ∀ i, ¬ IsSettled (List.replicate g.passCount none) i := by
    rintro i ⟨d, hd⟩
    simp [List.getElem?_replicate] at hd
  have hsettled : ∀ i, IsSettled (settleAll (List.replicate g.passCount none) 0 terminals).1 i ↔
      i ∈ terminals := by
    intro i
    rw [isSettled_settleAll, List.length_replicate]
    constructor
    · rintro (h | ⟨h, -⟩)
      · exact absurd h (hnone i)
      · exact h
    · intro h
      exact .inr ⟨h, ht i h⟩
  have hqueue : ∀ i ∈ terminals,
      i ∈ (settleAll (List.replicate g.passCount none) 0 terminals).2 := by
    intro i hi
    exact mem_settleAll.2 ⟨hi, by simp [ht i hi]⟩
  exact {
    length_eq := by simp
    queued := fun i hi => (hsettled i).2 (mem_settleAll.1 hi).1
    closed := fun i hi => .inl (hqueue i ((hsettled i).1 hi))
    sound := fun i hi => ⟨i, (hsettled i).1 hi, .refl⟩
    complete := fun t h => (hsettled t).2 h }

/-! ## The marks -/

theorem getD_reaching (terminals : List Nat) (i : Nat) :
    (g.reaching terminals).getD i false = true ↔ IsSettled (g.distancesTo terminals) i := by
  unfold IsSettled
  rw [reaching, List.getD_eq_getElem?_getD, List.getElem?_map]
  cases (g.distancesTo terminals)[i]? with
  | none => simp
  | some entry => cases entry <;> simp

/-- **A pass is marked exactly if a path of dependencies leads from it to a terminal.** -/
theorem reaching_eq_true_iff (hg : g.Consistent) (ht : ∀ t ∈ terminals, t < g.passCount)
    {i : Nat} : (g.reaching terminals).getD i false = true ↔ g.Reaches terminals i := by
  have hs : g.Searching terminals (g.distancesTo terminals) [] :=
    (searching_start ht).searchBack hg
  rw [getD_reaching]
  refine ⟨hs.sound i, ?_⟩
  rintro ⟨t, hterm, hpath⟩
  induction hpath using ReflTransGen.head_induction_on with
  | refl => exact hs.complete t hterm
  | head hedge _ ih => exact (hs.closed _ ih).resolve_left List.not_mem_nil _ hedge

/-- What a reachable pass depends on is reachable. -/
theorem reaching_of_hasEdge (hg : g.Consistent) (ht : ∀ t ∈ terminals, t < g.passCount)
    {p c : Nat} (hedge : g.HasEdge p c) (hc : (g.reaching terminals).getD c false = true) :
    (g.reaching terminals).getD p false = true := by
  rw [reaching_eq_true_iff hg ht] at hc ⊢
  obtain ⟨t, hterm, hpath⟩ := hc
  exact ⟨t, hterm, .head hedge hpath⟩

end DependencyGraph

end FrameGraph
