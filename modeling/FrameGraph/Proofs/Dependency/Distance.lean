import FrameGraph.Proofs.Dependency.Reachability
import Mathlib.Data.ENat.Lattice

/-!
# Distances are exact

The search for distances goes backwards from the targets, breadth first.  The distances along its queue
never fall, and the last one is at most one above the first, so that a pass that is newly met cannot
have a shorter way to a target than the one over the pass at the front: such a way would have to enter
the settled passes at one that is still in the queue.

Principal statement: `distanceOf_distancesTo` — the search finds the least number of dependencies on a
path from a pass forward to a target, and none if there is no path.
-/

set_option autoImplicit false

namespace FrameGraph

/-- A distance as the search notes it; no distance is infinite. -/
def distanceOf (entry : Option Nat) : ℕ∞ := entry.elim ⊤ fun d => (d : ℕ∞)

theorem distanceOf_injective : Function.Injective distanceOf := by
  intro a b h
  cases a with
  | none =>
      cases b with
      | none => rfl
      | some e => exact absurd h.symm (ENat.natCast_ne_top e)
  | some d =>
      cases b with
      | none => exact absurd h (ENat.natCast_ne_top d)
      | some e => exact congrArg some (Nat.cast_injective h)

namespace DependencyGraph

/-! ## Paths and their lengths -/

/-- A path of that many dependencies leads from the pass forward to a target. -/
inductive LeadsTo (g : DependencyGraph) (target : Nat → Prop) : Nat → Nat → Prop
  | here {t : Nat} : target t → g.LeadsTo target 0 t
  | along {n p c : Nat} : g.HasEdge p c → g.LeadsTo target n c → g.LeadsTo target (n + 1) p

/-- The least number of dependencies on a path from the pass forward to a target, infinite if no path
leads there. -/
noncomputable def leastDistance (g : DependencyGraph) (target : Nat → Prop) (pass : Nat) : ℕ∞ :=
  ⨅ (n : ℕ) (_ : g.LeadsTo target n pass), (n : ℕ∞)

theorem leastDistance_eq {g : DependencyGraph} {target : Nat → Prop} {pass d : Nat}
    (hpath : g.LeadsTo target d pass) (hleast : ∀ n, g.LeadsTo target n pass → d ≤ n) :
    g.leastDistance target pass = d := by
  apply le_antisymm
  · exact iInf₂_le d hpath
  · apply le_iInf₂
    intro n hn
    exact Nat.cast_le.2 (hleast n hn)

theorem leastDistance_eq_top {g : DependencyGraph} {target : Nat → Prop} {pass : Nat}
    (hnone : ∀ n, ¬ g.LeadsTo target n pass) : g.leastDistance target pass = ⊤ := by
  apply iInf₂_eq_top.2
  intro n hn
  exact absurd hn (hnone n)

/-- On a path to settled targets an unsettled pass is followed by a settled one. -/
theorem LeadsTo.exists_crossing {g : DependencyGraph} {target settled : Nat → Prop}
    (htarget : ∀ t, target t → settled t) {n p : Nat} (hpath : g.LeadsTo target n p)
    (hp : ¬ settled p) :
    ∃ a b m, ¬ settled a ∧ g.HasEdge a b ∧ settled b ∧ g.LeadsTo target m b ∧ m < n := by
  induction hpath with
  | here ht => exact absurd (htarget _ ht) hp
  | @along n p c hedge hrest ih =>
      by_cases hc : settled c
      · exact ⟨p, c, n, hp, hedge, hc, hrest, Nat.lt_succ_self n⟩
      · obtain ⟨a, b, m, ha, hab, hb, hm, hlt⟩ := ih hc
        exact ⟨a, b, m, ha, hab, hb, hm, Nat.lt_succ_of_lt hlt⟩

/-! ## The search -/

variable {g : DependencyGraph} {targets : List Nat}

/-- What holds at every step of the search of the distances that it has noted. -/
structure Measuring (g : DependencyGraph) (targets : List Nat) (table : List (Option Nat))
    (queue : List Nat) : Prop where
  searching : g.Searching targets table queue
  path : ∀ i d, table[i]? = some (some d) → g.LeadsTo (· ∈ targets) d i
  least : ∀ i d n, table[i]? = some (some d) → g.LeadsTo (· ∈ targets) n i → d ≤ n
  ordered : queue.Pairwise fun i j =>
    ∀ d e, table[i]? = some (some d) → table[j]? = some (some e) → d ≤ e ∧ e ≤ d + 1

/-- A pass that has a distance keeps it. -/
theorem getElem?_settleAll_of_some {table : List (Option Nat)} {i e : Nat}
    (hi : table[i]? = some (some e)) (d : Nat) (passes : List Nat) :
    (settleAll table d passes).1[i]? = some (some e) := by
  rw [getElem?_settleAll, hi]
  simp

/-- The distances after a step are those from before and that of the passes newly met. -/
theorem getElem?_settleAll_eq_some {table : List (Option Nat)} {d : Nat} {passes : List Nat}
    {i e : Nat} :
    (settleAll table d passes).1[i]? = some (some e) ↔
      table[i]? = some (some e) ∨ i ∈ passes ∧ table[i]? = some none ∧ e = d := by
  rw [getElem?_settleAll]
  by_cases hnew : i ∈ passes ∧ table[i]? = some none
  · rw [if_pos hnew, hnew.2]
    simp [hnew.1, eq_comm]
  · rw [if_neg hnew]
    constructor
    · exact .inl
    · rintro (hold | ⟨hi, hnone, -⟩)
      · exact hold
      · exact absurd ⟨hi, hnone⟩ hnew

/-- What is not settled is farther from the targets than the front of the queue. -/
theorem Measuring.lt_of_leadsTo {table : List (Option Nat)} {pass : Nat} {rest : List Nat}
    (hm : g.Measuring targets table (pass :: rest)) {d : Nat} (hd : table[pass]? = some (some d))
    {p n : Nat} (hp : table[p]? = some none) (hpath : g.LeadsTo (· ∈ targets) n p) : d < n := by
  have hunsettled : ¬ IsSettled table p := by
    rintro ⟨e, he⟩
    rw [hp] at he
    cases he
  obtain ⟨a, b, m, ha, hedge, hb, hrest, hlt⟩ :=
    hpath.exists_crossing hm.searching.complete hunsettled
  -- The pass where the path enters still has an unsettled predecessor, so it waits in the queue.
  have hqueued : b ∈ pass :: rest := by
    rcases hm.searching.closed b hb with hq | hq
    · exact hq
    · exact absurd (hq a hedge) ha
  obtain ⟨e, he⟩ := hb
  have hle : d ≤ e := by
    rcases List.mem_cons.1 hqueued with rfl | hq
    · rw [hd] at he
      cases he
      exact Nat.le_refl d
    · exact ((List.pairwise_cons.1 hm.ordered).1 b hq d e hd he).1
  have := hm.least b e m he hrest
  omega

/-- The next step of the search: the passes newly met are one dependency behind the pass at the front
of the queue. -/
theorem Measuring.step (hg : g.Consistent) {table : List (Option Nat)} {pass : Nat}
    {rest : List Nat} (hm : g.Measuring targets table (pass :: rest)) :
    g.Measuring targets
      (settleAll table ((table.getD pass none).getD 0 + 1) (g.predecessorsOf pass)).1
      (rest ++ (settleAll table ((table.getD pass none).getD 0 + 1) (g.predecessorsOf pass)).2) := by
  obtain ⟨d, hd⟩ := hm.searching.queued pass List.mem_cons_self
  have hfront : (table.getD pass none).getD 0 = d := by
    rw [List.getD_eq_getElem?_getD, hd]
    rfl
  rw [hfront]
  obtain ⟨hnearest, hordered⟩ := List.pairwise_cons.1 hm.ordered
  refine { searching := hm.searching.step hg _, path := ?_, least := ?_, ordered := ?_ }
  · intro i e hi
    rcases getElem?_settleAll_eq_some.1 hi with hold | ⟨hp, -, rfl⟩
    · exact hm.path i e hold
    · exact .along (hg.mem_predecessorsOf.1 hp) (hm.path pass d hd)
  · intro i e n hi hpath
    rcases getElem?_settleAll_eq_some.1 hi with hold | ⟨-, hnew, rfl⟩
    · exact hm.least i e n hold hpath
    · exact hm.lt_of_leadsTo hd hnew hpath
  · -- What waits in the queue was settled before; what joins it is settled now, all at one distance.
    have hsettled : ∀ i ∈ rest, ∀ e,
        (settleAll table (d + 1) (g.predecessorsOf pass)).1[i]? = some (some e) →
          table[i]? = some (some e) := by
      intro i hi e he
      obtain ⟨e', he'⟩ := hm.searching.queued i (List.mem_cons_of_mem _ hi)
      rw [getElem?_settleAll_of_some he'] at he
      rw [he', he]
    have hjoined : ∀ i ∈ (settleAll table (d + 1) (g.predecessorsOf pass)).2, ∀ e,
        (settleAll table (d + 1) (g.predecessorsOf pass)).1[i]? = some (some e) → e = d + 1 := by
      intro i hi e he
      obtain ⟨-, hnone⟩ := mem_settleAll.1 hi
      rcases getElem?_settleAll_eq_some.1 he with hold | ⟨-, -, heq⟩
      · rw [hnone] at hold
        cases hold
      · exact heq
    refine List.pairwise_append.2 ⟨?_, ?_, ?_⟩
    · refine hordered.imp_of_mem ?_
      intro i j hi hj hij e f he hf
      exact hij e f (hsettled i hi e he) (hsettled j hj f hf)
    · refine List.pairwise_of_forall_mem_list ?_
      intro i hi j hj e f he hf
      have := hjoined i hi e he
      have := hjoined j hj f hf
      omega
    · intro i hi j hj e f he hf
      have := hnearest i hi d e hd (hsettled i hi e he)
      have := hjoined j hj f hf
      omega

/-- The whole search, by its steps. -/
theorem Measuring.searchBack (hg : g.Consistent) {table : List (Option Nat)} {queue : List Nat}
    (hm : g.Measuring targets table queue) :
    g.Measuring targets (g.searchBack table queue) [] := by
  fun_induction DependencyGraph.searchBack g table queue with
  | case1 table => exact hm
  | case2 table pass rest met ih => exact ih (hm.step hg)

/-- The search starts at the targets, with the distance zero. -/
theorem measuring_start (ht : ∀ t ∈ targets, t < g.passCount) :
    g.Measuring targets (settleAll (List.replicate g.passCount none) 0 targets).1
      (settleAll (List.replicate g.passCount none) 0 targets).2 := by
  have hzero : ∀ i d, (settleAll (List.replicate g.passCount none) 0 targets).1[i]? =
      some (some d) → i ∈ targets ∧ d = 0 := by
    intro i d hi
    rcases getElem?_settleAll_eq_some.1 hi with hold | ⟨hmem, -, rfl⟩
    · simp [List.getElem?_replicate] at hold
    · exact ⟨hmem, rfl⟩
  refine { searching := searching_start ht, path := ?_, least := ?_, ordered := ?_ }
  · intro i d hi
    obtain ⟨hmem, rfl⟩ := hzero i d hi
    exact .here hmem
  · intro i d n hi _
    obtain ⟨-, rfl⟩ := hzero i d hi
    exact Nat.zero_le n
  · refine List.pairwise_of_forall_mem_list ?_
    intro i _ j _ d e hd he
    have := (hzero i d hd).2
    have := (hzero j e he).2
    omega

/-! ## The distances -/

/-- When the queue is empty, what leads to a target is settled. -/
theorem Searching.isSettled_of_leadsTo {table : List (Option Nat)}
    (hs : g.Searching targets table []) {n p : Nat} (hpath : g.LeadsTo (· ∈ targets) n p) :
    IsSettled table p := by
  induction hpath with
  | here ht => exact hs.complete _ ht
  | along hedge _ ih => exact (hs.closed _ ih).resolve_left List.not_mem_nil _ hedge

/-- **The search finds the least distances.** -/
theorem distanceOf_distancesTo (hg : g.Consistent) (ht : ∀ t ∈ targets, t < g.passCount)
    (pass : Nat) :
    distanceOf ((g.distancesTo targets).getD pass none) =
      g.leastDistance (· ∈ targets) pass := by
  have hm : g.Measuring targets (g.distancesTo targets) [] := (measuring_start ht).searchBack hg
  rw [List.getD_eq_getElem?_getD]
  by_cases hsettled : IsSettled (g.distancesTo targets) pass
  · obtain ⟨d, hd⟩ := hsettled
    rw [hd]
    exact (leastDistance_eq (hm.path pass d hd) fun n hn => hm.least pass d n hd hn).symm
  · have hnone : ((g.distancesTo targets)[pass]?).getD none = none := by
      cases hentry : (g.distancesTo targets)[pass]? with
      | none => rfl
      | some entry =>
          cases entry with
          | none => rfl
          | some d => exact absurd ⟨d, hentry⟩ hsettled
    rw [hnone]
    refine (leastDistance_eq_top ?_).symm
    intro n hn
    exact hsettled (hm.searching.isSettled_of_leadsTo hn)

end DependencyGraph

end FrameGraph
