import FrameGraph.Proofs.Dependency.Tables
import FrameGraph.Schedule
import Mathlib.Data.List.Perm.Subperm

/-!
# What the scheduler enumerates

The scheduler counts, for every pass that is to be scheduled, the dependencies that are still to
come.  `Progress` says that the counts are right, that the passes scheduled or ready are exactly
those whose dependencies are all scheduled, and that none was scheduled before its dependencies.

Principal statements: `mem_value_order` and `nodup_value_order` — the order has every pass that is to
be scheduled, once — and `respects_value_order`: without cycles, in the order of the dependencies.
-/

set_option autoImplicit false

namespace FrameGraph

/-! ## Counting down at different positions -/

theorem getElem?_countDown {positions : List Nat} (hnd : positions.Nodup) (counters : List Nat)
    (c : Nat) :
    (countDown counters positions).1[c]? =
      if c ∈ positions then counters[c]?.map (· - 1) else counters[c]? := by
  induction positions generalizing counters with
  | nil => simp [countDown]
  | cons position rest ih =>
      obtain ⟨hnew, hrest⟩ := List.nodup_cons.1 hnd
      unfold countDown
      split
      · next left hleft =>
          have hlt : position < counters.length := (List.getElem?_eq_some_iff.1 hleft).1
          dsimp only
          rw [ih hrest, List.getElem?_set]
          by_cases hc : position = c
          · subst hc
            rw [if_neg hnew, if_pos rfl, if_pos hlt, if_pos List.mem_cons_self, hleft]
            rfl
          · simp [hc, Ne.symm hc]
      · next hzero =>
          rw [ih hrest]
          by_cases hc : c = position
          · subst hc
            rw [if_neg hnew, if_pos List.mem_cons_self]
            cases hentry : counters[c]? with
            | none => rfl
            | some left =>
                cases left with
                | zero => rfl
                | succ left => exact absurd hentry (hzero left)
          · simp [hc]

theorem finished_countDown {positions : List Nat} (hnd : positions.Nodup) (counters : List Nat) :
    (countDown counters positions).2 = positions.filter fun c => counters[c]? = some 1 := by
  induction positions generalizing counters with
  | nil => rfl
  | cons position rest ih =>
      obtain ⟨hnew, hrest⟩ := List.nodup_cons.1 hnd
      unfold countDown
      split
      · next left hleft =>
          have hsame : (rest.filter fun c => (counters.set position left)[c]? = some 1) =
              rest.filter fun c => counters[c]? = some 1 := by
            refine List.filter_congr fun c hc => ?_
            have hne : position ≠ c := fun h => hnew (h ▸ hc)
            rw [List.getElem?_set, if_neg hne]
          dsimp only
          rw [ih hrest, hsame, List.filter_cons, hleft]
          cases left with
          | zero => rfl
          | succ left => simp
      · next hzero =>
          have hne : counters[position]? ≠ some 1 := hzero 0
          rw [ih hrest, List.filter_cons, if_neg (by simpa using hne)]

/-- One element fewer counts if it was listed once and counted. -/
private theorem countP_and_ne {l : List Nat} (hnd : l.Nodup) {q : Nat → Bool} {a : Nat}
    (hq : q a = true) :
    (l.countP fun p => q p && decide (p ≠ a)) = if a ∈ l then l.countP q - 1 else l.countP q := by
  induction l with
  | nil => rfl
  | cons b l ih =>
      obtain ⟨hnew, hrest⟩ := List.nodup_cons.1 hnd
      rw [List.countP_cons, List.countP_cons, ih hrest]
      by_cases hb : b = a
      · subst hb
        simp [hnew, hq]
      · by_cases ha : a ∈ l
        · have hpos : 0 < l.countP q := List.countP_pos_iff.2 ⟨a, ha, hq⟩
          simp only [ha, hb, List.mem_cons, or_true, if_true, ne_eq, not_false_eq_true, decide_true,
            Bool.and_true]
          omega
        · simp [ha, hb, Ne.symm hb]

namespace ScheduleInput

variable {s : ScheduleInput}

/-- The graph has one node and one mark for each of the passes, and its tables are those of its
edges. -/
structure WellFormed (s : ScheduleInput) : Prop where
  consistent : s.graph.Consistent
  passCount_eq : s.graph.passCount = s.passes.length
  length_reachable : s.reachable.length = s.passes.length

theorem WellFormed.lt_of_wants (hs : s.WellFormed) {c : Nat} (hc : s.wants c = true) :
    c < s.passes.length := by
  rw [← hs.length_reachable]
  refine Nat.lt_of_not_le fun hle => ?_
  rw [wants, List.getD_eq_getElem?_getD, List.getElem?_eq_none hle] at hc
  cases hc

/-- The number of dependencies of a pass that are to be scheduled and are not yet. -/
def pending (s : ScheduleInput) (order : List Nat) (c : Nat) : Nat :=
  (s.graph.predecessorsOf c).countP fun p => s.wants p && decide (p ∉ order)

theorem pending_eq_zero_iff (hs : s.WellFormed) {order : List Nat} {c : Nat} :
    s.pending order c = 0 ↔ ∀ p, s.graph.HasEdge p c → s.wants p = true → p ∈ order := by
  rw [pending, List.countP_eq_zero]
  constructor
  · intro h p hp hw
    have := h p (hs.consistent.mem_predecessorsOf.2 hp)
    simpa [hw] using this
  · intro h p hp
    have := h p (hs.consistent.mem_predecessorsOf.1 hp)
    simpa using this

/-- Scheduling a pass lowers the number for those that depend on it. -/
theorem pending_concat (hs : s.WellFormed) {order : List Nat} {next : Nat} (hnew : next ∉ order)
    (hw : s.wants next = true) (c : Nat) :
    s.pending (order ++ [next]) c =
      if s.graph.HasEdge next c then s.pending order c - 1 else s.pending order c := by
  have hsplit : s.pending (order ++ [next]) c =
      (s.graph.predecessorsOf c).countP
        fun p => (s.wants p && decide (p ∉ order)) && decide (p ≠ next) := by
    refine List.countP_congr fun p _ => ?_
    simp only [List.mem_append, List.mem_singleton, not_or, Bool.and_eq_true, decide_eq_true_eq,
      and_assoc]
  rw [hsplit, countP_and_ne (hs.consistent.nodup_predecessorsOf c) (by simp [hw, hnew])]
  simp only [hs.consistent.mem_predecessorsOf]
  rfl

/-! ## The loop -/

/-- What holds whenever the scheduler chooses a pass. -/
structure Progress (s : ScheduleInput) (counts order ready : List Nat) : Prop where
  counts_eq : ∀ c, s.wants c = true → counts[c]? = some (s.pending order c)
  nodup : (order ++ ready).Nodup
  mem_iff : ∀ c, c ∈ order ++ ready ↔ s.wants c = true ∧ s.pending order c = 0
  ordered : ∀ before c after, order = before ++ c :: after → s.pending before c = 0

/-- The successors whose counters are lowered, each once. -/
theorem nodup_lowered (hs : s.WellFormed) (next : Nat) :
    ((s.graph.successorsOf next).filter s.wants).Nodup :=
  (hs.consistent.nodup_successorsOf next).filter _

theorem mem_lowered (hs : s.WellFormed) {next c : Nat} :
    c ∈ (s.graph.successorsOf next).filter s.wants ↔
      s.graph.HasEdge next c ∧ s.wants c = true := by
  rw [List.mem_filter, hs.consistent.mem_successorsOf]

/-- The passes that become ready are those that waited for the chosen pass alone. -/
theorem Progress.mem_finished (hs : s.WellFormed) {counts order ready : List Nat}
    (hp : s.Progress counts order ready) {next c : Nat} :
    c ∈ (countDown counts ((s.graph.successorsOf next).filter s.wants)).2 ↔
      s.graph.HasEdge next c ∧ s.wants c = true ∧ s.pending order c = 1 := by
  rw [finished_countDown (nodup_lowered hs next), List.mem_filter, mem_lowered hs, and_assoc]
  refine and_congr_right fun _ => and_congr_right fun hw => ?_
  rw [hp.counts_eq c hw, decide_eq_true_eq, Option.some_inj]

theorem Progress.step (hs : s.WellFormed) {counts order ready : List Nat}
    (hp : s.Progress counts order ready) {next : Nat} (hnext : next ∈ ready) :
    s.Progress (countDown counts ((s.graph.successorsOf next).filter s.wants)).1 (order ++ [next])
      (ready.erase next ++ (countDown counts ((s.graph.successorsOf next).filter s.wants)).2) := by
  obtain ⟨-, hready, hdisjoint⟩ := List.nodup_append.1 hp.nodup
  have hnew : next ∉ order := fun h => hdisjoint next h next hnext rfl
  obtain ⟨hw, hzero⟩ := (hp.mem_iff next).1 (List.mem_append_right _ hnext)
  have hpending := pending_concat hs hnew hw
  have hperm : (order ++ [next] ++ (ready.erase next ++
      (countDown counts ((s.graph.successorsOf next).filter s.wants)).2)).Perm
      (order ++ ready ++ (countDown counts ((s.graph.successorsOf next).filter s.wants)).2) := by
    rw [← List.append_assoc, List.append_assoc order, List.singleton_append]
    exact ((List.perm_cons_erase hnext).symm.append_left order).append_right _
  refine { counts_eq := ?_, nodup := ?_, mem_iff := ?_, ordered := ?_ }
  · intro c hc
    rw [getElem?_countDown (nodup_lowered hs next), hp.counts_eq c hc, hpending]
    simp only [mem_lowered hs, hc, and_true]
    split <;> rfl
  · refine hperm.nodup_iff.2 (List.nodup_append.2 ⟨hp.nodup, ?_, ?_⟩)
    · rw [finished_countDown (nodup_lowered hs next)]
      exact (nodup_lowered hs next).filter _
    · rintro c hc d hd rfl
      have hone := ((hp.mem_finished hs).1 hd).2.2
      rw [((hp.mem_iff c).1 hc).2] at hone
      cases hone
  · intro c
    rw [hperm.mem_iff, List.mem_append, hp.mem_iff, hp.mem_finished hs, hpending]
    by_cases hedge : s.graph.HasEdge next c
    · rw [if_pos hedge]
      constructor
      · rintro (⟨hc, h⟩ | ⟨-, hc, h⟩) <;> exact ⟨hc, by omega⟩
      · rintro ⟨hc, h⟩
        rcases Nat.eq_zero_or_pos (s.pending order c) with h0 | h0
        · exact .inl ⟨hc, h0⟩
        · exact .inr ⟨hedge, hc, by omega⟩
    · rw [if_neg hedge]
      simp [hedge]
  · intro before c after hsplit
    rcases List.eq_nil_or_concat after with rfl | ⟨after, last, rfl⟩
    · obtain ⟨rfl, hc⟩ := List.append_inj' hsplit rfl
      cases hc
      exact hzero
    · refine hp.ordered before c after ?_
      rw [List.concat_eq_append, ← List.cons_append, ← List.append_assoc] at hsplit
      exact (List.append_inj' hsplit rfl).1

/-- The whole loop, by its steps. -/
theorem Progress.extend (hs : s.WellFormed) {distances : List (Option Nat)}
    {layouts : HandleMap Layout} {counts order ready : List Nat}
    (hp : s.Progress counts order ready) :
    ∃ counts', s.Progress counts' (s.extend distances counts layouts order ready) [] := by
  fun_induction ScheduleInput.extend s distances counts layouts order ready with
  | case1 counts layouts order => exact ⟨counts, hp⟩
  | case2 counts layouts order first rest next counted ih => exact ih (hp.step hs (pick_mem _ _ _))

theorem progress_start (hs : s.WellFormed) :
    s.Progress s.dependencyCounts [] s.initiallyReady := by
  have hcounts : ∀ c, s.wants c = true → s.dependencyCounts[c]? = some (s.pending [] c) := by
    intro c hc
    simp [dependencyCounts, pending, hs.lt_of_wants hc]
  refine { counts_eq := hcounts, nodup := ?_, mem_iff := ?_, ordered := ?_ }
  · exact List.nodup_range.filter _
  · intro c
    simp only [initiallyReady, List.nil_append, List.mem_filter, List.mem_range, Bool.and_eq_true,
      decide_eq_true_eq, List.getD_eq_getElem?_getD]
    constructor
    · rintro ⟨-, hc, h⟩
      rw [hcounts c hc] at h
      exact ⟨hc, h⟩
    · rintro ⟨hc, h⟩
      exact ⟨hs.lt_of_wants hc, hc, by rw [hcounts c hc]; exact h⟩
  · intro before c after h
    simp at h

/-! ## The order -/

/-- What the loop leaves behind: it has stopped, so nothing more is ready. -/
theorem progress_greedyOrder (hs : s.WellFormed) :
    ∃ counts, s.Progress counts s.greedyOrder [] :=
  (progress_start hs).extend hs

theorem nodup_greedyOrder (hs : s.WellFormed) : s.greedyOrder.Nodup := by
  obtain ⟨counts, hp⟩ := progress_greedyOrder hs
  simpa using hp.nodup

theorem wants_of_mem_greedyOrder (hs : s.WellFormed) {c : Nat} (hc : c ∈ s.greedyOrder) :
    s.wants c = true := by
  obtain ⟨counts, hp⟩ := progress_greedyOrder hs
  exact ((hp.mem_iff c).1 (by simpa using hc)).1

private theorem count_true_eq (marks : List Bool) :
    marks.count true = (List.range marks.length).countP fun i => marks.getD i false := by
  induction marks with
  | nil => rfl
  | cons mark rest ih =>
      rw [List.count_cons, List.length_cons, List.range_succ_eq_map, List.countP_cons,
        List.countP_map, ih]
      cases mark <;> rfl

/-- An order with as many passes as are marked has all of them. -/
theorem mem_of_length_eq (hs : s.WellFormed) {order : List Nat} (hnd : order.Nodup)
    (hsub : ∀ c ∈ order, s.wants c = true) (hlen : order.length = s.reachable.count true) {c : Nat}
    (hc : s.wants c = true) : c ∈ order := by
  have hsubset : order ⊆ (List.range s.passes.length).filter s.wants := by
    intro d hd
    exact List.mem_filter.2 ⟨List.mem_range.2 (hs.lt_of_wants (hsub d hd)), hsub d hd⟩
  have hcount : ((List.range s.passes.length).filter s.wants).length = s.reachable.count true := by
    rw [← List.countP_eq_length_filter, count_true_eq, hs.length_reachable]
    rfl
  have hperm := (List.subperm_of_subset hnd hsubset).perm_of_length_le (by omega)
  exact hperm.mem_iff.2 (List.mem_filter.2 ⟨List.mem_range.2 (hs.lt_of_wants hc), hc⟩)

theorem mem_missing {order : List Nat} {c : Nat} :
    c ∈ s.missing order ↔ c < s.passes.length ∧ s.wants c = true ∧ c ∉ order := by
  simp [missing]

/-- Whether or not the loop has stalled, the order has every pass that is to be scheduled. -/
theorem mem_value_order (hs : s.WellFormed) {c : Nat} :
    c ∈ s.order.value ↔ s.wants c = true := by
  unfold order
  dsimp only
  split
  · next hlen =>
      refine ⟨wants_of_mem_greedyOrder hs, fun hc => ?_⟩
      exact mem_of_length_eq hs (nodup_greedyOrder hs)
        (fun d hd => wants_of_mem_greedyOrder hs hd) hlen hc
  · change c ∈ s.greedyOrder ++ s.missing s.greedyOrder ↔ _
    rw [List.mem_append, mem_missing]
    constructor
    · rintro (h | ⟨-, h, -⟩)
      · exact wants_of_mem_greedyOrder hs h
      · exact h
    · intro hc
      by_cases h : c ∈ s.greedyOrder
      · exact .inl h
      · exact .inr ⟨hs.lt_of_wants hc, hc, h⟩

theorem nodup_value_order (hs : s.WellFormed) : s.order.value.Nodup := by
  unfold order
  dsimp only
  split
  · exact nodup_greedyOrder hs
  · change (s.greedyOrder ++ s.missing s.greedyOrder).Nodup
    refine List.nodup_append.2 ⟨nodup_greedyOrder hs, List.nodup_range.filter _, ?_⟩
    rintro c hc d hd rfl
    exact (mem_missing.1 hd).2.2 hc

end ScheduleInput

/-! ## Orders that follow the dependencies -/

/-- Of the passes in the list, each comes after those that it depends on. -/
def DependencyGraph.Respects (g : DependencyGraph) (order : List Nat) : Prop :=
  ∀ p c, g.HasEdge p c → p ∈ order → c ∈ order → order.idxOf p < order.idxOf c

namespace ScheduleInput

variable {s : ScheduleInput}

/-- Without cycles the loop does not stall. -/
theorem mem_greedyOrder_of_forward (hs : s.WellFormed)
    (hforward : ∀ p c, s.graph.HasEdge p c → p < c) {c : Nat} (hc : s.wants c = true) :
    c ∈ s.greedyOrder := by
  obtain ⟨counts, hp⟩ := progress_greedyOrder hs
  induction c using Nat.strongRecOn with
  | ind c ih =>
      have hzero : s.pending s.greedyOrder c = 0 :=
        (pending_eq_zero_iff hs).2 fun p hedge hw => ih p (hforward p c hedge) hw
      simpa using (hp.mem_iff c).2 ⟨hc, hzero⟩

/-- What the loop has taken follows the dependencies. -/
theorem Progress.respects (hs : s.WellFormed) {counts order : List Nat}
    (hp : s.Progress counts order []) : s.graph.Respects order := by
  intro p c hedge hmem hc
  have hwants : s.wants p = true := ((hp.mem_iff p).1 (by simpa using hmem)).1
  obtain ⟨before, after, hsplit⟩ := List.append_of_mem hc
  have hbefore : p ∈ before :=
    (pending_eq_zero_iff hs).1 (hp.ordered before c after hsplit) p hedge hwants
  have hnew : c ∉ before := by
    have hnd := hp.nodup
    rw [List.append_nil, hsplit] at hnd
    exact fun h => (List.nodup_append.1 hnd).2.2 c h c List.mem_cons_self rfl
  rw [hsplit, List.idxOf_append_of_mem hbefore, List.idxOf_append_of_notMem hnew]
  have := List.idxOf_lt_length_of_mem hbefore
  omega

theorem respects_greedyOrder (hs : s.WellFormed) : s.graph.Respects s.greedyOrder := by
  obtain ⟨counts, hp⟩ := progress_greedyOrder hs
  exact hp.respects hs

/-- **Without cycles the order follows the dependencies.** -/
theorem respects_value_order (hs : s.WellFormed) (hforward : ∀ p c, s.graph.HasEdge p c → p < c) :
    s.graph.Respects s.order.value := by
  have hnone : s.missing s.greedyOrder = [] := by
    refine List.eq_nil_iff_forall_not_mem.2 fun c hc => ?_
    obtain ⟨-, hw, hnot⟩ := mem_missing.1 hc
    exact hnot (mem_greedyOrder_of_forward hs hforward hw)
  have hvalue : s.order.value = s.greedyOrder := by
    unfold order
    dsimp only
    split
    · rfl
    · change s.greedyOrder ++ s.missing s.greedyOrder = s.greedyOrder
      rw [hnone, List.append_nil]
  rw [hvalue]
  exact respects_greedyOrder hs

end ScheduleInput

end FrameGraph
