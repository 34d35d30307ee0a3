import FrameGraph.Proofs.Dependency.Cycles
import FrameGraph.Proofs.Scheduling

/-!
# Where the scheduler stalls

The loop of the scheduler ends when no pass is ready.  By then it has taken every pass that is to be
scheduled but those on a cycle of such passes or behind one, and these follow in the order of
declaration.  `Visits` are the states between two choices: of each of them it is known what the
counters count, so that none is lowered below zero, and that the passes taken so far are the first
ones of the order.

Principal statements: `Progress.mem_iff_not_behindCycle`, `Visits.countsDown`, and
`schedule_enumerates`: for every graph the order has all passes that are to be scheduled, once, and
those that can come after their dependencies do.
-/

set_option autoImplicit false

namespace FrameGraph

open Relation

/-! ## Counters that stay above zero -/

/-- Holds if every counter is above zero when its turn comes to be lowered. -/
def CountsDown : List Nat → List Nat → Prop
  | _, [] => True
  | counters, position :: rest =>
      ∃ left, counters[position]? = some (left + 1) ∧ CountsDown (counters.set position left) rest

/-- Different counters, all of them above zero, can be lowered one after another. -/
theorem countsDown_of_pos {positions : List Nat} (hnd : positions.Nodup) {counters : List Nat}
    (hpos : ∀ c ∈ positions, ∃ left, counters[c]? = some (left + 1)) :
    CountsDown counters positions := by
  induction positions generalizing counters with
  | nil => trivial
  | cons position rest ih =>
      obtain ⟨hnew, hrest⟩ := List.nodup_cons.1 hnd
      obtain ⟨left, hleft⟩ := hpos position List.mem_cons_self
      refine ⟨left, hleft, ih hrest ?_⟩
      intro c hc
      have hne : position ≠ c := by
        rintro rfl
        exact hnew hc
      rw [List.getElem?_set_ne hne]
      exact hpos c (List.mem_cons_of_mem _ hc)

namespace ScheduleInput

variable {s : ScheduleInput}

/-- A graph of accepted edges over the passes, with one mark for each of them. -/
theorem wellFormed_of_insertEdges {passes : List Pass} {edges : List Edge} {graph : DependencyGraph}
    (hgraph : (DependencyGraph.edgeless passes.length).insertEdges edges = .ok graph)
    {reachable : List Bool} (hlength : reachable.length = passes.length) (registry : Registry) :
    WellFormed ⟨passes, graph, reachable, registry⟩ where
  consistent := (DependencyGraph.consistent_of_insertEdges hgraph).1
  passCount_eq := (DependencyGraph.consistent_of_insertEdges hgraph).2
  length_reachable := hlength

/-! ## What stops the loop -/

/-- One pass that is to be scheduled depends on another one. -/
def Links (s : ScheduleInput) (producer consumer : Nat) : Prop :=
  s.graph.HasEdge producer consumer ∧ s.wants producer = true ∧ s.wants consumer = true

theorem WellFormed.lt_of_links (hs : s.WellFormed) {p c : Nat} (h : s.Links p c) :
    p < s.passes.length :=
  hs.lt_of_wants h.2.1

/-- A pass without unscheduled dependencies follows from those on which it depends. -/
theorem pending_eq_zero_of_links (hs : s.WellFormed) {order : List Nat} {c : Nat}
    (hc : s.wants c = true) (h : ∀ p, s.Links p c → p ∈ order) : s.pending order c = 0 := by
  apply (pending_eq_zero_iff hs).2
  intro p hedge hp
  exact h p ⟨hedge, hp, hc⟩

/-- Every pass that can be reached from its dependencies upwards is taken by the loop. -/
theorem Progress.mem_of_acc (hs : s.WellFormed) {counts order : List Nat}
    (hp : s.Progress counts order []) {c : Nat} (hacc : Acc s.Links c) (hc : s.wants c = true) :
    c ∈ order := by
  induction hacc with
  | intro c _ ih =>
      have hzero : s.pending order c = 0 :=
        pending_eq_zero_of_links hs hc fun p hlink => ih p hlink hlink.2.1
      have hmem := (hp.mem_iff c).2 ⟨hc, hzero⟩
      rwa [List.append_nil] at hmem

/-- What the loop has taken came after its dependencies. -/
theorem Progress.acc_of_mem (hs : s.WellFormed) {counts order ready : List Nat}
    (hp : s.Progress counts order ready) {before after : List Nat} {c : Nat}
    (hsplit : order = before ++ c :: after) : Acc s.Links c := by
  induction hlen : before.length using Nat.strongRecOn generalizing before after c with
  | ind n ih =>
      apply Acc.intro
      intro p hlink
      have hzero := hp.ordered before c after hsplit
      have hmem : p ∈ before := (pending_eq_zero_iff hs).1 hzero p hlink.1 hlink.2.1
      obtain ⟨first, rest, rfl⟩ := List.append_of_mem hmem
      have hfirst : order = first ++ p :: (rest ++ c :: after) := by simp [hsplit]
      refine ih first.length ?_ hfirst rfl
      simp only [List.length_append, List.length_cons] at hlen
      omega

/-- **The loop stops at the cycles**: it takes all passes that are to be scheduled but those on a
cycle or behind one. -/
theorem Progress.mem_iff_not_behindCycle (hs : s.WellFormed) {counts order : List Nat}
    (hp : s.Progress counts order []) {c : Nat} :
    c ∈ order ↔ s.wants c = true ∧ ¬ BehindCycle s.Links c := by
  constructor
  · intro hc
    obtain ⟨before, after, hsplit⟩ := List.append_of_mem hc
    have hwants : s.wants c = true := ((hp.mem_iff c).1 (by simpa using hc)).1
    exact ⟨hwants, not_behindCycle_of_acc (hp.acc_of_mem hs hsplit)⟩
  · rintro ⟨hwants, hbehind⟩
    have hacc := acc_of_not_behindCycle (fun p _ => hs.lt_of_links (p := p)) hbehind
    exact hp.mem_of_acc hs hacc hwants

/-- What depends on a ready pass still waits for it, so the counters of these passes can be lowered. -/
theorem Progress.countsDown (hs : s.WellFormed) {counts order ready : List Nat}
    (hp : s.Progress counts order ready) {next : Nat} (hnext : next ∈ ready) :
    CountsDown counts ((s.graph.successorsOf next).filter s.wants) := by
  have hnew : next ∉ order := by
    intro hmem
    exact (List.nodup_append.1 hp.nodup).2.2 next hmem next hnext rfl
  have hwants : s.wants next = true :=
    ((hp.mem_iff next).1 (List.mem_append_right _ hnext)).1
  apply countsDown_of_pos (nodup_lowered hs next)
  intro c hc
  obtain ⟨hedge, hc⟩ := (mem_lowered hs).1 hc
  have hpos : s.pending order c ≠ 0 := by
    intro hzero
    exact hnew ((pending_eq_zero_iff hs).1 hzero next hedge hwants)
  obtain ⟨left, hleft⟩ := Nat.exists_eq_succ_of_ne_zero hpos
  exact ⟨left, by rw [hp.counts_eq c hc, hleft]⟩

/-! ## The states between two choices -/

/-- The pass that is chosen in a state of the scheduler. -/
def chosen (s : ScheduleInput) (layouts : HandleMap Layout) (order : List Nat) (first : Nat)
    (rest : List Nat) : Nat :=
  pick (s.priority s.importDistances layouts order.getLast?) first rest

/-- The states in which the scheduler chooses: its counters, the simulated layouts, the passes that
have been scheduled and those that are ready. -/
inductive Visits (s : ScheduleInput) :
    List Nat → HandleMap Layout → List Nat → List Nat → Prop
  | start : s.Visits s.dependencyCounts s.initialLayouts [] s.initiallyReady
  | choose {counts : List Nat} {layouts : HandleMap Layout} {order : List Nat} {first : Nat}
      {rest : List Nat} (next : Nat) :
      s.Visits counts layouts order (first :: rest) → next = s.chosen layouts order first rest →
      s.Visits (countDown counts ((s.graph.successorsOf next).filter s.wants)).1
        (s.layoutsAfter layouts next) (order ++ [next])
        ((first :: rest).erase next ++
          (countDown counts ((s.graph.successorsOf next).filter s.wants)).2)

theorem chosen_mem (layouts : HandleMap Layout) (order : List Nat) (first : Nat)
    (rest : List Nat) : s.chosen layouts order first rest ∈ first :: rest :=
  pick_mem _ _ _

section Visited

variable {counts : List Nat} {layouts : HandleMap Layout} {order ready : List Nat}

theorem Visits.progress (hs : s.WellFormed) (hv : s.Visits counts layouts order ready) :
    s.Progress counts order ready := by
  induction hv with
  | start => exact progress_start hs
  | @choose counts layouts order first rest next _ hnext ih =>
      apply ih.step hs
      rw [hnext]
      exact chosen_mem layouts order first rest

/-- From each of its states the loop goes on to the same order. -/
theorem Visits.extend_eq (hv : s.Visits counts layouts order ready) :
    s.extend s.importDistances counts layouts order ready = s.greedyOrder := by
  induction hv with
  | start => rfl
  | @choose counts layouts order first rest next _ hnext ih =>
      rw [extend] at ih
      subst hnext
      exact ih

theorem prefix_extend (s : ScheduleInput) (distances : List (Option Nat)) (counts : List Nat)
    (layouts : HandleMap Layout) (order ready : List Nat) :
    order <+: s.extend distances counts layouts order ready := by
  fun_induction ScheduleInput.extend s distances counts layouts order ready with
  | case1 => exact List.prefix_refl _
  | case2 counts layouts order first rest next counted ih =>
      exact (List.prefix_append order [next]).trans ih

/-- What has been scheduled so far comes first in the order. -/
theorem Visits.prefix_greedyOrder (hv : s.Visits counts layouts order ready) :
    order <+: s.greedyOrder := by
  rw [← hv.extend_eq]
  exact prefix_extend s _ counts layouts order ready

/-- The passes at the beginning of the order lead to a state of the scheduler. -/
theorem exists_visits_take (s : ScheduleInput) {k : Nat} (hk : k ≤ s.greedyOrder.length) :
    ∃ counts layouts ready, s.Visits counts layouts (s.greedyOrder.take k) ready := by
  induction k with
  | zero => exact ⟨_, _, _, .start⟩
  | succ k ih =>
      obtain ⟨counts, layouts, ready, hv⟩ := ih (by omega)
      cases ready with
      | nil =>
          -- A state without ready passes is the last one.
          have hlast := hv.extend_eq
          rw [extend] at hlast
          have hlen := congrArg List.length hlast
          rw [List.length_take] at hlen
          omega
      | cons first rest =>
          have hnext := hv.choose _ rfl
          have hprefix := hnext.prefix_greedyOrder
          have htake : s.greedyOrder.take k ++ [s.chosen layouts (s.greedyOrder.take k) first rest] =
              s.greedyOrder.take (k + 1) := by
            rw [List.prefix_iff_eq_take.1 hprefix]
            congr 1
            simp only [List.length_append, List.length_take, List.length_singleton]
            omega
          exact ⟨_, _, _, htake ▸ hnext⟩

/-- Every pass of the order was chosen in the state that the passes before it lead to. -/
theorem exists_visits_of_split (s : ScheduleInput) {before after : List Nat} {next : Nat}
    (hsplit : s.greedyOrder = before ++ next :: after) :
    ∃ counts layouts first rest, s.Visits counts layouts before (first :: rest) ∧
      next = s.chosen layouts before first rest := by
  have hlen : before.length + 1 ≤ s.greedyOrder.length := by
    rw [hsplit]
    simp
  have htake : s.greedyOrder.take before.length = before := by
    rw [hsplit]
    simp
  obtain ⟨counts, layouts, ready, hv⟩ := s.exists_visits_take (Nat.le_of_succ_le hlen)
  rw [htake] at hv
  cases ready with
  | nil =>
      have hlast := hv.extend_eq
      rw [extend] at hlast
      rw [← hlast] at hlen
      omega
  | cons first rest =>
      obtain ⟨later, hlater⟩ := (hv.choose _ rfl).prefix_greedyOrder
      rw [hsplit, List.append_assoc] at hlater
      have hcons := List.append_cancel_left hlater
      simp only [List.singleton_append, List.cons.injEq] at hcons
      exact ⟨counts, layouts, first, rest, hv, hcons.1.symm⟩

/-- **No counter is lowered below zero**: the passes that depend on the chosen one still wait for it. -/
theorem Visits.countsDown (hs : s.WellFormed) (hv : s.Visits counts layouts order ready) {next : Nat}
    (hnext : next ∈ ready) : CountsDown counts ((s.graph.successorsOf next).filter s.wants) :=
  (hv.progress hs).countsDown hs hnext

end Visited

/-! ## The order -/

theorem mem_greedyOrder_iff (hs : s.WellFormed) {c : Nat} :
    c ∈ s.greedyOrder ↔ s.wants c = true ∧ ¬ BehindCycle s.Links c := by
  obtain ⟨counts, hp⟩ := progress_greedyOrder hs
  exact hp.mem_iff_not_behindCycle hs

theorem mem_missing_greedyOrder_iff (hs : s.WellFormed) {c : Nat} :
    c ∈ s.missing s.greedyOrder ↔ s.wants c = true ∧ BehindCycle s.Links c := by
  rw [mem_missing, mem_greedyOrder_iff hs]
  constructor
  · rintro ⟨-, hc, hnot⟩
    exact ⟨hc, Classical.byContradiction fun hbehind => hnot ⟨hc, hbehind⟩⟩
  · rintro ⟨hc, hbehind⟩
    exact ⟨hs.lt_of_wants hc, hc, fun h => h.2 hbehind⟩

/-- Whether or not the loop has stalled, what it lacks comes behind. -/
theorem value_order_eq (hs : s.WellFormed) :
    s.order.value = s.greedyOrder ++ s.missing s.greedyOrder := by
  unfold order
  dsimp only
  split
  · next hlen =>
      have hnone : s.missing s.greedyOrder = [] := by
        apply List.eq_nil_iff_forall_not_mem.2
        intro c hc
        obtain ⟨-, hwants, hnot⟩ := mem_missing.1 hc
        exact hnot (mem_of_length_eq hs (nodup_greedyOrder hs)
          (fun d hd => wants_of_mem_greedyOrder hs hd) hlen hwants)
      rw [hnone, List.append_nil]
      rfl
  · rfl

/-- A pass that is not behind a cycle comes after what it depends on. -/
theorem idxOf_lt_of_links (hs : s.WellFormed) {p c : Nat} (hlink : s.Links p c)
    (hc : ¬ BehindCycle s.Links c) : s.order.value.idxOf p < s.order.value.idxOf c := by
  have hp : ¬ BehindCycle s.Links p := fun hbehind => hc (hbehind.tail hlink)
  have hmemp : p ∈ s.greedyOrder := (mem_greedyOrder_iff hs).2 ⟨hlink.2.1, hp⟩
  have hmemc : c ∈ s.greedyOrder := (mem_greedyOrder_iff hs).2 ⟨hlink.2.2, hc⟩
  rw [value_order_eq hs, List.idxOf_append_of_mem hmemp, List.idxOf_append_of_mem hmemc]
  exact respects_greedyOrder hs p c hlink.1 hmemp hmemc

/-- A cycle of passes that are to be scheduled is a cycle of the graph. -/
theorem not_behindCycle_of_graph (hacyclic : ∀ c, ¬ TransGen s.graph.HasEdge c c) {c : Nat} :
    ¬ BehindCycle s.Links c := by
  apply not_behindCycle_of_acyclic
  intro d hd
  exact hacyclic d (TransGen.mono (fun _ _ hlink => hlink.1) _ _ hd)

/-- Without cycles the loop does not stall, and the order is its order. -/
theorem value_order_of_acyclic (hs : s.WellFormed) (hacyclic : ∀ c, ¬ TransGen s.graph.HasEdge c c) :
    s.order.value = s.greedyOrder := by
  have hnone : s.missing s.greedyOrder = [] := by
    apply List.eq_nil_iff_forall_not_mem.2
    intro c hc
    exact not_behindCycle_of_graph hacyclic ((mem_missing_greedyOrder_iff hs).1 hc).2
  rw [value_order_eq hs, hnone, List.append_nil]

theorem result_order? (hs : s.WellFormed) : s.order?.result = .ok s.order.value := by
  have hlen : ¬ s.reachable.length < s.passes.length := by
    rw [hs.length_reachable]
    exact Nat.lt_irrefl _
  rw [order?, if_neg hlen]
  rfl

end ScheduleInput

/-- **The scheduler enumerates the passes that are marked.**  Whatever the marks and the edges, cycles
included: scheduling ends without a fault and lowers no counter below zero, and the order has exactly
the marked passes, each once.  A pass that is neither on a cycle of marked passes nor behind one comes
after the marked passes on which it depends; the others come last, in the order of declaration. -/
theorem schedule_enumerates {passes : List Pass} {edges : List Edge} {graph : DependencyGraph}
    (hgraph : (DependencyGraph.edgeless passes.length).insertEdges edges = .ok graph)
    {reachable : List Bool} (hlength : reachable.length = passes.length) (registry : Registry) :
    let s : ScheduleInput := ⟨passes, graph, reachable, registry⟩
    let order := (schedule passes graph reachable registry).value
    s.order?.result = .ok order ∧
      (∀ counts layouts before ready next, s.Visits counts layouts before ready → next ∈ ready →
        CountsDown counts ((graph.successorsOf next).filter s.wants)) ∧
      order.Nodup ∧
      (∀ c, c ∈ order ↔ reachable[c]? = some true) ∧
      (∀ p c, s.Links p c → ¬ BehindCycle s.Links c → order.idxOf p < order.idxOf c) ∧
      (∃ front last, order = front ++ last ∧ last.Pairwise (· < ·) ∧
        (∀ c, c ∈ front ↔ reachable[c]? = some true ∧ ¬ BehindCycle s.Links c) ∧
        ∀ c, c ∈ last ↔ reachable[c]? = some true ∧ BehindCycle s.Links c) ∧
      ((∀ c, ¬ TransGen graph.HasEdge c c) → graph.Respects order) := by
  intro s order
  have hs : s.WellFormed := ScheduleInput.wellFormed_of_insertEdges hgraph hlength registry
  have hwants : ∀ c, s.wants c = true ↔ reachable[c]? = some true := by
    intro c
    show reachable.getD c false = true ↔ _
    rw [List.getD_eq_getElem?_getD]
    cases reachable[c]? <;> simp
  have hmem : ∀ c, c ∈ order ↔ reachable[c]? = some true := by
    intro c
    rw [← hwants]
    exact ScheduleInput.mem_value_order hs
  refine ⟨ScheduleInput.result_order? hs, ?_, ScheduleInput.nodup_value_order hs, hmem, ?_, ?_, ?_⟩
  · intro counts layouts before ready next hv hnext
    exact hv.countsDown hs hnext
  · intro p c hlink hc
    exact ScheduleInput.idxOf_lt_of_links hs hlink hc
  · refine ⟨s.greedyOrder, s.missing s.greedyOrder, ScheduleInput.value_order_eq hs,
      List.pairwise_lt_range.filter _, ?_, ?_⟩
    · intro c
      rw [ScheduleInput.mem_greedyOrder_iff hs, hwants]
    · intro c
      rw [ScheduleInput.mem_missing_greedyOrder_iff hs, hwants]
  · intro hacyclic
    show s.graph.Respects s.order.value
    rw [ScheduleInput.value_order_of_acyclic hs hacyclic]
    exact ScheduleInput.respects_greedyOrder hs

/-- Two passes that wait for each other, with one before them and one behind. -/
def circleEdges : List Edge :=
  [⟨4, 0, .null, .readAfterWrite⟩, ⟨0, 1, .null, .readAfterWrite⟩, ⟨1, 2, .null, .readAfterWrite⟩,
    ⟨2, 1, .null, .writeAfterRead⟩, ⟨2, 3, .null, .readAfterWrite⟩]

def circleGraph : DependencyGraph := circleEdges.foldl DependencyGraph.addEdge (.edgeless 5)

/-- The passes before the circle are ordered, and those from it on follow as declared. -/
theorem schedule_enumerates_circle :
    (DependencyGraph.edgeless 5).insertEdges circleEdges = .ok circleGraph ∧
      ∃ front last, [4, 0, 1, 2, 3] = front ++ last ∧ last.Pairwise (· < ·) ∧
        ∀ c, c ∈ last ↔ (List.replicate 5 true)[c]? = some true ∧
          BehindCycle
            (ScheduleInput.Links ⟨List.replicate 5 default, circleGraph, List.replicate 5 true, .empty⟩)
            c := by
  have hgraph : (DependencyGraph.edgeless 5).insertEdges circleEdges = .ok circleGraph := rfl
  have horder : (schedule (List.replicate 5 default) circleGraph (List.replicate 5 true)
      .empty).value = [4, 0, 1, 2, 3] := by decide +kernel
  obtain ⟨-, -, -, -, -, ⟨front, last, hsplit, hsorted, -, hlast⟩, -⟩ :=
    @schedule_enumerates (List.replicate 5 default) _ _ hgraph (List.replicate 5 true) rfl .empty
  rw [horder] at hsplit
  exact ⟨hgraph, front, last, hsplit, hsorted, hlast⟩

end FrameGraph
