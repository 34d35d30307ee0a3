import FrameGraph.Proofs.Dependency.Sorting

/-!
# Sorting decides whether there is a cycle

Whatever edges are added to a graph, sorting comes to an end and never counts below zero.  It answers an
order of all passes exactly if no edges form a cycle; the passes that it answers otherwise are those on
a cycle and those behind one.

Principal statements: `Drains.countsDown`, `mem_waiting_iff`, and `topologicalSort_decides`.
-/

set_option autoImplicit false

namespace FrameGraph

open Relation

namespace DependencyGraph

variable {g : DependencyGraph}

/-! ## The states of the sort -/

/-- The states of the sort: its counters, the queue, and the passes taken so far. -/
inductive Drains (g : DependencyGraph) : List Nat → List Nat → List Nat → Prop
  | start : g.Drains g.inDegrees (g.idle g.inDegrees) []
  | take {counts rest taken : List Nat} (pass : Nat) :
      g.Drains counts (pass :: rest) taken →
      g.Drains (countDown counts (g.successorsOf pass)).1
        (rest ++ (countDown counts (g.successorsOf pass)).2) (taken ++ [pass])

section States

variable {counts queue taken : List Nat}

theorem Drains.progress (hg : g.Consistent) (hd : g.Drains counts queue taken) :
    g.everyPass.Progress counts taken queue := by
  induction hd with
  | start => exact progress_idle hg
  | take pass _ ih => exact progress_drain_step hg ih

/-- **No counter is lowered below zero.** -/
theorem Drains.countsDown (hg : g.Consistent) {pass : Nat} {rest : List Nat}
    (hd : g.Drains counts (pass :: rest) taken) : CountsDown counts (g.successorsOf pass) := by
  have hlowered := (hd.progress hg).countsDown (wellFormed_everyPass hg) List.mem_cons_self
  rwa [graph_everyPass, filter_wants_successorsOf hg] at hlowered

/-- From each of its states the sort goes on to one in which the queue is empty. -/
theorem Drains.drained (hd : g.Drains counts queue taken) :
    g.Drains (g.drain counts queue taken).2 [] (g.drain counts queue taken).1 := by
  fun_induction drain g counts queue taken with
  | case1 => exact hd
  | case2 counts taken pass rest ih => exact ih hd.take

end States

/-! ## The answer -/

/-- The passes at which a count remains are those on a cycle or behind one. -/
theorem mem_waiting_iff (hg : g.Consistent) {c : Nat} :
    c ∈ g.waiting (g.drain g.inDegrees (g.idle g.inDegrees) []).2 ↔ BehindCycle g.HasEdge c := by
  have hp := progress_sorted hg
  rw [waiting, List.mem_filter, List.mem_range, decide_eq_true_eq]
  constructor
  · rintro ⟨hc, hpos⟩
    refine Classical.byContradiction fun hbehind => ?_
    have hmem : c ∈ (g.drain g.inDegrees (g.idle g.inDegrees) []).1 ++ [] := by
      rw [List.append_nil]
      exact (mem_drain_iff hg).2 ⟨hc, hbehind⟩
    obtain ⟨hwants, hzero⟩ := (hp.mem_iff c).1 hmem
    rw [List.getD_eq_getElem?_getD, hp.counts_eq c hwants, hzero] at hpos
    exact Nat.lt_irrefl 0 hpos
  · intro hbehind
    obtain ⟨p, hpc, -⟩ := exists_behindCycle_before hbehind
    have hc : c < g.passCount := (hg.lt_of_hasEdge hpc).2
    have hwants : g.everyPass.wants c = true := by simp [hc]
    refine ⟨hc, Nat.pos_of_ne_zero fun hzero => ?_⟩
    rw [List.getD_eq_getElem?_getD, hp.counts_eq c hwants, Option.getD_some] at hzero
    have hmem := (hp.mem_iff c).2 ⟨hwants, hzero⟩
    rw [List.append_nil] at hmem
    exact ((mem_drain_iff hg).1 hmem).2 hbehind

/-- If the queue runs empty too early, some pass is on a cycle. -/
theorem exists_cycle_of_length_ne (hg : g.Consistent)
    (hlength : (g.drain g.inDegrees (g.idle g.inDegrees) []).1.length ≠ g.passCount) :
    ∃ c, TransGen g.HasEdge c c := by
  refine Classical.byContradiction fun hnone => hlength ?_
  obtain ⟨order, hsort, -, -⟩ :=
    exists_topologicalSort_of_acyclic hg fun c hc => hnone ⟨c, hc⟩
  obtain ⟨rfl, hlen⟩ := topologicalSort_eq_ok_iff.1 hsort
  exact hlen

/-- A pass on a cycle is never taken, so the queue runs empty too early. -/
theorem length_ne_of_cycle (hg : g.Consistent) {c : Nat} (hcycle : TransGen g.HasEdge c c) :
    (g.drain g.inDegrees (g.idle g.inDegrees) []).1.length ≠ g.passCount := by
  intro hlen
  have hp := progress_sorted hg
  have hnd := hp.nodup
  rw [List.append_nil] at hnd
  have hall : (g.drain g.inDegrees (g.idle g.inDegrees) []).1.length =
      g.everyPass.reachable.count true := by
    rw [hlen]
    simp [everyPass]
  have hbehind : BehindCycle g.HasEdge c := ⟨c, hcycle, .refl⟩
  obtain ⟨p, hpc, -⟩ := exists_behindCycle_before hbehind
  have hmem : c ∈ (g.drain g.inDegrees (g.idle g.inDegrees) []).1 := by
    refine ScheduleInput.mem_of_length_eq (wellFormed_everyPass hg) hnd (fun d hd => ?_) hall ?_
    · simp [((mem_drain_iff hg).1 hd).1]
    · simp [(hg.lt_of_hasEdge hpc).2]
  exact ((mem_drain_iff hg).1 hmem).2 hbehind

/-! ## Graphs built by adding edges -/

/-- **Sorting decides whether there is a cycle.**  Whatever edges are added to a graph, an edge from a
pass to itself and the same edge twice included: sorting lowers no counter below zero and comes to an
end.  Either no recorded edges form a cycle, and it answers all passes in an order that every edge
follows; or some do, and it answers in ascending order the passes on a cycle and those behind one. -/
theorem topologicalSort_decides {passCount : Nat} {edges : List Edge}
    (hwithin : ∀ e ∈ edges, e.producer < passCount ∧ e.consumer < passCount) :
    let g := edges.foldl addEdge (edgeless passCount)
    (edgeless passCount).insertEdges edges = .ok g ∧
      (g.edges = edges.filter fun e => e.producer ≠ e.consumer) ∧
      (∀ counts pass rest taken, g.Drains counts (pass :: rest) taken →
        CountsDown counts (g.successorsOf pass)) ∧
      (∃ counts taken, g.Drains counts [] taken) ∧
      match g.topologicalSort with
      | .ok order => (∀ c, ¬ TransGen g.HasEdge c c) ∧ order.Perm (List.range passCount) ∧
          ∀ e ∈ g.edges, order.idxOf e.producer < order.idxOf e.consumer
      | .error stuck => (∃ c, TransGen g.HasEdge c c) ∧ stuck.Pairwise (· < ·) ∧
          ∀ c, c ∈ stuck ↔ BehindCycle g.HasEdge c := by
  intro g
  have hinsert : (edgeless passCount).insertEdges edges = .ok g := insertEdges_eq_ok hwithin
  obtain ⟨hg, hcount⟩ := consistent_of_insertEdges hinsert
  refine ⟨hinsert, edges_foldl_addEdge edges (edgeless passCount),
    fun counts pass rest taken hd => hd.countsDown hg, ⟨_, _, Drains.start.drained⟩, ?_⟩
  by_cases hlength : (g.drain g.inDegrees (g.idle g.inDegrees) []).1.length = g.passCount
  · have hacyclic : ∀ c, ¬ TransGen g.HasEdge c c :=
      fun c hcycle => length_ne_of_cycle hg hcycle hlength
    obtain ⟨order, hsort, hperm, hrespects⟩ := exists_topologicalSort_of_acyclic hg hacyclic
    rw [hsort]
    rw [hcount] at hperm
    refine ⟨hacyclic, hperm, fun e he => ?_⟩
    have hedge : g.HasEdge e.producer e.consumer := ⟨e, he, rfl, rfl⟩
    have hlt := hg.lt_of_hasEdge hedge
    rw [hcount] at hlt
    exact hrespects _ _ hedge (hperm.mem_iff.2 (List.mem_range.2 hlt.1))
      (hperm.mem_iff.2 (List.mem_range.2 hlt.2))
  · have hsort : g.topologicalSort =
        .error (g.waiting (g.drain g.inDegrees (g.idle g.inDegrees) []).2) := if_neg hlength
    rw [hsort]
    exact ⟨exists_cycle_of_length_ne hg hlength, List.pairwise_lt_range.filter _,
      fun c => mem_waiting_iff hg⟩

/-- Two passes wait for each other; one edge is added twice, and one leads from a pass to itself. -/
def knottedEdges : List Edge :=
  [⟨0, 1, .null, .readAfterWrite⟩, ⟨0, 1, .null, .writeAfterWrite⟩, ⟨4, 4, .null, .readAfterWrite⟩,
    ⟨1, 2, .null, .readAfterWrite⟩, ⟨2, 1, .null, .writeAfterRead⟩, ⟨2, 3, .null, .readAfterWrite⟩]

/-- The circle and what is behind it is answered, but not the pass with an edge to itself. -/
theorem topologicalSort_decides_knotted :
    let g := knottedEdges.foldl addEdge (edgeless 5)
    (∀ e ∈ knottedEdges, e.producer < 5 ∧ e.consumer < 5) ∧
      g.topologicalSort = .error [1, 2, 3] ∧ (∃ c, TransGen g.HasEdge c c) ∧
      ∀ c, c ∈ [1, 2, 3] ↔ BehindCycle g.HasEdge c := by
  have hwithin : ∀ e ∈ knottedEdges, e.producer < 5 ∧ e.consumer < 5 := by decide
  have hsort : (knottedEdges.foldl addEdge (edgeless 5)).topologicalSort = .error [1, 2, 3] := by
    decide +kernel
  have hanswer := (topologicalSort_decides hwithin).2.2.2.2
  rw [hsort] at hanswer
  exact ⟨hwithin, hsort, hanswer.1, hanswer.2.2⟩

end DependencyGraph

end FrameGraph
