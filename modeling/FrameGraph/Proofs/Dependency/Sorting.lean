import FrameGraph.Dependency.Sort
import FrameGraph.Proofs.Dependency.Hazards
import FrameGraph.Proofs.Scheduling.Stalling

/-!
# Sorting the passes

Sorting takes passes from a queue, with the same counters as the scheduler: it is a schedule of every
pass of the graph, and only the choice among those that are ready is another one.  So it takes each
pass that is neither on a cycle nor behind one, and it takes them in the order of their dependencies.

Principal statements: `mem_drain_iff`, `exists_topologicalSort_of_acyclic`, and
`ofPasses_orders_conflicts`: the edges of an analysis are the hazards between the passes, they can be
sorted, and they lead from each pass to every later one in conflict with it.
-/

set_option autoImplicit false

namespace FrameGraph

open Relation

namespace DependencyGraph

variable {g : DependencyGraph}

/-- The passes of a graph, all of them to be scheduled. -/
def everyPass (g : DependencyGraph) : ScheduleInput where
  passes := List.replicate g.passCount default
  graph := g
  reachable := List.replicate g.passCount true
  registry := .empty

@[simp] theorem graph_everyPass (g : DependencyGraph) : g.everyPass.graph = g := rfl

@[simp] theorem length_passes_everyPass (g : DependencyGraph) :
    g.everyPass.passes.length = g.passCount :=
  List.length_replicate

@[simp] theorem wants_everyPass (g : DependencyGraph) (c : Nat) :
    g.everyPass.wants c = decide (c < g.passCount) := by
  simp only [ScheduleInput.wants, everyPass, List.getD_eq_getElem?_getD, List.getElem?_replicate]
  by_cases hc : c < g.passCount <;> simp [hc]

theorem wellFormed_everyPass (hg : g.Consistent) : g.everyPass.WellFormed where
  consistent := hg
  passCount_eq := (length_passes_everyPass g).symm
  length_reachable := by simp [everyPass]

theorem links_everyPass_iff (hg : g.Consistent) {p c : Nat} :
    g.everyPass.Links p c ↔ g.HasEdge p c := by
  constructor
  · intro h
    exact h.1
  · intro h
    obtain ⟨hp, hc⟩ := hg.lt_of_hasEdge h
    exact ⟨h, by simp [hp], by simp [hc]⟩

/-! ## The counters at the beginning -/

theorem dependencyCounts_everyPass (hg : g.Consistent) :
    g.everyPass.dependencyCounts = g.inDegrees := by
  apply List.ext_getElem?
  intro c
  by_cases hc : c < g.passCount
  · have hall : (g.predecessorsOf c).countP g.everyPass.wants = (g.predecessorsOf c).length := by
      apply List.countP_eq_length.2
      intro p hp
      simp [(hg.lt_of_hasEdge (hg.mem_predecessorsOf.1 hp)).1]
    rw [hg.inDegree_eq c hc]
    simp [ScheduleInput.dependencyCounts, hc, hall]
  · have hle : g.inDegrees.length ≤ c := by
      rw [hg.length_inDegrees]
      exact Nat.not_lt.1 hc
    simp [ScheduleInput.dependencyCounts, hc, hle]

theorem initiallyReady_everyPass (hg : g.Consistent) :
    g.everyPass.initiallyReady = g.idle g.inDegrees := by
  rw [ScheduleInput.initiallyReady, dependencyCounts_everyPass hg, length_passes_everyPass, idle]
  apply List.filter_congr
  intro c hc
  simp [List.mem_range.1 hc]

theorem progress_idle (hg : g.Consistent) :
    g.everyPass.Progress g.inDegrees [] (g.idle g.inDegrees) := by
  have hstart := ScheduleInput.progress_start (wellFormed_everyPass hg)
  rwa [dependencyCounts_everyPass hg, initiallyReady_everyPass hg] at hstart

/-! ## Draining the queue -/

/-- No successor is left out. -/
theorem filter_wants_successorsOf (hg : g.Consistent) (pass : Nat) :
    (g.successorsOf pass).filter g.everyPass.wants = g.successorsOf pass := by
  apply List.filter_eq_self.2
  intro c hc
  simp [(hg.lt_of_hasEdge (hg.mem_successorsOf.1 hc)).2]

/-- The first pass of the queue is chosen. -/
theorem progress_drain_step (hg : g.Consistent) {counts taken rest : List Nat} {pass : Nat}
    (hp : g.everyPass.Progress counts taken (pass :: rest)) :
    g.everyPass.Progress (countDown counts (g.successorsOf pass)).1 (taken ++ [pass])
      (rest ++ (countDown counts (g.successorsOf pass)).2) := by
  have hstep := hp.step (wellFormed_everyPass hg) List.mem_cons_self
  rw [graph_everyPass, filter_wants_successorsOf hg, List.erase_cons_head] at hstep
  exact hstep

theorem progress_drain (hg : g.Consistent) {counts queue taken : List Nat}
    (hp : g.everyPass.Progress counts taken queue) :
    g.everyPass.Progress (g.drain counts queue taken).2 (g.drain counts queue taken).1 [] := by
  fun_induction drain g counts queue taken with
  | case1 => exact hp
  | case2 counts taken pass rest ih => exact ih (progress_drain_step hg hp)

/-- What the drained queue has taken, and what the counters say by then. -/
theorem progress_sorted (hg : g.Consistent) :
    g.everyPass.Progress (g.drain g.inDegrees (g.idle g.inDegrees) []).2
      (g.drain g.inDegrees (g.idle g.inDegrees) []).1 [] :=
  progress_drain hg (progress_idle hg)

/-- **The passes taken are those that are neither on a cycle nor behind one.** -/
theorem mem_drain_iff (hg : g.Consistent) {c : Nat} :
    c ∈ (g.drain g.inDegrees (g.idle g.inDegrees) []).1 ↔
      c < g.passCount ∧ ¬ BehindCycle g.HasEdge c := by
  have hlinks : g.everyPass.Links = g.HasEdge := by
    funext p d
    exact propext (links_everyPass_iff hg)
  rw [(progress_sorted hg).mem_iff_not_behindCycle (wellFormed_everyPass hg), hlinks]
  simp

/-- **Without cycles sorting succeeds**: the answer has each pass once, after those on which it
depends. -/
theorem exists_topologicalSort_of_acyclic (hg : g.Consistent)
    (hacyclic : ∀ c, ¬ TransGen g.HasEdge c c) :
    ∃ order, g.topologicalSort = .ok order ∧ order.Perm (List.range g.passCount) ∧
      g.Respects order := by
  have hp := progress_sorted hg
  have hnd := hp.nodup
  rw [List.append_nil] at hnd
  have hperm : (g.drain g.inDegrees (g.idle g.inDegrees) []).1.Perm (List.range g.passCount) := by
    apply (List.perm_ext_iff_of_nodup hnd List.nodup_range).2
    intro c
    rw [mem_drain_iff hg, List.mem_range]
    exact and_iff_left (not_behindCycle_of_acyclic hacyclic)
  refine ⟨_, topologicalSort_eq_ok_iff.2 ⟨rfl, ?_⟩, hperm, hp.respects (wellFormed_everyPass hg)⟩
  rw [hperm.length_eq, List.length_range]

/-- Edges that all lead to later passes form no cycle. -/
theorem acyclic_of_forward (hforward : ∀ p c, g.HasEdge p c → p < c) (c : Nat) :
    ¬ TransGen g.HasEdge c c := by
  intro h
  have hlt : TransGen (fun a b : Nat => a < b) c c := TransGen.mono hforward _ _ h
  rw [transGen_eq_self] at hlt
  exact Nat.lt_irrefl c hlt

end DependencyGraph

/-- **The analysis finds exactly the hazards, and they order every conflict.**  A read depends on the
last writer before it, a write on the last writer and on those who have read since then, and there are
no other edges.  So every edge leads to a later pass, the passes can be sorted, and from a pass a path of
edges on the resource leads to each later one in conflict with it. -/
theorem ofPasses_orders_conflicts (passes : List Pass) :
    let g := DependencyGraph.ofPasses passes
    (∀ p c h, ⟨p, c, h, .readAfterWrite⟩ ∈ g.edges ↔
        readsAt passes c h = true ∧ IsLastWriter passes h c p) ∧
      (∀ p c h, ⟨p, c, h, .writeAfterWrite⟩ ∈ g.edges ↔
        writesAt passes c h = true ∧ IsLastWriter passes h c p) ∧
      (∀ p c h, ⟨p, c, h, .writeAfterRead⟩ ∈ g.edges ↔
        writesAt passes c h = true ∧ IsOpenReader passes h c p) ∧
      (∀ e ∈ g.edges, e.producer < e.consumer ∧ e.consumer < passes.length) ∧
      (∃ order, g.topologicalSort = .ok order ∧ order.Perm (List.range passes.length) ∧
        g.Respects order) ∧
      ∀ h i j, i < j → Conflict passes h i j → TransGen (g.HasEdgeOn h) i j := by
  intro g
  refine ⟨fun p c h => mem_edges_ofPasses, fun p c h => mem_edges_ofPasses,
    fun p c h => mem_edges_ofPasses, fun e he => (mem_edges_ofPasses.1 he).lt, ?_, ?_⟩
  · have hsort := DependencyGraph.exists_topologicalSort_of_acyclic (consistent_ofPasses passes)
      (DependencyGraph.acyclic_of_forward fun _ _ => lt_of_hasEdge_ofPasses)
    rwa [passCount_ofPasses] at hsort
  · intro h i j hij hconflict
    exact path_of_conflict hij hconflict

end FrameGraph
