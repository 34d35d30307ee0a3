import FrameGraph.Proofs.Dependency.Distance
import FrameGraph.Proofs.Dependency.Sorting
import FrameGraph.Proofs.Scheduling.Layouts
import FrameGraph.Proofs.Scheduling.Stalling
import Mathlib.Data.Finset.Card
import Mathlib.Data.Prod.Lex

/-!
# The scheduler is greedy

What the scheduler does from list to list and from table to table is described here without them: the
ready passes are those that are to be scheduled and have all their dependencies behind them, and each
of them has a `rank`, a tuple that is read off the passes scheduled so far, the graph and the registry.
An order is greedy if at each of its positions stands the ready pass of the least rank.

Principal statements: `Priority.precedes_iff_key_lt`, `Visits.key_priority` — what speaks for a pass is
its rank — `IsGreedy.unique`, and `schedule_isGreedy`: without cycles the scheduler finds the only greedy
order, in whichever order it keeps the passes that are ready.
-/

set_option autoImplicit false

namespace FrameGraph

open Relation

/-! ## Priorities as tuples -/

namespace Priority

/-- What speaks for a candidate as a tuple; the candidate with the least one is chosen. -/
noncomputable def key (a : Priority) : ℕᵒᵈ ×ₗ ℕ ×ₗ ℕ∞ ×ₗ ℕ :=
  toLex (OrderDual.toDual a.shared, toLex (a.transitions, toLex (distanceOf a.distance, a.index)))

theorem nearer_iff {d e : Option Nat} : nearer d e = true ↔ distanceOf d < distanceOf e := by
  cases d with
  | none => simp [nearer, distanceOf]
  | some d =>
      cases e with
      | none => simp [nearer, distanceOf]
      | some e => simp [nearer, distanceOf]

/-- Candidates are compared as their tuples are, from the first entry on. -/
theorem precedes_iff_key_lt {a b : Priority} : a.precedes b = true ↔ a.key < b.key := by
  unfold precedes key
  simp only [Prod.Lex.toLex_lt_toLex, OrderDual.toDual_lt_toDual, OrderDual.toDual_inj]
  by_cases hshared : a.shared = b.shared
  · by_cases htransitions : a.transitions = b.transitions
    · by_cases hdistance : a.distance = b.distance
      · simp [hshared, htransitions, hdistance]
      · have hne : distanceOf a.distance ≠ distanceOf b.distance :=
          fun h => hdistance (distanceOf_injective h)
        simp [hshared, htransitions, hdistance, hne, nearer_iff]
    · simp [hshared, htransitions]
  · simp [hshared]

theorem index_eq_of_key_eq {a b : Priority} (h : a.key = b.key) : a.index = b.index := by
  have hpair := congrArg (fun k => (ofLex (ofLex (ofLex k).2).2).2) h
  exact hpair

end Priority

/-! ## The choice among candidates -/

/-- The chosen candidate has the least tuple. -/
theorem key_pick_le (priority : Nat → Priority) (first : Nat) (rest : List Nat) :
    ∀ c ∈ first :: rest, (priority (pick priority first rest)).key ≤ (priority c).key := by
  induction rest generalizing first with
  | nil =>
      intro c hc
      rw [List.mem_singleton.1 hc]
      exact le_refl _
  | cons next rest ih =>
      -- The better one of the first two goes on against the others.
      obtain ⟨better, hbetter⟩ :
          ∃ better, better = if (priority next).precedes (priority first) then next else first :=
        ⟨_, rfl⟩
      have hpick : pick priority first (next :: rest) = pick priority better rest := by
        rw [hbetter]
        rfl
      have hle : (priority better).key ≤ (priority first).key ∧
          (priority better).key ≤ (priority next).key := by
        rw [hbetter]
        split
        · next hlt => exact ⟨le_of_lt (Priority.precedes_iff_key_lt.1 hlt), le_refl _⟩
        · next hnot =>
            refine ⟨le_refl _, not_lt.1 ?_⟩
            intro hlt
            exact hnot (Priority.precedes_iff_key_lt.2 hlt)
      have hbest := ih better
      intro c hc
      rw [hpick]
      rcases List.mem_cons.1 hc with rfl | hc
      · exact (hbest better List.mem_cons_self).trans hle.1
      · rcases List.mem_cons.1 hc with rfl | hc
        · exact (hbest better List.mem_cons_self).trans hle.2
        · exact hbest c (List.mem_cons_of_mem _ hc)

/-- The order in which the candidates are listed does not matter. -/
theorem pick_eq_of_perm {priority : Nat → Priority} (hindex : ∀ c, (priority c).index = c)
    {first first' : Nat} {rest rest' : List Nat} (hperm : (first :: rest).Perm (first' :: rest')) :
    pick priority first rest = pick priority first' rest' := by
  have hle := key_pick_le priority first rest _ (hperm.mem_iff.2 (pick_mem priority first' rest'))
  have hge := key_pick_le priority first' rest' _ (hperm.mem_iff.1 (pick_mem priority first rest))
  have hsame := Priority.index_eq_of_key_eq (le_antisymm hle hge)
  rwa [hindex, hindex] at hsame

/-! ## The resources of a pass as a set -/

/-- The resources that the pass accesses. -/
def Pass.touched (p : Pass) : Finset Handle := (p.accesses.map PassAccess.resource).toFinset

theorem nodup_eraseDups {α : Type} [DecidableEq α] (l : List α) : l.eraseDups.Nodup := by
  induction hlen : l.length using Nat.strongRecOn generalizing l with
  | ind n ih =>
      cases l with
      | nil => simp
      | cons a rest =>
          rw [List.eraseDups_cons]
          apply List.nodup_cons.2
          constructor
          · simp
          · refine ih _ ?_ _ rfl
            have := List.length_filter_le (fun b => !b == a) rest
            simp only [List.length_cons] at hlen
            omega

/-- Counting along the list of resources is counting in the set. -/
theorem Pass.countP_resources (p : Pass) (q : Handle → Bool) :
    p.resources.countP q = (p.touched.filter fun h => q h = true).card := by
  have hset : p.touched = p.resources.toFinset := by
    ext h
    simp [touched, resources]
  rw [hset, List.countP_eq_length_filter, ← List.toFinset_filter]
  exact (List.toFinset_card_of_nodup ((nodup_eraseDups _).filter _)).symm

theorem Pass.mem_touched {p : Pass} {h : Handle} : h ∈ p.touched ↔ p.involves h = true := by
  simp [touched, involves]

namespace ScheduleInput

variable {s : ScheduleInput}

/-! ## Ranks -/

/-- The number of resources that a pass has in common with the last one of `before`. -/
def sharedWithLast (s : ScheduleInput) (before : List Nat) (c : Nat) : ℕ :=
  before.getLast?.elim 0 fun last => ((s.passAt last).touched ∩ (s.passAt c).touched).card

/-- The number of images that a pass requires in another layout than the simulated one. -/
def transitionsBehind (s : ScheduleInput) (before : List Nat) (c : Nat) : ℕ :=
  ((s.passAt c).touched.filter fun h =>
    ((s.passAt c).layoutFor? s.registry h).any (· ≠ s.simulatedLayout before h) = true).card

/-- The pass is to be scheduled and accesses an imported resource. -/
def IsTarget (s : ScheduleInput) (t : Nat) : Prop :=
  s.wants t = true ∧ ∃ h ∈ (s.passAt t).touched, ∃ resource,
    s.registry.get? h = some resource ∧ resource.isImported = true

/-- The rank of a pass when those of `before` have been scheduled: the more resources it has in common
with the last of them the better, then the fewer transitions it takes, then the nearer it is to a pass
that accesses an imported resource, and then the earlier it was declared. -/
noncomputable def rank (s : ScheduleInput) (before : List Nat) (c : Nat) : ℕᵒᵈ ×ₗ ℕ ×ₗ ℕ∞ ×ₗ ℕ :=
  toLex (OrderDual.toDual (s.sharedWithLast before c),
    toLex (s.transitionsBehind before c, toLex (s.graph.leastDistance s.IsTarget c, c)))

/-- The pass is to be scheduled and is not yet, but all those are on which it depends. -/
def IsReady (s : ScheduleInput) (before : List Nat) (c : Nat) : Prop :=
  s.wants c = true ∧ c ∉ before ∧ ∀ p, s.graph.HasEdge p c → s.wants p = true → p ∈ before

/-- At each position stands the ready pass of the least rank, as long as there is one. -/
structure IsGreedy (s : ScheduleInput) (order : List Nat) : Prop where
  complete : ∀ c, s.wants c = true → c ∈ order
  ready : ∀ k next, order[k]? = some next → s.IsReady (order.take k) next
  least : ∀ k next, order[k]? = some next → ∀ c, s.IsReady (order.take k) c → c ≠ next →
    s.rank (order.take k) next < s.rank (order.take k) c

/-- What stands behind the first passes of a greedy order. -/
theorem IsGreedy.of_split {order before after : List Nat} {next : Nat} (hg : s.IsGreedy order)
    (hsplit : order = before ++ next :: after) :
    s.IsReady before next ∧
      ∀ c, s.IsReady before c → c ≠ next → s.rank before next < s.rank before c := by
  have hnext : order[before.length]? = some next := by simp [hsplit]
  have htake : order.take before.length = before := by simp [hsplit]
  have hready := hg.ready before.length next hnext
  have hleast := hg.least before.length next hnext
  rw [htake] at hready hleast
  exact ⟨hready, hleast⟩

/-- At the end of a greedy order no pass is ready any more. -/
theorem IsGreedy.not_isReady {order : List Nat} (hg : s.IsGreedy order) (c : Nat) :
    ¬ s.IsReady order c := by
  intro hready
  exact hready.2.1 (hg.complete c hready.1)

/-- There is at most one greedy order. -/
theorem IsGreedy.unique {order other : List Nat} (hg : s.IsGreedy order) (hg' : s.IsGreedy other) :
    order = other := by
  -- The induction is on what is left of one order behind the passes that both have in common.
  have hsuffix : ∀ rest before rest' : List Nat, order = before ++ rest → other = before ++ rest' →
      rest = rest' := by
    intro rest
    induction rest with
    | nil =>
        intro before rest' hsplit hsplit'
        rw [List.append_nil] at hsplit
        cases rest' with
        | nil => rfl
        | cons b rest' => exact absurd (hg'.of_split hsplit').1 (hsplit ▸ hg.not_isReady b)
    | cons a rest ih =>
        intro before rest' hsplit hsplit'
        obtain ⟨hready, hleast⟩ := hg.of_split hsplit
        cases rest' with
        | nil =>
            rw [List.append_nil] at hsplit'
            exact absurd hready (hsplit' ▸ hg'.not_isReady a)
        | cons b rest' =>
            obtain ⟨hready', hleast'⟩ := hg'.of_split hsplit'
            have hsame : a = b := by
              by_contra hne
              exact lt_asymm (hleast b hready' (Ne.symm hne)) (hleast' a hready hne)
            subst hsame
            rw [ih (before ++ [a]) rest' (by simp [hsplit]) (by simp [hsplit'])]
  exact hsuffix order [] other rfl rfl

/-! ## The ranks are what the scheduler compares -/

theorem sharedWithLast_eq (s : ScheduleInput) (before : List Nat) (distances : List (Option Nat))
    (layouts : HandleMap Layout) (c : Nat) :
    (s.priority distances layouts before.getLast? c).shared = s.sharedWithLast before c := by
  unfold sharedWithLast priority
  cases before.getLast? with
  | none => rfl
  | some last =>
      show (s.passAt last).resources.countP (s.passAt c).involves = _
      rw [Pass.countP_resources]
      congr 1
      ext h
      simp [Pass.mem_touched]

theorem Simulates.transitionCount_eq {before : List Nat} {layouts : HandleMap Layout}
    (hs : s.Simulates before layouts) (c : Nat) :
    (s.passAt c).transitionCount s.registry layouts = s.transitionsBehind before c := by
  unfold transitionsBehind
  rw [← Pass.countP_resources]
  apply List.countP_congr
  intro h _
  cases hlayout : (s.passAt c).layoutFor? s.registry h with
  | none => simp
  | some layout =>
      have hsome : ((s.passAt c).layoutFor? s.registry h).isSome = true := by simp [hlayout]
      obtain ⟨-, resource, hget, hkind⟩ := Pass.isSome_layoutFor?.1 hsome
      simp [hs h resource hget hkind, ne_comm]

theorem isTarget_iff (hs : s.WellFormed) {t : Nat} :
    t ∈ (List.range s.passes.length).filter (fun pass =>
      s.wants pass && (s.passAt pass).involvesImported s.registry) ↔ s.IsTarget t := by
  have himported : (s.passAt t).involvesImported s.registry = true ↔
      ∃ h ∈ (s.passAt t).touched, ∃ resource,
        s.registry.get? h = some resource ∧ resource.isImported = true := by
    simp [Pass.involvesImported, Pass.touched, Pass.resources, Option.any_eq_true]
  rw [List.mem_filter, List.mem_range, Bool.and_eq_true, himported]
  constructor
  · intro h
    exact h.2
  · intro h
    exact ⟨hs.lt_of_wants h.1, h⟩

theorem distanceOf_importDistances (hs : s.WellFormed) (c : Nat) :
    distanceOf (s.importDistances.getD c none) = s.graph.leastDistance s.IsTarget c := by
  have htargets : (· ∈ (List.range s.passes.length).filter fun pass =>
      s.wants pass && (s.passAt pass).involvesImported s.registry) = s.IsTarget := by
    funext t
    exact propext (isTarget_iff hs)
  rw [importDistances, DependencyGraph.distanceOf_distancesTo hs.consistent, htargets]
  intro t ht
  rw [hs.passCount_eq]
  exact hs.lt_of_wants ((isTarget_iff hs).1 ht).1

section Visited

variable {counts : List Nat} {layouts : HandleMap Layout} {before ready : List Nat}

theorem Visits.simulates (hv : s.Visits counts layouts before ready) :
    s.Simulates before layouts := by
  induction hv with
  | start => exact simulates_start s
  | choose next _ _ ih => exact ih.step next

/-- What speaks for a pass is its rank. -/
theorem Visits.key_priority (hs : s.WellFormed) (hv : s.Visits counts layouts before ready)
    (c : Nat) : (s.priority s.importDistances layouts before.getLast? c).key = s.rank before c := by
  unfold Priority.key rank
  rw [sharedWithLast_eq]
  show toLex (_, toLex ((s.passAt c).transitionCount s.registry layouts,
    toLex (distanceOf (s.importDistances.getD c none), c))) = _
  rw [hv.simulates.transitionCount_eq, distanceOf_importDistances hs]

/-- The list of ready passes has those that are ready. -/
theorem Progress.mem_ready_iff (hs : s.WellFormed) (hp : s.Progress counts before ready) {c : Nat} :
    c ∈ ready ↔ s.IsReady before c := by
  have hiff := hp.mem_iff c
  rw [List.mem_append, pending_eq_zero_iff hs] at hiff
  constructor
  · intro hc
    obtain ⟨hwants, hdeps⟩ := hiff.1 (.inr hc)
    refine ⟨hwants, ?_, hdeps⟩
    intro hmem
    exact (List.nodup_append.1 hp.nodup).2.2 c hmem c hc rfl
  · rintro ⟨hwants, hnew, hdeps⟩
    exact (hiff.2 ⟨hwants, hdeps⟩).resolve_left hnew

/-- The pass that is chosen has the least rank among those that are ready. -/
theorem Visits.rank_chosen_lt (hs : s.WellFormed) {first : Nat} {rest : List Nat}
    (hv : s.Visits counts layouts before (first :: rest)) {c : Nat} (hc : c ∈ first :: rest)
    (hne : c ≠ s.chosen layouts before first rest) :
    s.rank before (s.chosen layouts before first rest) < s.rank before c := by
  rw [← hv.key_priority hs, ← hv.key_priority hs]
  apply lt_of_le_of_ne
  · exact key_pick_le _ first rest c hc
  · intro heq
    exact hne (Priority.index_eq_of_key_eq heq).symm

end Visited

/-- The order in which the ready passes are kept does not matter, neither for the next choice nor for
any later one. -/
theorem extend_eq_of_perm (s : ScheduleInput) (distances : List (Option Nat)) (counts : List Nat)
    (layouts : HandleMap Layout) (order : List Nat) {ready ready' : List Nat}
    (hperm : ready.Perm ready') :
    s.extend distances counts layouts order ready = s.extend distances counts layouts order ready' := by
  revert ready'
  fun_induction ScheduleInput.extend s distances counts layouts order ready with
  | case1 counts layouts order =>
      intro ready' hperm
      rw [← hperm.nil_eq, extend]
  | case2 counts layouts order first rest next counted =>
      rename_i ih
      intro ready' hperm
      cases ready' with
      | nil => exact absurd hperm.eq_nil (List.cons_ne_nil _ _)
      | cons first' rest' =>
          have hsame : next = pick (s.priority distances layouts order.getLast?) first' rest' :=
            pick_eq_of_perm (fun _ => rfl) hperm
          rw [extend, ← hsame]
          exact ih ((hperm.erase next).append_right _)

/-- **The loop is greedy** if the graph has no cycles. -/
theorem isGreedy_greedyOrder (hs : s.WellFormed) (hacyclic : ∀ c, ¬ TransGen s.graph.HasEdge c c) :
    s.IsGreedy s.greedyOrder := by
  have hstate : ∀ k next, s.greedyOrder[k]? = some next →
      ∃ counts layouts first rest, s.Visits counts layouts (s.greedyOrder.take k) (first :: rest) ∧
        next = s.chosen layouts (s.greedyOrder.take k) first rest := by
    intro k next hk
    obtain ⟨hlt, hnext⟩ := List.getElem?_eq_some_iff.1 hk
    apply exists_visits_of_split
    rw [← hnext, List.getElem_cons_drop, List.take_append_drop]
  refine { complete := ?_, ready := ?_, least := ?_ }
  · intro c hc
    exact (mem_greedyOrder_iff hs).2 ⟨hc, not_behindCycle_of_graph hacyclic⟩
  · intro k next hk
    obtain ⟨counts, layouts, first, rest, hv, rfl⟩ := hstate k next hk
    exact ((hv.progress hs).mem_ready_iff hs).1 (chosen_mem layouts _ first rest)
  · intro k next hk c hc hne
    obtain ⟨counts, layouts, first, rest, hv, rfl⟩ := hstate k next hk
    exact hv.rank_chosen_lt hs (((hv.progress hs).mem_ready_iff hs).2 hc) hne

end ScheduleInput

/-- **The scheduler finds the greedy order.**  For every registry, graph without cycles and marks,
scheduling ends without a fault, and at each position of its order stands, among the passes whose
dependencies all come before, the one with the strictly least rank.  There is no other such order, and
the scheduler finds it in whichever order it keeps the passes that are ready. -/
theorem schedule_isGreedy {passes : List Pass} {edges : List Edge} {graph : DependencyGraph}
    (hgraph : (DependencyGraph.edgeless passes.length).insertEdges edges = .ok graph)
    {reachable : List Bool} (hlength : reachable.length = passes.length)
    (hacyclic : ∀ c, ¬ TransGen graph.HasEdge c c) (registry : Registry) :
    let s : ScheduleInput := ⟨passes, graph, reachable, registry⟩
    let order := (schedule passes graph reachable registry).value
    s.order?.result = .ok order ∧
      s.IsGreedy order ∧
      (∀ other, s.IsGreedy other → other = order) ∧
      ∀ distances counts layouts before ready ready', ready.Perm ready' →
        s.extend distances counts layouts before ready =
          s.extend distances counts layouts before ready' := by
  intro s order
  have hs : s.WellFormed := ScheduleInput.wellFormed_of_insertEdges hgraph hlength registry
  have hgreedy : s.IsGreedy order := by
    show s.IsGreedy s.order.value
    rw [ScheduleInput.value_order_of_acyclic hs hacyclic]
    exact ScheduleInput.isGreedy_greedyOrder hs hacyclic
  refine ⟨ScheduleInput.result_order? hs, hgreedy, ?_, ?_⟩
  · intro other hother
    exact hother.unique hgreedy
  · intro distances counts layouts before ready ready' hperm
    exact s.extend_eq_of_perm distances counts layouts before hperm

/-- A screen that is handed over, and four images of the graph. -/
def branchingRegistry : Registry :=
  ["first", "second", "third", "fourth"].foldl
    (fun r name => (r.perform (.createImage name {} false)).value.2)
    (Registry.empty.perform (.importImage "screen" 1 2 {} .present .present)).value.2

/-- A pass that samples images and draws on others. -/
def drawsFrom (sampled drawn : List Nat) : Pass where
  name := "draw"
  kind := .graphics .azure
  accesses := sampled.map (fun i => ⟨.slot i 0, .shaderRead, false⟩) ++
    drawn.map fun i => ⟨.slot i 0, .colorAttachment, true⟩

/-- Two branches, declared with one between the passes of the other, that meet on the screen. -/
def branchingPasses : List Pass :=
  [drawsFrom [] [1], drawsFrom [] [2], drawsFrom [2] [3], drawsFrom [1] [4], drawsFrom [3, 4] [0]]

def branchingEdges : List Edge :=
  [⟨1, 2, .slot 2 0, .readAfterWrite⟩, ⟨0, 3, .slot 1 0, .readAfterWrite⟩,
    ⟨2, 4, .slot 3 0, .readAfterWrite⟩, ⟨3, 4, .slot 4 0, .readAfterWrite⟩]

def branchingGraph : DependencyGraph := branchingEdges.foldl DependencyGraph.addEdge (.edgeless 5)

/-- After the first pass of a branch comes the second one, though the other branch was declared before
it. -/
theorem schedule_isGreedy_branching :
    (DependencyGraph.edgeless branchingPasses.length).insertEdges branchingEdges = .ok branchingGraph ∧
      (∀ c, ¬ TransGen branchingGraph.HasEdge c c) ∧
      ScheduleInput.IsGreedy
        ⟨branchingPasses, branchingGraph, List.replicate 5 true, branchingRegistry⟩ [0, 3, 1, 2, 4] := by
  have hgraph : (DependencyGraph.edgeless branchingPasses.length).insertEdges branchingEdges =
      .ok branchingGraph := rfl
  have hforward : ∀ e ∈ branchingGraph.edges, e.producer < e.consumer := by decide
  have hacyclic : ∀ c, ¬ TransGen branchingGraph.HasEdge c c := by
    apply DependencyGraph.acyclic_of_forward
    rintro p c ⟨e, he, rfl, rfl⟩
    exact hforward e he
  have horder : (schedule branchingPasses branchingGraph (List.replicate 5 true)
      branchingRegistry).value = [0, 3, 1, 2, 4] := by decide +kernel
  obtain ⟨-, hgreedy, -⟩ :=
    @schedule_isGreedy _ _ _ hgraph (List.replicate 5 true) rfl hacyclic branchingRegistry
  rw [horder] at hgreedy
  exact ⟨hgraph, hacyclic, hgreedy⟩

end FrameGraph
