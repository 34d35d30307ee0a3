import FrameGraph.Dependency.Graph

/-!
# The tables of a dependency graph

A dependency graph keeps its edges and, beside them, for every pass the list of its successors, the
list of its predecessors and its in-degree.  `Consistent` says that the tables are those of the
edges.

Principal statements: `Consistent.addEdge` — adding an edge keeps the tables those of the edges —
`Built.consistent`, `consistent_of_insertEdges`: so does building a graph edge by edge — and
`tables_follow_edges`, what the tables of a list of edges hold.
-/

set_option autoImplicit false

namespace FrameGraph

namespace DependencyGraph

/-- Some edge leads from one pass to another. -/
def HasEdge (g : DependencyGraph) (producer consumer : Nat) : Prop :=
  ∃ e ∈ g.edges, e.producer = producer ∧ e.consumer = consumer

instance (g : DependencyGraph) (producer consumer : Nat) :
    Decidable (g.HasEdge producer consumer) :=
  inferInstanceAs (Decidable (∃ e ∈ g.edges, e.producer = producer ∧ e.consumer = consumer))

/-- The tables are those of the edges: each neighbour is listed once, and no edge leads from a pass
to itself or out of the graph. -/
structure Consistent (g : DependencyGraph) : Prop where
  length_successors : g.successors.length = g.passCount
  length_predecessors : g.predecessors.length = g.passCount
  length_inDegrees : g.inDegrees.length = g.passCount
  within : ∀ e ∈ g.edges, e.producer < g.passCount ∧ e.consumer < g.passCount
  irreflexive : ∀ e ∈ g.edges, e.producer ≠ e.consumer
  mem_successorsOf : ∀ {p c : Nat}, c ∈ g.successorsOf p ↔ g.HasEdge p c
  mem_predecessorsOf : ∀ {p c : Nat}, p ∈ g.predecessorsOf c ↔ g.HasEdge p c
  nodup_successorsOf : ∀ p, (g.successorsOf p).Nodup
  nodup_predecessorsOf : ∀ c, (g.predecessorsOf c).Nodup
  inDegree_eq : ∀ c < g.passCount, g.inDegrees[c]? = some (g.predecessorsOf c).length

theorem Consistent.lt_of_hasEdge {g : DependencyGraph} (hg : g.Consistent) {p c : Nat}
    (h : g.HasEdge p c) : p < g.passCount ∧ c < g.passCount := by
  obtain ⟨e, he, rfl, rfl⟩ := h
  exact hg.within e he

theorem Consistent.not_hasEdge_self {g : DependencyGraph} (hg : g.Consistent) (p : Nat) :
    ¬ g.HasEdge p p := by
  rintro ⟨e, he, hproducer, hconsumer⟩
  exact hg.irreflexive e he (hproducer.trans hconsumer.symm)

/-! ## The tables of a graph without edges -/

theorem consistent_edgeless (passCount : Nat) : (edgeless passCount).Consistent where
  length_successors := List.length_replicate
  length_predecessors := List.length_replicate
  length_inDegrees := List.length_replicate
  within := fun e he => by cases he
  irreflexive := fun e he => by cases he
  mem_successorsOf := by
    intro p c
    simp only [successorsOf, edgeless, HasEdge, List.getD_eq_getElem?_getD, List.getElem?_replicate]
    split <;> simp
  mem_predecessorsOf := by
    intro p c
    simp only [predecessorsOf, edgeless, HasEdge, List.getD_eq_getElem?_getD,
      List.getElem?_replicate]
    split <;> simp
  nodup_successorsOf := by
    intro p
    simp only [successorsOf, edgeless, List.getD_eq_getElem?_getD, List.getElem?_replicate]
    split <;> simp
  nodup_predecessorsOf := by
    intro c
    simp only [predecessorsOf, edgeless, List.getD_eq_getElem?_getD, List.getElem?_replicate]
    split <;> simp
  inDegree_eq := by
    intro c hc
    have hlt : c < passCount := hc
    simp [predecessorsOf, edgeless, hlt]

/-! ## The tables after an edge -/

private theorem getD_modify {α : Type} (l : List α) (f : α → α) {i : Nat} (hi : i < l.length)
    (j : Nat) (d : α) :
    (l.modify i f).getD j d = if i = j then f (l.getD j d) else l.getD j d := by
  rw [List.getD_eq_getElem?_getD, List.getD_eq_getElem?_getD, List.getElem?_modify]
  by_cases h : i = j
  · subst h
    simp [List.getElem?_eq_getElem hi]
  · simp [h]

variable {g : DependencyGraph} {e : Edge}

theorem hasEdge_addEdge (hne : e.producer ≠ e.consumer) (p c : Nat) :
    (g.addEdge e).HasEdge p c ↔ g.HasEdge p c ∨ e.producer = p ∧ e.consumer = c := by
  simp only [HasEdge, edges_addEdge hne, List.mem_append, List.mem_singleton]
  constructor
  · rintro ⟨e', he' | rfl, hp, hc⟩
    · exact .inl ⟨e', he', hp, hc⟩
    · exact .inr ⟨hp, hc⟩
  · rintro (⟨e', he', hp, hc⟩ | ⟨hp, hc⟩)
    · exact ⟨e', .inl he', hp, hc⟩
    · exact ⟨e, .inr rfl, hp, hc⟩

/-- The passes become neighbours unless they are: a new neighbour is listed last. -/
theorem successorsOf_addEdge (hg : g.Consistent) (hp : e.producer < g.passCount)
    (hne : e.producer ≠ e.consumer) (q : Nat) :
    (g.addEdge e).successorsOf q =
      if e.producer = q ∧ e.consumer ∉ g.successorsOf e.producer then g.successorsOf q ++ [e.consumer]
      else g.successorsOf q := by
  have hlen : e.producer < g.successors.length := by rw [hg.length_successors]; exact hp
  by_cases hold : e.consumer ∈ g.successorsOf e.producer
  · rw [if_neg fun h => h.2 hold, addEdge, if_neg hne, link, if_pos hold]
    rfl
  · simp only [addEdge, if_neg hne, link, hold, if_false, not_false_eq_true, and_true]
    exact getD_modify g.successors (· ++ [e.consumer]) hlen q []

theorem predecessorsOf_addEdge (hg : g.Consistent) (hc : e.consumer < g.passCount)
    (hne : e.producer ≠ e.consumer) (q : Nat) :
    (g.addEdge e).predecessorsOf q =
      if e.consumer = q ∧ e.consumer ∉ g.successorsOf e.producer then
        g.predecessorsOf q ++ [e.producer]
      else g.predecessorsOf q := by
  have hlen : e.consumer < g.predecessors.length := by rw [hg.length_predecessors]; exact hc
  by_cases hold : e.consumer ∈ g.successorsOf e.producer
  · rw [if_neg fun h => h.2 hold, addEdge, if_neg hne, link, if_pos hold]
    rfl
  · simp only [addEdge, if_neg hne, link, hold, if_false, not_false_eq_true, and_true]
    exact getD_modify g.predecessors (· ++ [e.producer]) hlen q []

theorem inDegrees_addEdge (hne : e.producer ≠ e.consumer) (q : Nat) :
    (g.addEdge e).inDegrees[q]? =
      g.inDegrees[q]?.map fun n =>
        if e.consumer = q ∧ e.consumer ∉ g.successorsOf e.producer then n + 1 else n := by
  rw [addEdge, if_neg hne, link]
  by_cases hold : e.consumer ∈ g.successorsOf e.producer
  · simp [hold]
  · simp [hold, List.getElem?_modify]

theorem length_tables_addEdge (hne : e.producer ≠ e.consumer) :
    (g.addEdge e).successors.length = g.successors.length ∧
      (g.addEdge e).predecessors.length = g.predecessors.length ∧
      (g.addEdge e).inDegrees.length = g.inDegrees.length := by
  rw [addEdge, if_neg hne, link]
  split <;> simp

/-- A row to which a neighbour is added, unless it is there already, lists it and all it listed before. -/
private theorem mem_row_iff {rows : Nat → List Nat} {key new : Nat} {fresh : Prop} [Decidable fresh]
    (hold : ¬ fresh → new ∈ rows key) (q n : Nat) :
    (n ∈ if key = q ∧ fresh then rows q ++ [new] else rows q) ↔ n ∈ rows q ∨ key = q ∧ new = n := by
  split
  · next h => simp [h.1, eq_comm]
  · next h =>
      refine ⟨.inl, ?_⟩
      rintro (hn | ⟨rfl, rfl⟩)
      · exact hn
      · exact hold fun hfresh => h ⟨rfl, hfresh⟩

/-- Such a row lists each neighbour once. -/
private theorem nodup_row {rows : Nat → List Nat} {key new : Nat} {fresh : Prop} [Decidable fresh]
    (hfresh : fresh → new ∉ rows key) {q : Nat} (hq : (rows q).Nodup) :
    (if key = q ∧ fresh then rows q ++ [new] else rows q).Nodup := by
  split
  · next h =>
      obtain ⟨rfl, hnew⟩ := h
      refine List.nodup_append.2 ⟨hq, by simp, ?_⟩
      rintro n hn m hm rfl
      exact hfresh hnew (List.mem_singleton.1 hm ▸ hn)
  · exact hq

/-- **The tables stay those of the edges** when an edge within the graph is added. -/
theorem Consistent.addEdge (hg : g.Consistent) (hp : e.producer < g.passCount)
    (hc : e.consumer < g.passCount) : (g.addEdge e).Consistent := by
  by_cases hne : e.producer = e.consumer
  · rw [addEdge_self hne]
    exact hg
  have hwithin : ∀ e' ∈ (g.addEdge e).edges,
      (e'.producer < g.passCount ∧ e'.consumer < g.passCount) ∧ e'.producer ≠ e'.consumer := by
    intro e' he'
    rw [edges_addEdge hne] at he'
    rcases List.mem_append.1 he' with h | h
    · exact ⟨hg.within e' h, hg.irreflexive e' h⟩
    · rw [List.mem_singleton.1 h]
      exact ⟨⟨hp, hc⟩, hne⟩
  -- Whether the passes are neighbours is looked up among the successors, for both tables.
  have hlinked : e.consumer ∈ g.successorsOf e.producer ↔ e.producer ∈ g.predecessorsOf e.consumer :=
    hg.mem_successorsOf.trans hg.mem_predecessorsOf.symm
  obtain ⟨hlenS, hlenP, hlenD⟩ := length_tables_addEdge (g := g) hne
  refine {
    length_successors := by rw [hlenS, passCount_addEdge, hg.length_successors]
    length_predecessors := by rw [hlenP, passCount_addEdge, hg.length_predecessors]
    length_inDegrees := by rw [hlenD, passCount_addEdge, hg.length_inDegrees]
    within := fun e' he' => by rw [passCount_addEdge]; exact (hwithin e' he').1
    irreflexive := fun e' he' => (hwithin e' he').2
    mem_successorsOf := ?_
    mem_predecessorsOf := ?_
    nodup_successorsOf := ?_
    nodup_predecessorsOf := ?_
    inDegree_eq := ?_ }
  · intro p c
    rw [successorsOf_addEdge hg hp hne, hasEdge_addEdge hne, mem_row_iff Decidable.not_not.1,
      hg.mem_successorsOf]
  · intro p c
    rw [predecessorsOf_addEdge hg hc hne, hasEdge_addEdge hne,
      mem_row_iff (hlinked.1 ∘ Decidable.not_not.1), hg.mem_predecessorsOf,
      and_comm (a := e.consumer = c)]
  · intro q
    rw [successorsOf_addEdge hg hp hne]
    exact nodup_row id (hg.nodup_successorsOf q)
  · intro q
    rw [predecessorsOf_addEdge hg hc hne]
    exact nodup_row (mt hlinked.2) (hg.nodup_predecessorsOf q)
  · intro q hq
    rw [passCount_addEdge] at hq
    rw [inDegrees_addEdge hne, hg.inDegree_eq q hq, predecessorsOf_addEdge hg hc hne]
    split <;> simp_all

/-! ## Graphs that are built edge by edge -/

/-- A graph that is built from one without edges by adding edges. -/
inductive Built (passCount : Nat) : DependencyGraph → Prop
  | edgeless : Built passCount (.edgeless passCount)
  | addEdge {g : DependencyGraph} (e : Edge) : Built passCount g → Built passCount (g.addEdge e)

theorem Built.passCount_eq {passCount : Nat} (hg : Built passCount g) : g.passCount = passCount := by
  induction hg with
  | edgeless => rfl
  | addEdge e _ ih => rw [passCount_addEdge, ih]

/-- A graph that is built edge by edge has the tables of its edges, if they lie within it. -/
theorem Built.consistent {passCount : Nat} (hg : Built passCount g)
    (hwithin : ∀ e ∈ g.edges, e.producer < passCount ∧ e.consumer < passCount) :
    g.Consistent := by
  induction hg with
  | edgeless => exact consistent_edgeless passCount
  | @addEdge g e hg ih =>
      by_cases hne : e.producer = e.consumer
      · rw [addEdge_self hne] at hwithin ⊢
        exact ih hwithin
      · rw [edges_addEdge hne] at hwithin
        have hcons := ih fun e' he' => hwithin e' (List.mem_append_left _ he')
        obtain ⟨hp, hc⟩ := hwithin e (List.mem_append_right _ List.mem_cons_self)
        rw [← hg.passCount_eq] at hp hc
        exact hcons.addEdge hp hc

/-! ## Graphs from a list of edges -/

/-- Adding a list of edges is accepted edge by edge. -/
theorem insertEdges_cons_eq_ok_iff {rest : List Edge} {g' : DependencyGraph} :
    g.insertEdges (e :: rest) = .ok g' ↔
      (e.producer = e.consumer ∨ e.producer < g.passCount ∧ e.consumer < g.passCount) ∧
        (g.addEdge e).insertEdges rest = .ok g' := by
  rw [insertEdges, List.foldlM_cons, bind_eq_ok_iff]
  constructor
  · rintro ⟨_, hstep, h⟩
    obtain ⟨hwithin, rfl⟩ := insertEdge_eq_ok_iff.1 hstep
    exact ⟨hwithin, h⟩
  · rintro ⟨hwithin, h⟩
    exact ⟨_, insertEdge_eq_ok_iff.2 ⟨hwithin, rfl⟩, h⟩

/-- **The tables stay those of the edges** when a list of edges is accepted. -/
theorem Consistent.insertEdges {edges : List Edge} {g g' : DependencyGraph} (hg : g.Consistent)
    (h : g.insertEdges edges = .ok g') : g'.Consistent ∧ g'.passCount = g.passCount := by
  induction edges generalizing g with
  | nil =>
      cases h
      exact ⟨hg, rfl⟩
  | cons e rest ih =>
      obtain ⟨hwithin, hrest⟩ := insertEdges_cons_eq_ok_iff.1 h
      have hadd : (g.addEdge e).Consistent := by
        rcases hwithin with hself | ⟨hp, hc⟩
        · rw [addEdge_self hself]
          exact hg
        · exact hg.addEdge hp hc
      obtain ⟨hcons, hcount⟩ := ih hadd hrest
      rw [passCount_addEdge] at hcount
      exact ⟨hcons, hcount⟩

/-- A graph from a list of edges has the tables of its edges. -/
theorem consistent_of_insertEdges {passCount : Nat} {edges : List Edge}
    (h : (edgeless passCount).insertEdges edges = .ok g) :
    g.Consistent ∧ g.passCount = passCount :=
  (consistent_edgeless passCount).insertEdges h

/-- All edges are recorded in order, but those from a pass to itself. -/
theorem edges_foldl_addEdge (edges : List Edge) (g : DependencyGraph) :
    (edges.foldl addEdge g).edges =
      g.edges ++ edges.filter fun e => e.producer ≠ e.consumer := by
  induction edges generalizing g with
  | nil => simp
  | cons e rest ih =>
      rw [List.foldl_cons, ih]
      by_cases hself : e.producer = e.consumer
      · simp [addEdge_self hself, hself]
      · simp [edges_addEdge hself, hself]

/-- Edges within the graph are accepted. -/
theorem insertEdges_eq_ok {edges : List Edge}
    (hwithin : ∀ e ∈ edges, e.producer < g.passCount ∧ e.consumer < g.passCount) :
    g.insertEdges edges = .ok (edges.foldl addEdge g) := by
  induction edges generalizing g with
  | nil => rfl
  | cons e rest ih =>
      refine insertEdges_cons_eq_ok_iff.2 ⟨.inr (hwithin e List.mem_cons_self), ih ?_⟩
      intro e' he'
      rw [passCount_addEdge]
      exact hwithin e' (List.mem_cons_of_mem e he')

/-- **The tables follow the edges.**  Edges within a graph, an edge from a pass to itself and the same
edge twice included, are all accepted, and each is recorded in order but those from a pass to itself.
Whatever they are, one pass is a successor of another if and only if the other is its predecessor, and
that is if and only if an edge leads from the other to it; no pass is listed twice as a neighbour of
another, and none as its own; and every pass has as its in-degree the number of its predecessors. -/
theorem tables_follow_edges {passCount : Nat} {edges : List Edge}
    (hwithin : ∀ e ∈ edges, e.producer < passCount ∧ e.consumer < passCount) :
    let g := edges.foldl addEdge (edgeless passCount)
    (edgeless passCount).insertEdges edges = .ok g ∧
      (g.edges = edges.filter fun e => e.producer ≠ e.consumer) ∧
      (∀ p c, (c ∈ g.successorsOf p ↔ p ∈ g.predecessorsOf c) ∧
        (p ∈ g.predecessorsOf c ↔ ∃ e ∈ g.edges, e.producer = p ∧ e.consumer = c)) ∧
      (∀ p, (g.successorsOf p).Nodup ∧ p ∉ g.successorsOf p) ∧
      (∀ c, (g.predecessorsOf c).Nodup ∧ c ∉ g.predecessorsOf c) ∧
      (g.successors.length = passCount ∧ g.predecessors.length = passCount ∧
        g.inDegrees.length = passCount) ∧
      ∀ c < passCount, g.inDegrees[c]? = some (g.predecessorsOf c).length := by
  intro g
  have hinsert : (edgeless passCount).insertEdges edges = .ok g := insertEdges_eq_ok hwithin
  obtain ⟨hg, hcount⟩ := consistent_of_insertEdges hinsert
  have hsuccessors : ∀ p, p ∉ g.successorsOf p := fun p hp =>
    hg.not_hasEdge_self p (hg.mem_successorsOf.1 hp)
  have hpredecessors : ∀ c, c ∉ g.predecessorsOf c := fun c hc =>
    hg.not_hasEdge_self c (hg.mem_predecessorsOf.1 hc)
  refine ⟨hinsert, edges_foldl_addEdge edges (edgeless passCount),
    fun p c => ⟨hg.mem_successorsOf.trans hg.mem_predecessorsOf.symm, hg.mem_predecessorsOf⟩,
    fun p => ⟨hg.nodup_successorsOf p, hsuccessors p⟩,
    fun c => ⟨hg.nodup_predecessorsOf c, hpredecessors c⟩, ?_, ?_⟩
  · rw [hg.length_successors, hg.length_predecessors, hg.length_inDegrees]
    exact ⟨hcount, hcount, hcount⟩
  · rw [← hcount]
    exact hg.inDegree_eq

/-- Two passes come before a third, one of them for two reasons; one edge leads from a pass to
itself. -/
def parallelEdges : List Edge :=
  [⟨0, 2, .null, .readAfterWrite⟩, ⟨1, 2, .null, .writeAfterRead⟩, ⟨0, 2, .null, .writeAfterWrite⟩,
    ⟨1, 1, .null, .readAfterWrite⟩]

/-- Three edges are recorded, and lead from two predecessors. -/
theorem tables_follow_edges_parallel :
    let g := parallelEdges.foldl addEdge (edgeless 3)
    (∀ e ∈ parallelEdges, e.producer < 3 ∧ e.consumer < 3) ∧ g.edges = parallelEdges.take 3 ∧
      g.successorsOf 0 = [2] ∧ g.predecessorsOf 2 = [0, 1] ∧ g.inDegrees[2]? = some 2 := by
  have hwithin : ∀ e ∈ parallelEdges, e.producer < 3 ∧ e.consumer < 3 := by decide
  have hpredecessors : (parallelEdges.foldl addEdge (edgeless 3)).predecessorsOf 2 = [0, 1] := by
    decide
  obtain ⟨-, hedges, -, -, -, -, hdegrees⟩ := tables_follow_edges hwithin
  refine ⟨hwithin, hedges.trans (by decide), by decide, hpredecessors, ?_⟩
  rw [hdegrees 2 (by decide), hpredecessors]
  rfl

end DependencyGraph

end FrameGraph
