import FrameGraph.Dependency.Analysis
import FrameGraph.Proofs.Dependency.Tables
import Mathlib.Data.Nat.Find
import Mathlib.Logic.Relation
import Mathlib.Tactic.Tauto

/-!
# The hazards between passes

Which edges the analysis of a list of passes finds is said here without the analysis: `IsHazard`
speaks only of who reads and who writes.  The analysis walks along the passes with a tracker, and
`Tracks` is what the tracker knows before each pass.

Principal statements: `mem_edges_ofPasses` — the edges are exactly the hazards —
`consistent_ofPasses`, and `path_of_conflict`: two passes that access one resource, at least one of
them to write it, are linked by a path of edges on that resource.
-/

set_option autoImplicit false

namespace FrameGraph

/-! ## Readers and writers -/

/-- Holds if the pass reads the resource. -/
def Pass.reads (p : Pass) (h : Handle) : Bool := p.accesses.any fun a => a.resource = h && !a.isWrite

/-- Holds if the pass writes the resource. -/
def Pass.writes (p : Pass) (h : Handle) : Bool := p.accesses.any fun a => a.resource = h && a.isWrite

/-- A pass involves what it reads or writes. -/
theorem Pass.involves_eq (p : Pass) (h : Handle) : p.involves h = (p.reads h || p.writes h) := by
  rw [Bool.eq_iff_iff]
  simp only [Pass.involves, Pass.reads, Pass.writes, List.any_eq_true, Bool.or_eq_true,
    Bool.and_eq_true, Bool.not_eq_true', decide_eq_true_eq]
  constructor
  · rintro ⟨a, ha, hh⟩
    cases hw : a.isWrite with
    | false => exact .inl ⟨a, ha, hh, hw⟩
    | true => exact .inr ⟨a, ha, hh, hw⟩
  · rintro (⟨a, ha, hh, -⟩ | ⟨a, ha, hh, -⟩) <;> exact ⟨a, ha, hh⟩

section Positions

variable (passes : List Pass)

/-- Holds if the pass at a position of the declaration reads the resource. -/
def readsAt (i : Nat) (h : Handle) : Bool := (passes[i]?).any fun p => p.reads h

/-- Holds if the pass at a position of the declaration writes the resource. -/
def writesAt (i : Nat) (h : Handle) : Bool := (passes[i]?).any fun p => p.writes h

/-- The pass at a position is the last one before a bound that writes the resource. -/
def IsLastWriter (h : Handle) (bound writer : Nat) : Prop :=
  writer < bound ∧ writesAt passes writer h = true ∧
    ∀ k, writer < k → k < bound → writesAt passes k h = false

/-- The pass at a position reads the resource, and no pass from there up to a bound writes it. -/
def IsOpenReader (h : Handle) (bound reader : Nat) : Prop :=
  reader < bound ∧ readsAt passes reader h = true ∧
    ∀ k, reader ≤ k → k < bound → writesAt passes k h = false

/-- The dependencies that the accesses of the passes call for. -/
def IsHazard (e : Edge) : Prop :=
  match e.hazard with
  | .readAfterWrite =>
      readsAt passes e.consumer e.resource = true ∧
        IsLastWriter passes e.resource e.consumer e.producer
  | .writeAfterWrite =>
      writesAt passes e.consumer e.resource = true ∧
        IsLastWriter passes e.resource e.consumer e.producer
  | .writeAfterRead =>
      writesAt passes e.consumer e.resource = true ∧
        IsOpenReader passes e.resource e.consumer e.producer

end Positions

variable {passes : List Pass}

theorem lt_length_of_readsAt {i : Nat} {h : Handle} (hr : readsAt passes i h = true) :
    i < passes.length := by
  obtain ⟨p, hp, -⟩ := (Option.any_eq_true ..).1 hr
  exact (List.getElem?_eq_some_iff.1 hp).1

theorem lt_length_of_writesAt {i : Nat} {h : Handle} (hw : writesAt passes i h = true) :
    i < passes.length := by
  obtain ⟨p, hp, -⟩ := (Option.any_eq_true ..).1 hw
  exact (List.getElem?_eq_some_iff.1 hp).1

/-- If any pass before a bound writes the resource, one of them is the last. -/
theorem exists_isLastWriter {h : Handle} {bound k : Nat} (hk : k < bound)
    (hw : writesAt passes k h = true) : ∃ w, IsLastWriter passes h bound w ∧ k ≤ w := by
  induction bound with
  | zero => omega
  | succ bound ih =>
      cases hb : writesAt passes bound h with
      | true => exact ⟨bound, ⟨Nat.lt_succ_self bound, hb, fun j _ _ => by omega⟩, by omega⟩
      | false =>
          have hne : k ≠ bound := by
            rintro rfl
            rw [hw] at hb
            cases hb
          obtain ⟨w, ⟨hlt, hww, hnone⟩, hle⟩ := ih (by omega)
          refine ⟨w, ⟨by omega, hww, fun j hj hjb => ?_⟩, hle⟩
          rcases Nat.lt_or_ge j bound with hjb' | hjb'
          · exact hnone j hj hjb'
          · rw [show j = bound by omega]
            exact hb

/-- A hazard leads from an earlier pass to a later one. -/
theorem IsHazard.lt {e : Edge} (he : IsHazard passes e) :
    e.producer < e.consumer ∧ e.consumer < passes.length := by
  obtain ⟨p, c, h, hazard⟩ := e
  cases hazard with
  | readAfterWrite => exact ⟨he.2.1, lt_length_of_readsAt he.1⟩
  | writeAfterWrite => exact ⟨he.2.1, lt_length_of_writesAt he.1⟩
  | writeAfterRead => exact ⟨he.2.1, lt_length_of_writesAt he.1⟩

/-! ## One access -/

theorem mem_edges_addEdge {g : DependencyGraph} {e e' : Edge} :
    e' ∈ (g.addEdge e).edges ↔ e' ∈ g.edges ∨ e' = e ∧ e.producer ≠ e.consumer := by
  by_cases h : e.producer = e.consumer
  · simp [DependencyGraph.addEdge_self h, h]
  · simp [DependencyGraph.edges_addEdge h, h]

namespace HazardTracker

theorem mem_edges_dependOnWriter {t : HazardTracker} {pass : Nat} {h : Handle} {hazard : Hazard}
    {e : Edge} :
    e ∈ (t.dependOnWriter pass h hazard).edges ↔
      e ∈ t.graph.edges ∨
        e.consumer = pass ∧ e.resource = h ∧ e.hazard = hazard ∧
          t.lastWriter.get? h = some e.producer ∧ e.producer ≠ pass := by
  unfold dependOnWriter
  cases hw : t.lastWriter.get? h with
  | none => simp
  | some writer =>
      simp only [mem_edges_addEdge, Option.some.injEq]
      constructor
      · rintro (he | ⟨rfl, hne⟩)
        · exact .inl he
        · exact .inr ⟨rfl, rfl, rfl, rfl, hne⟩
      · rintro (he | ⟨hc, hr, hz, hp, hne⟩)
        · exact .inl he
        · obtain ⟨p, c, r, z⟩ := e
          cases hc; cases hr; cases hz; cases hp
          exact .inr ⟨rfl, hne⟩

theorem readersOf_read (t : HazardTracker) (pass : Nat) (h k : Handle) :
    (t.read pass h).readersOf k =
      if k = h ∧ pass ∉ t.readersOf h then t.readersOf k ++ [pass] else t.readersOf k := by
  by_cases hp : pass ∈ t.readersOf h
  · have hsame : (t.read pass h).readers = t.readers := if_pos hp
    rw [readersOf, hsame, if_neg fun hk => hk.2 hp, readersOf]
  · have hnew : (t.read pass h).readers = t.readers.insert h (t.readersOf h ++ [pass]) := if_neg hp
    rw [readersOf, hnew]
    by_cases hk : h = k
    · subst hk
      simp [hp]
    · rw [HandleMap.get?_insert_of_ne _ _ hk, if_neg fun hc => hk hc.1.symm, readersOf]

theorem mem_readersOf_read {t : HazardTracker} {pass : Nat} {h k : Handle} {r : Nat} :
    r ∈ (t.read pass h).readersOf k ↔ r ∈ t.readersOf k ∨ r = pass ∧ k = h := by
  rw [readersOf_read]
  split
  · next hk => simp [hk.1]
  · next hk =>
      refine ⟨.inl, ?_⟩
      rintro (hr | ⟨rfl, rfl⟩)
      · exact hr
      · exact Decidable.not_not.1 fun hnew => hk ⟨rfl, hnew⟩

private theorem mem_foldl_addEdge {readers : List Nat} {pass : Nat} {h : Handle} {e : Edge}
    (g : DependencyGraph) :
    e ∈ (readers.foldl (fun g reader => g.addEdge ⟨reader, pass, h, .writeAfterRead⟩) g).edges ↔
      e ∈ g.edges ∨
        e.consumer = pass ∧ e.resource = h ∧ e.hazard = .writeAfterRead ∧ e.producer ∈ readers ∧
          e.producer ≠ pass := by
  induction readers generalizing g with
  | nil => simp
  | cons reader rest ih =>
      rw [List.foldl_cons, ih, mem_edges_addEdge]
      constructor
      · rintro ((he | ⟨rfl, hne⟩) | ⟨hc, hr, hz, hp, hne⟩)
        · exact .inl he
        · exact .inr ⟨rfl, rfl, rfl, List.mem_cons_self, hne⟩
        · exact .inr ⟨hc, hr, hz, List.mem_cons_of_mem _ hp, hne⟩
      · rintro (he | ⟨hc, hr, hz, hp, hne⟩)
        · exact .inl (.inl he)
        · rcases List.mem_cons.1 hp with hp | hp
          · obtain ⟨p, c, r, z⟩ := e
            cases hc; cases hr; cases hz; cases hp
            exact .inl (.inr ⟨rfl, hne⟩)
          · exact .inr ⟨hc, hr, hz, hp, hne⟩

theorem mem_edges_write {t : HazardTracker} {pass : Nat} {h : Handle} {e : Edge} :
    e ∈ (t.write pass h).graph.edges ↔
      e ∈ t.graph.edges ∨
        e.consumer = pass ∧ e.resource = h ∧ e.producer ≠ pass ∧
          (e.hazard = .writeAfterWrite ∧ t.lastWriter.get? h = some e.producer ∨
            e.hazard = .writeAfterRead ∧ e.producer ∈ t.readersOf h) := by
  simp only [write]
  rw [mem_foldl_addEdge, mem_edges_dependOnWriter]
  constructor
  · rintro ((he | ⟨hc, hr, hz, hw, hne⟩) | ⟨hc, hr, hz, hp, hne⟩)
    · exact .inl he
    · exact .inr ⟨hc, hr, hne, .inl ⟨hz, hw⟩⟩
    · exact .inr ⟨hc, hr, hne, .inr ⟨hz, hp⟩⟩
  · rintro (he | ⟨hc, hr, hne, ⟨hz, hw⟩ | ⟨hz, hp⟩⟩)
    · exact .inl (.inl he)
    · exact .inl (.inr ⟨hc, hr, hz, hw, hne⟩)
    · exact .inr ⟨hc, hr, hz, hp, hne⟩

theorem lastWriter_write (t : HazardTracker) (pass : Nat) (h k : Handle) :
    (t.write pass h).lastWriter.get? k = if k = h then some pass else t.lastWriter.get? k := by
  simp only [write]
  by_cases hk : h = k
  · subst hk
    simp
  · rw [HandleMap.get?_insert_of_ne _ _ hk, if_neg (Ne.symm hk)]

theorem readersOf_write (t : HazardTracker) (pass : Nat) (h k : Handle) :
    (t.write pass h).readersOf k = if k = h then [] else t.readersOf k := by
  simp only [write, readersOf, HandleMap.get?_erase]
  by_cases hk : h = k
  · simp [hk]
  · simp [hk, Ne.symm hk]

/-! ## All accesses of one pass -/

/-- The reads of a pass, in any number and order. -/
theorem foldl_read (t : HazardTracker) (pass : Nat) (handles : List Handle) :
    let after := handles.foldl (fun t h => t.read pass h) t
    after.lastWriter = t.lastWriter ∧
      (∀ h r, r ∈ after.readersOf h ↔ r ∈ t.readersOf h ∨ r = pass ∧ h ∈ handles) ∧
      ∀ e, e ∈ after.graph.edges ↔
        e ∈ t.graph.edges ∨
          e.consumer = pass ∧ e.resource ∈ handles ∧ e.hazard = .readAfterWrite ∧
            t.lastWriter.get? e.resource = some e.producer ∧ e.producer ≠ pass := by
  induction handles generalizing t with
  | nil => simp
  | cons h rest ih =>
      obtain ⟨hwriter, hreaders, hedges⟩ := ih (t.read pass h)
      refine ⟨hwriter, fun k r => ?_, fun e => ?_⟩
      · rw [List.foldl_cons, hreaders, mem_readersOf_read, List.mem_cons]
        tauto
      · have hgraph : e ∈ (t.read pass h).graph.edges ↔ _ := mem_edges_dependOnWriter
        rw [List.foldl_cons, hedges, hgraph, List.mem_cons]
        constructor
        · rintro ((he | ⟨hc, rfl, hz, hw, hne⟩) | ⟨hc, hr, hz, hw, hne⟩)
          · exact .inl he
          · exact .inr ⟨hc, .inl rfl, hz, hw, hne⟩
          · exact .inr ⟨hc, .inr hr, hz, hw, hne⟩
        · rintro (he | ⟨hc, rfl | hr, hz, hw, hne⟩)
          · exact .inl (.inl he)
          · exact .inl (.inr ⟨hc, rfl, hz, hw, hne⟩)
          · exact .inr ⟨hc, hr, hz, hw, hne⟩

/-- The writes of a pass, in any number and order: a second write of a resource adds nothing, as the
pass then is the last writer itself. -/
theorem foldl_write (t : HazardTracker) (pass : Nat) (handles : List Handle) :
    let after := handles.foldl (fun t h => t.write pass h) t
    (∀ h, after.lastWriter.get? h = if h ∈ handles then some pass else t.lastWriter.get? h) ∧
      (∀ h, after.readersOf h = if h ∈ handles then [] else t.readersOf h) ∧
      ∀ e, e ∈ after.graph.edges ↔
        e ∈ t.graph.edges ∨
          e.consumer = pass ∧ e.resource ∈ handles ∧ e.producer ≠ pass ∧
            (e.hazard = .writeAfterWrite ∧ t.lastWriter.get? e.resource = some e.producer ∨
              e.hazard = .writeAfterRead ∧ e.producer ∈ t.readersOf e.resource) := by
  induction handles generalizing t with
  | nil => simp
  | cons h rest ih =>
      obtain ⟨hwriter, hreaders, hedges⟩ := ih (t.write pass h)
      refine ⟨fun k => ?_, fun k => ?_, fun e => ?_⟩
      · rw [List.foldl_cons, hwriter, lastWriter_write]
        by_cases hk : k = h <;> by_cases hr : k ∈ rest <;> simp [hk, hr]
      · rw [List.foldl_cons, hreaders, readersOf_write]
        by_cases hk : k = h <;> by_cases hr : k ∈ rest <;> simp [hk, hr]
      · rw [List.foldl_cons, hedges, mem_edges_write, lastWriter_write, readersOf_write,
          List.mem_cons]
        by_cases hk : e.resource = h
        · subst hk
          constructor
          · rintro ((he | ⟨hc, -, hne, hcase⟩) | ⟨-, -, hne, hcase⟩)
            · exact .inl he
            · exact .inr ⟨hc, .inl rfl, hne, hcase⟩
            · rcases hcase with ⟨-, hw⟩ | ⟨-, hp⟩
              · simp only [if_true, Option.some.injEq] at hw
                exact absurd hw.symm hne
              · simp at hp
          · rintro (he | ⟨hc, -, hne, hcase⟩)
            · exact .inl (.inl he)
            · exact .inl (.inr ⟨hc, rfl, hne, hcase⟩)
        · simp only [hk, if_false, false_and, and_false, or_false, false_or]

theorem mem_accessed {p : Pass} {isWrite : Bool} {h : Handle} :
    h ∈ accessed p isWrite ↔ if isWrite then p.writes h = true else p.reads h = true := by
  simp only [accessed, List.mem_map, List.mem_filter, decide_eq_true_eq]
  cases isWrite with
  | false =>
      simp only [Pass.reads, List.any_eq_true, Bool.and_eq_true, Bool.not_eq_true',
        decide_eq_true_eq, Bool.false_eq_true, if_false]
      exact ⟨fun ⟨a, ⟨ha, hw⟩, hh⟩ => ⟨a, ha, hh, hw⟩, fun ⟨a, ha, hh, hw⟩ => ⟨a, ⟨ha, hw⟩, hh⟩⟩
  | true =>
      simp only [Pass.writes, List.any_eq_true, Bool.and_eq_true, decide_eq_true_eq, if_true]
      exact ⟨fun ⟨a, ⟨ha, hw⟩, hh⟩ => ⟨a, ha, hh, hw⟩, fun ⟨a, ha, hh, hw⟩ => ⟨a, ⟨ha, hw⟩, hh⟩⟩

theorem visit_spec (t : HazardTracker) (pass : Nat) (p : Pass) :
    (∀ h, (t.visit pass p).lastWriter.get? h =
        if p.writes h then some pass else t.lastWriter.get? h) ∧
      (∀ h r, r ∈ (t.visit pass p).readersOf h ↔
        p.writes h = false ∧ (r ∈ t.readersOf h ∨ r = pass ∧ p.reads h = true)) ∧
      ∀ e, e ∈ (t.visit pass p).graph.edges ↔
        e ∈ t.graph.edges ∨
          e.consumer = pass ∧ e.producer ≠ pass ∧
            (e.hazard = .readAfterWrite ∧ p.reads e.resource = true ∧
                t.lastWriter.get? e.resource = some e.producer ∨
              e.hazard = .writeAfterWrite ∧ p.writes e.resource = true ∧
                t.lastWriter.get? e.resource = some e.producer ∨
              e.hazard = .writeAfterRead ∧ p.writes e.resource = true ∧
                e.producer ∈ t.readersOf e.resource) := by
  obtain ⟨hw, hr, he⟩ := foldl_read t pass (accessed p false)
  obtain ⟨hw', hr', he'⟩ := foldl_write
    ((accessed p false).foldl (fun t h => t.read pass h) t) pass (accessed p true)
  simp only [mem_accessed, if_true, Bool.false_eq_true, if_false] at hr he hw' hr' he'
  refine ⟨fun h => ?_, fun h r => ?_, fun e => ?_⟩
  · rw [visit, hw', hw]
  · rw [visit, hr']
    cases hc : p.writes h with
    | true => simp
    | false => simp [hr]
  · rw [visit, he', he, hw]
    simp only [hr]
    constructor
    · rintro ((h | ⟨hc, hread, hz, hlast, hne⟩) | ⟨hc, hwrite, hne, ⟨hz, hlast⟩ | ⟨hz, hread⟩⟩)
      · exact .inl h
      · exact .inr ⟨hc, hne, .inl ⟨hz, hread, hlast⟩⟩
      · exact .inr ⟨hc, hne, .inr (.inl ⟨hz, hwrite, hlast⟩)⟩
      · rcases hread with hread | ⟨heq, -⟩
        · exact .inr ⟨hc, hne, .inr (.inr ⟨hz, hwrite, hread⟩)⟩
        · exact absurd heq hne
    · rintro (h | ⟨hc, hne, ⟨hz, hread, hlast⟩ | ⟨hz, hwrite, hlast⟩ | ⟨hz, hwrite, hread⟩⟩)
      · exact .inl (.inl h)
      · exact .inl (.inr ⟨hc, hread, hz, hlast, hne⟩)
      · exact .inr ⟨hc, hwrite, hne, .inl ⟨hz, hlast⟩⟩
      · exact .inr ⟨hc, hwrite, hne, .inr ⟨hz, .inl hread⟩⟩

/-! ## All passes -/

/-- What the tracker knows before the pass at position `k`. -/
structure Tracks (t : HazardTracker) (passes : List Pass) (k : Nat) : Prop where
  lastWriter : ∀ h w, t.lastWriter.get? h = some w ↔ IsLastWriter passes h k w
  readers : ∀ h r, r ∈ t.readersOf h ↔ IsOpenReader passes h k r
  edges : ∀ e, e ∈ t.graph.edges ↔ IsHazard passes e ∧ e.consumer < k

theorem isLastWriter_succ {h : Handle} {k w : Nat} :
    IsLastWriter passes h (k + 1) w ↔
      if writesAt passes k h then w = k else IsLastWriter passes h k w := by
  split
  · next hk =>
      constructor
      · rintro ⟨hlt, hw, hnone⟩
        rcases Nat.lt_or_ge w k with hwk | hwk
        · rw [hnone k hwk (Nat.lt_succ_self k)] at hk
          cases hk
        · omega
      · rintro rfl
        exact ⟨Nat.lt_succ_self w, hk, fun j _ _ => by omega⟩
  · next hk =>
      rw [Bool.not_eq_true] at hk
      constructor
      · rintro ⟨hlt, hw, hnone⟩
        have hne : w ≠ k := by
          rintro rfl
          rw [hw] at hk
          cases hk
        exact ⟨by omega, hw, fun j hj hjk => hnone j hj (by omega)⟩
      · rintro ⟨hlt, hw, hnone⟩
        refine ⟨by omega, hw, fun j hj hjk => ?_⟩
        rcases Nat.lt_or_ge j k with hlt' | hge
        · exact hnone j hj hlt'
        · rw [show j = k by omega]
          exact hk

theorem isOpenReader_succ {h : Handle} {k r : Nat} :
    IsOpenReader passes h (k + 1) r ↔
      writesAt passes k h = false ∧
        (IsOpenReader passes h k r ∨ r = k ∧ readsAt passes k h = true) := by
  constructor
  · rintro ⟨hlt, hr, hnone⟩
    refine ⟨hnone k (by omega) (Nat.lt_succ_self k), ?_⟩
    rcases Nat.lt_or_ge r k with hrk | hrk
    · exact .inl ⟨hrk, hr, fun j hj hjk => hnone j hj (by omega)⟩
    · obtain rfl : r = k := by omega
      exact .inr ⟨rfl, hr⟩
  · rintro ⟨hk, ⟨hlt, hr, hnone⟩ | ⟨rfl, hr⟩⟩
    · refine ⟨by omega, hr, fun j hj hjk => ?_⟩
      rcases Nat.lt_or_ge j k with hlt' | hge
      · exact hnone j hj hlt'
      · rw [show j = k by omega]
        exact hk
    · refine ⟨Nat.lt_succ_self r, hr, fun j hj hjk => ?_⟩
      rw [show j = r by omega]
      exact hk

/-- Visiting the next pass adds the hazards of that pass. -/
theorem Tracks.visit {t : HazardTracker} {k : Nat} (ht : Tracks t passes k) {p : Pass}
    (hp : passes[k]? = some p) : Tracks (t.visit k p) passes (k + 1) := by
  obtain ⟨hw, hr, he⟩ := visit_spec t k p
  have hwrites : ∀ h, writesAt passes k h = p.writes h := fun h => by simp [writesAt, hp]
  have hreads : ∀ h, readsAt passes k h = p.reads h := fun h => by simp [readsAt, hp]
  refine ⟨fun h w => ?_, fun h r => ?_, fun e => ?_⟩
  · rw [hw, isLastWriter_succ, hwrites]
    split
    · exact ⟨fun heq => (Option.some.inj heq).symm, fun heq => by rw [heq]⟩
    · exact ht.lastWriter h w
  · rw [hr, isOpenReader_succ, hwrites, hreads, ht.readers]
  · rw [he, ht.edges]
    obtain ⟨producer, consumer, resource, hazard⟩ := e
    simp only [ht.lastWriter, ht.readers, ← hwrites, ← hreads]
    constructor
    · rintro (⟨hz, hlt⟩ | ⟨rfl, -, ⟨rfl, ha, hb⟩ | ⟨rfl, ha, hb⟩ | ⟨rfl, ha, hb⟩⟩)
      · exact ⟨hz, by omega⟩
      · exact ⟨⟨ha, hb⟩, Nat.lt_succ_self _⟩
      · exact ⟨⟨ha, hb⟩, Nat.lt_succ_self _⟩
      · exact ⟨⟨ha, hb⟩, Nat.lt_succ_self _⟩
    · rintro ⟨hz, hlt⟩
      rcases Nat.lt_or_ge consumer k with hck | hck
      · exact .inl ⟨hz, hck⟩
      · obtain rfl : consumer = k := by omega
        have hne : producer ≠ consumer := Nat.ne_of_lt hz.lt.1
        cases hazard with
        | readAfterWrite => exact .inr ⟨rfl, hne, .inl ⟨rfl, hz.1, hz.2⟩⟩
        | writeAfterWrite => exact .inr ⟨rfl, hne, .inr (.inl ⟨rfl, hz.1, hz.2⟩)⟩
        | writeAfterRead => exact .inr ⟨rfl, hne, .inr (.inr ⟨rfl, hz.1, hz.2⟩)⟩

theorem Tracks.visitFrom {rest : List Pass} {t : HazardTracker} {k : Nat}
    (ht : Tracks t passes k) (hrest : passes.drop k = rest) :
    Tracks (t.visitFrom k rest) passes (k + rest.length) := by
  induction rest generalizing t k with
  | nil => exact ht
  | cons p rest ih =>
      have hp : passes[k]? = some p := by
        have := congrArg List.head? hrest
        simpa [List.head?_drop] using this
      have hdrop : passes.drop (k + 1) = rest := by
        rw [← List.drop_drop, hrest]
        rfl
      have := ih (ht.visit hp) hdrop
      rwa [Nat.add_right_comm] at this

theorem tracks_start (passCount : Nat) :
    Tracks { graph := .edgeless passCount } passes 0 where
  lastWriter h w := by
    constructor
    · intro hw
      cases hw
    · rintro ⟨hlt, -⟩
      omega
  readers h r := by
    constructor
    · intro hr
      cases hr
    · rintro ⟨hlt, -⟩
      omega
  edges e := by
    constructor
    · intro he
      cases he
    · rintro ⟨-, hlt⟩
      omega

/-! ## The graph is built edge by edge -/

open DependencyGraph (Built)

theorem built_dependOnWriter {n : Nat} {t : HazardTracker} (ht : Built n t.graph) (pass : Nat)
    (h : Handle) (hazard : Hazard) : Built n (t.dependOnWriter pass h hazard) := by
  unfold dependOnWriter
  split
  · exact ht
  · exact ht.addEdge _

theorem built_write {n : Nat} {t : HazardTracker} (ht : Built n t.graph) (pass : Nat)
    (h : Handle) : Built n (t.write pass h).graph := by
  have fold : ∀ (readers : List Nat) (g : DependencyGraph), Built n g →
      Built n (readers.foldl (fun g reader => g.addEdge ⟨reader, pass, h, .writeAfterRead⟩) g) := by
    intro readers
    induction readers with
    | nil => intro g hg; exact hg
    | cons reader rest ih => intro g hg; exact ih _ (hg.addEdge _)
  exact fold _ _ (built_dependOnWriter ht pass h .writeAfterWrite)

theorem built_visit {n : Nat} {t : HazardTracker} (ht : Built n t.graph) (pass : Nat) (p : Pass) :
    Built n (t.visit pass p).graph := by
  have reads : ∀ (handles : List Handle) (t : HazardTracker), Built n t.graph →
      Built n (handles.foldl (fun t h => t.read pass h) t).graph := by
    intro handles
    induction handles with
    | nil => intro t ht; exact ht
    | cons h rest ih => intro t ht; exact ih _ (built_dependOnWriter ht pass h .readAfterWrite)
  have writes : ∀ (handles : List Handle) (t : HazardTracker), Built n t.graph →
      Built n (handles.foldl (fun t h => t.write pass h) t).graph := by
    intro handles
    induction handles with
    | nil => intro t ht; exact ht
    | cons h rest ih => intro t ht; exact ih _ (built_write ht pass h)
  exact writes _ _ (reads _ t ht)

theorem built_visitFrom {n : Nat} {t : HazardTracker} (ht : Built n t.graph) (first : Nat)
    (passes : List Pass) : Built n (t.visitFrom first passes).graph := by
  induction passes generalizing t first with
  | nil => exact ht
  | cons p rest ih => exact ih (built_visit ht first p) (first + 1)

end HazardTracker

/-! ## The edges of a list of passes -/

/-- **The edges are exactly the hazards.** -/
theorem mem_edges_ofPasses {e : Edge} :
    e ∈ (DependencyGraph.ofPasses passes).edges ↔ IsHazard passes e := by
  have ht : HazardTracker.Tracks _ passes (0 + passes.length) :=
    (HazardTracker.tracks_start passes.length).visitFrom List.drop_zero
  rw [DependencyGraph.ofPasses, ht.edges, Nat.zero_add]
  exact ⟨fun he => he.1, fun he => ⟨he, he.lt.2⟩⟩

theorem consistent_ofPasses (passes : List Pass) :
    (DependencyGraph.ofPasses passes).Consistent := by
  refine (HazardTracker.built_visitFrom .edgeless 0 passes).consistent fun e he => ?_
  have hlt := (mem_edges_ofPasses.1 he).lt
  omega

/-- An edge of the analysis leads to a later pass. -/
theorem lt_of_hasEdge_ofPasses {p c : Nat} (h : (DependencyGraph.ofPasses passes).HasEdge p c) :
    p < c := by
  obtain ⟨e, he, rfl, rfl⟩ := h
  exact (mem_edges_ofPasses.1 he).lt.1

/-! ## Conflicts -/

/-- Some edge on a given resource leads from one pass to another. -/
def DependencyGraph.HasEdgeOn (g : DependencyGraph) (h : Handle) (producer consumer : Nat) : Prop :=
  ∃ e ∈ g.edges, e.producer = producer ∧ e.consumer = consumer ∧ e.resource = h

/-- Both passes access the resource, and at least one of them writes it. -/
def Conflict (passes : List Pass) (h : Handle) (i j : Nat) : Prop :=
  writesAt passes i h = true ∧ (readsAt passes j h = true ∨ writesAt passes j h = true) ∨
    readsAt passes i h = true ∧ writesAt passes j h = true

open Relation in
/-- A writer leads to every later pass that accesses the resource: each writer on the way is the
last one before the next. -/
theorem path_of_writer {h : Handle} {i j : Nat} (hij : i < j) (hi : writesAt passes i h = true)
    (hj : readsAt passes j h = true ∨ writesAt passes j h = true) :
    TransGen ((DependencyGraph.ofPasses passes).HasEdgeOn h) i j := by
  induction j using Nat.strongRecOn with
  | ind j ih =>
      obtain ⟨w, hw, hle⟩ := exists_isLastWriter hij hi
      have hedge : (DependencyGraph.ofPasses passes).HasEdgeOn h w j := by
        rcases hj with hj | hj
        · exact ⟨⟨w, j, h, .readAfterWrite⟩, mem_edges_ofPasses.2 ⟨hj, hw⟩, rfl, rfl, rfl⟩
        · exact ⟨⟨w, j, h, .writeAfterWrite⟩, mem_edges_ofPasses.2 ⟨hj, hw⟩, rfl, rfl, rfl⟩
      rcases Nat.lt_or_ge i w with hlt | hge
      · exact (ih w hw.1 hlt (.inr hw.2.1)).tail hedge
      · obtain rfl : i = w := by omega
        exact .single hedge

open Relation in
/-- **Conflicting passes are linked by a path of edges on the resource.** -/
theorem path_of_conflict {h : Handle} {i j : Nat} (hij : i < j) (hc : Conflict passes h i j) :
    TransGen ((DependencyGraph.ofPasses passes).HasEdgeOn h) i j := by
  rcases hc with ⟨hi, hj⟩ | ⟨hi, hj⟩
  · exact path_of_writer hij hi hj
  · -- The reader leads to the first writer from it on, which leads to all later ones.
    have hsome : ∃ k, i < k ∧ k ≤ j ∧ writesAt passes k h = true := ⟨j, hij, Nat.le_refl j, hj⟩
    cases hself : writesAt passes i h with
    | true => exact path_of_writer hij hself (.inr hj)
    | false =>
        obtain ⟨hik, hkj, hk⟩ := Nat.find_spec hsome
        have hopen : IsOpenReader passes h (Nat.find hsome) i := by
          refine ⟨hik, hi, fun m hm hmk => ?_⟩
          rcases Nat.eq_or_lt_of_le hm with rfl | hlt
          · exact hself
          · have hmin := Nat.find_min hsome hmk
            simp only [not_and, Bool.not_eq_true] at hmin
            exact hmin hlt (by omega)
        have hedge : (DependencyGraph.ofPasses passes).HasEdgeOn h i (Nat.find hsome) :=
          ⟨⟨i, _, h, .writeAfterRead⟩, mem_edges_ofPasses.2 ⟨hk, hopen⟩, rfl, rfl, rfl⟩
        rcases Nat.eq_or_lt_of_le hkj with heq | hlt
        · rw [heq] at hedge
          exact .single hedge
        · exact .head hedge (path_of_writer hlt hk (.inr hj))

end FrameGraph
