import FrameGraph.Dependency.Analysis
import FrameGraph.Dependency.Reach
import Mathlib.Data.List.Forall2

/-!
# Passes under other handles

The same passes may be declared with other handles for the same resources.  A relation says which
handles correspond; it is only asked that no handle has two partners.  Whatever the analysis derives
from corresponding passes is the same, edge by edge up to the handles.

Principal statements: `matches_ofPasses` and `outputPasses_eq`.
-/

set_option autoImplicit false

namespace FrameGraph

open Relator (BiUnique)

/-! ## Lists of which the elements correspond -/

section Corresponding

variable {α β γ : Type} {R : α → β → Prop} {l : List α} {l' : List β}

theorem any_eq_of_forall₂ (h : List.Forall₂ R l l') {f : α → Bool} {f' : β → Bool}
    (hf : ∀ a b, R a b → f a = f' b) : l.any f = l'.any f' := by
  induction h with
  | nil => rfl
  | cons hab _ ih => rw [List.any_cons, List.any_cons, hf _ _ hab, ih]

theorem countP_eq_of_forall₂ (h : List.Forall₂ R l l') {f : α → Bool} {f' : β → Bool}
    (hf : ∀ a b, R a b → f a = f' b) : l.countP f = l'.countP f' := by
  induction h with
  | nil => rfl
  | cons hab _ ih => rw [List.countP_cons, List.countP_cons, hf _ _ hab, ih]

theorem forall₂_filter (h : List.Forall₂ R l l') {f : α → Bool} {f' : β → Bool}
    (hf : ∀ a b, R a b → f a = f' b) : List.Forall₂ R (l.filter f) (l'.filter f') :=
  List.rel_filter (fun a b hab => Bool.eq_iff_iff.1 (hf a b hab)) h

theorem forall₂_getElem? (h : List.Forall₂ R l l') (i : Nat) :
    l[i]? = none ∧ l'[i]? = none ∨ ∃ a b, l[i]? = some a ∧ l'[i]? = some b ∧ R a b := by
  induction h generalizing i with
  | nil => exact .inl ⟨rfl, rfl⟩
  | @cons a b _ _ hab _ ih =>
      cases i with
      | zero => exact .inr ⟨a, b, rfl, rfl, hab⟩
      | succ i => exact ih i

/-- Corresponding elements are repeated at the same positions. -/
theorem forall₂_eraseDups [DecidableEq α] [DecidableEq β] (hR : BiUnique R) :
    ∀ {l : List α} {l' : List β}, List.Forall₂ R l l' →
      List.Forall₂ R l.eraseDups l'.eraseDups
  | [], [], .nil => .nil
  | a :: l, b :: l', .cons hab h => by
      rw [List.eraseDups_cons, List.eraseDups_cons]
      refine .cons hab (forall₂_eraseDups hR (forall₂_filter h fun c d hcd => ?_))
      rw [Bool.eq_iff_iff]
      simp only [Bool.not_eq_true', beq_eq_false_iff_ne, ne_eq]
      exact not_congr (Relator.rel_eq hR hcd hab)
termination_by l => l.length
decreasing_by exact Nat.lt_succ_of_le (List.length_filter_le _ l)

end Corresponding

/-! ## Corresponding passes -/

/-- Accesses of one sort to corresponding resources. -/
structure PassAccess.Matches (R : Handle → Handle → Prop) (a a' : PassAccess) : Prop where
  resource : R a.resource a'.resource
  usage : a.usage = a'.usage
  isWrite : a.isWrite = a'.isWrite

/-- Passes of one kind with the same accesses to corresponding resources.  Neither the names nor what
is recorded has to agree. -/
structure Pass.Matches (R : Handle → Handle → Prop) (p p' : Pass) : Prop where
  kind : p.kind = p'.kind
  accesses : List.Forall₂ (PassAccess.Matches R) p.accesses p'.accesses

variable {R : Handle → Handle → Prop} {h h' : Handle}

theorem decide_eq_of_biUnique (hR : BiUnique R) {k k' : Handle} (hh : R h h') (hk : R k k') :
    decide (h = k) = decide (h' = k') := decide_eq_decide.2 (Relator.rel_eq hR hh hk)

namespace Pass.Matches

variable {p p' : Pass}

theorem default : Pass.Matches R default default := ⟨rfl, .nil⟩

theorem involves (hR : BiUnique R) (hp : p.Matches R p') (hh : R h h') :
    p.involves h = p'.involves h' :=
  any_eq_of_forall₂ hp.accesses fun _ _ ha => decide_eq_of_biUnique hR ha.resource hh

theorem resources (hR : BiUnique R) (hp : p.Matches R p') :
    List.Forall₂ R p.resources p'.resources :=
  forall₂_eraseDups hR (List.rel_map (fun _ _ ha => ha.resource) hp.accesses)

/-- Corresponding resources are outputs together. -/
theorem producesOutput {registry registry' : Registry}
    (houtput : ∀ h h', R h h' →
      (registry.get? h).any Resource.isOutput = (registry'.get? h').any Resource.isOutput)
    (hp : p.Matches R p') : p.producesOutput registry = p'.producesOutput registry' :=
  any_eq_of_forall₂ hp.accesses fun _ _ ha => by
    rw [ha.isWrite, ha.usage, houtput _ _ ha.resource]

theorem accessed (hp : p.Matches R p') (isWrite : Bool) :
    List.Forall₂ R (HazardTracker.accessed p isWrite) (HazardTracker.accessed p' isWrite) :=
  List.rel_map (fun _ _ ha => ha.resource)
    (forall₂_filter hp.accesses fun _ _ ha => by rw [ha.isWrite])

end Pass.Matches

/-- The passes that produce outputs are the same. -/
theorem outputPasses_eq {passes passes' : List Pass} {registry registry' : Registry}
    (houtput : ∀ h h', R h h' →
      (registry.get? h).any Resource.isOutput = (registry'.get? h').any Resource.isOutput)
    (hpasses : List.Forall₂ (Pass.Matches R) passes passes') :
    outputPasses passes registry = outputPasses passes' registry' := by
  rw [outputPasses, outputPasses, hpasses.length_eq]
  refine List.filter_congr fun i _ => ?_
  obtain ⟨hp, hp'⟩ | ⟨p, p', hp, hp', hmatches⟩ := forall₂_getElem? hpasses i
  · rw [hp, hp']
    rfl
  · rw [hp, hp']
    exact hmatches.producesOutput houtput

/-! ## Graphs with the same tables -/

/-- Edges between the same passes for the same reason, on corresponding resources. -/
structure Edge.Matches (R : Handle → Handle → Prop) (e e' : Edge) : Prop where
  producer : e.producer = e'.producer
  consumer : e.consumer = e'.consumer
  resource : R e.resource e'.resource
  hazard : e.hazard = e'.hazard

/-- Graphs with the same neighbours, and with edges on corresponding resources. -/
structure DependencyGraph.Matches (R : Handle → Handle → Prop) (g g' : DependencyGraph) : Prop where
  passCount : g.passCount = g'.passCount
  successors : g.successors = g'.successors
  predecessors : g.predecessors = g'.predecessors
  inDegrees : g.inDegrees = g'.inDegrees
  edges : List.Forall₂ (Edge.Matches R) g.edges g'.edges

namespace DependencyGraph.Matches

variable {g g' : DependencyGraph}

theorem edgeless (passCount : Nat) :
    (DependencyGraph.edgeless passCount).Matches R (.edgeless passCount) :=
  ⟨rfl, rfl, rfl, rfl, .nil⟩

/-- They differ in their edges only. -/
theorem eq_with_edges (hg : g.Matches R g') : g' = { g with edges := g'.edges } := by
  obtain ⟨passCount, successors, predecessors, inDegrees, edges⟩ := g
  obtain ⟨passCount', successors', predecessors', inDegrees', edges'⟩ := g'
  obtain ⟨rfl, rfl, rfl, rfl, -⟩ := hg
  rfl

theorem link (hg : g.Matches R g') (producer consumer : Nat) :
    (g.link producer consumer).Matches R (g'.link producer consumer) := by
  have hsuccessors : g.successorsOf producer = g'.successorsOf producer := by
    rw [successorsOf, successorsOf, hg.successors]
  unfold DependencyGraph.link
  rw [hsuccessors]
  split
  · exact hg
  · exact ⟨hg.passCount, by rw [hg.successors], by rw [hg.predecessors], by rw [hg.inDegrees], hg.edges⟩

theorem addEdge (hg : g.Matches R g') {e e' : Edge} (he : e.Matches R e') :
    (g.addEdge e).Matches R (g'.addEdge e') := by
  unfold DependencyGraph.addEdge
  rw [he.producer, he.consumer]
  split
  · exact hg
  · have hlinked := hg.link e'.producer e'.consumer
    exact ⟨hlinked.passCount, hlinked.successors, hlinked.predecessors, hlinked.inDegrees,
      List.rel_append hlinked.edges (.cons he .nil)⟩

/-- Distances are measured along the tables. -/
theorem distancesTo (hg : g.Matches R g') (targets : List Nat) :
    g'.distancesTo targets = g.distancesTo targets := by
  have hsearch : ∀ (edges : List Edge) (table : List (Option Nat)) (queue : List Nat),
      ({ g with edges } : DependencyGraph).searchBack table queue = g.searchBack table queue := by
    intro edges table queue
    fun_induction DependencyGraph.searchBack g table queue with
    | case1 table => rw [searchBack]
    | case2 table pass rest met ih =>
        rw [searchBack]
        exact ih
  rw [hg.eq_with_edges]
  exact hsearch ..

theorem reaching (hg : g.Matches R g') (terminals : List Nat) :
    g'.reaching terminals = g.reaching terminals :=
  congrArg (List.map Option.isSome) (hg.distancesTo terminals)

end DependencyGraph.Matches

/-! ## Following the hazards -/

namespace HazardTracker

/-- Trackers that have found matching graphs and know the same of corresponding resources. -/
structure Matches (R : Handle → Handle → Prop) (t t' : HazardTracker) : Prop where
  graph : t.graph.Matches R t'.graph
  lastWriter : ∀ h h', R h h' → t.lastWriter.get? h = t'.lastWriter.get? h'
  readers : ∀ h h', R h h' → t.readers.get? h = t'.readers.get? h'

end HazardTracker

/-- Tables that agree at corresponding handles still do after the same value was given to two of
them. -/
theorem HandleMap.get?_insert_eq {α : Type} {m m' : HandleMap α} (hR : BiUnique R)
    (hm : ∀ k k', R k k' → m.get? k = m'.get? k') (hh : R h h') (a : α) {k k' : Handle} (hk : R k k') :
    (m.insert h a).get? k = (m'.insert h' a).get? k' := by
  by_cases heq : h = k
  · obtain rfl := heq
    obtain rfl := (Relator.rel_eq hR hh hk).1 rfl
    rw [HandleMap.get?_insert_self, HandleMap.get?_insert_self]
  · have hne : h' ≠ k' := fun heq' => heq ((Relator.rel_eq hR hh hk).2 heq')
    rw [HandleMap.get?_insert_of_ne m a heq, HandleMap.get?_insert_of_ne m' a hne, hm k k' hk]

theorem HandleMap.get?_erase_eq {α : Type} {m m' : HandleMap α} (hR : BiUnique R)
    (hm : ∀ k k', R k k' → m.get? k = m'.get? k') (hh : R h h') {k k' : Handle} (hk : R k k') :
    (m.erase h).get? k = (m'.erase h').get? k' := by
  rw [HandleMap.get?_erase, HandleMap.get?_erase, hm k k' hk]
  exact if_congr (Relator.rel_eq hR hh hk) rfl rfl

namespace HazardTracker.Matches

variable {t t' : HazardTracker}

theorem readersOf (ht : t.Matches R t') (hh : R h h') : t.readersOf h = t'.readersOf h' := by
  rw [HazardTracker.readersOf, HazardTracker.readersOf, ht.readers h h' hh]

theorem dependOnWriter (ht : t.Matches R t') (pass : Nat) (hh : R h h') (hazard : Hazard) :
    (t.dependOnWriter pass h hazard).Matches R (t'.dependOnWriter pass h' hazard) := by
  unfold HazardTracker.dependOnWriter
  rw [ht.lastWriter h h' hh]
  split
  · exact ht.graph
  · exact ht.graph.addEdge ⟨rfl, rfl, hh, rfl⟩

theorem read (hR : BiUnique R) (ht : t.Matches R t') (pass : Nat) (hh : R h h') :
    (t.read pass h).Matches R (t'.read pass h') where
  graph := ht.dependOnWriter pass hh .readAfterWrite
  lastWriter := ht.lastWriter
  readers := by
    intro k k' hk
    simp only [HazardTracker.read, ht.readersOf hh]
    split
    · exact ht.readers k k' hk
    · exact HandleMap.get?_insert_eq hR ht.readers hh _ hk

theorem write (hR : BiUnique R) (ht : t.Matches R t') (pass : Nat) (hh : R h h') :
    (t.write pass h).Matches R (t'.write pass h') where
  graph := by
    simp only [HazardTracker.write, ht.readersOf hh]
    refine List.rel_foldl (R := Eq) (P := DependencyGraph.Matches R) ?_
      (ht.dependOnWriter pass hh .writeAfterWrite) (List.forall₂_same.2 fun _ _ => rfl)
    rintro g g' hg reader - rfl
    exact hg.addEdge ⟨rfl, rfl, hh, rfl⟩
  lastWriter := fun _ _ hk => HandleMap.get?_insert_eq hR ht.lastWriter hh pass hk
  readers := fun _ _ hk => HandleMap.get?_erase_eq hR ht.readers hh hk

theorem visit (hR : BiUnique R) (ht : t.Matches R t') (pass : Nat) {p p' : Pass}
    (hp : p.Matches R p') : (t.visit pass p).Matches R (t'.visit pass p') := by
  have hreads := List.rel_foldl (R := R) (P := HazardTracker.Matches R)
    (fun _ _ ht _ _ hh => HazardTracker.Matches.read hR ht pass hh) ht (hp.accessed false)
  exact List.rel_foldl (R := R) (P := HazardTracker.Matches R)
    (fun _ _ ht _ _ hh => HazardTracker.Matches.write hR ht pass hh) hreads (hp.accessed true)

theorem visitFrom (hR : BiUnique R) (ht : t.Matches R t') (first : Nat) {passes passes' : List Pass}
    (hpasses : List.Forall₂ (Pass.Matches R) passes passes') :
    (t.visitFrom first passes).Matches R (t'.visitFrom first passes') := by
  induction hpasses generalizing t t' first with
  | nil => exact ht
  | cons hp _ ih => exact ih (ht.visit hR first hp) (first + 1)

end HazardTracker.Matches

/-- **Corresponding passes depend on each other in the same way.** -/
theorem matches_ofPasses (hR : BiUnique R) {passes passes' : List Pass}
    (hpasses : List.Forall₂ (Pass.Matches R) passes passes') :
    (DependencyGraph.ofPasses passes).Matches R (.ofPasses passes') := by
  have hstart : HazardTracker.Matches R { graph := .edgeless passes.length }
      { graph := .edgeless passes'.length } := by
    rw [hpasses.length_eq]
    exact ⟨.edgeless passes'.length, fun _ _ _ => rfl, fun _ _ _ => rfl⟩
  exact (hstart.visitFrom hR 0 hpasses).graph

end FrameGraph
