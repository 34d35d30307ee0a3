import FrameGraph.Proofs.Graph.Compiled
import FrameGraph.Proofs.Pruning

/-!
# Which passes contribute

A pass of an analysed graph is reachable if what it does may be seen: if a path of dependencies leads
from it to a pass that writes something for presentation or an output of the graph.

Principal statements: `producesOutput_iff`, `mem_outputPasses_iff`, and `reaching?_exact`: the marks are
those of the passes from which a path leads to a terminal, in every graph of accepted edges and hence
in an analysed one.
-/

set_option autoImplicit false

namespace FrameGraph

open Relation

/-! ## The passes for which all others work -/

/-- The pass writes something for presentation, or an output of the graph. -/
theorem Pass.producesOutput_iff {p : Pass} {registry : Registry} :
    p.producesOutput registry = true ↔
      ∃ a ∈ p.accesses, a.isWrite = true ∧
        (a.usage = .present ∨
          ∃ resource, registry.get? a.resource = some resource ∧ resource.isOutput = true) := by
  unfold Pass.producesOutput
  rw [List.any_eq_true]
  simp only [Bool.and_eq_true, Bool.or_eq_true, decide_eq_true_eq, Option.any_eq_true]

theorem mem_outputPasses_iff {passes : List Pass} {registry : Registry} {t : Nat} :
    t ∈ outputPasses passes registry ↔
      ∃ p, passes[t]? = some p ∧ p.producesOutput registry = true := by
  unfold outputPasses
  rw [List.mem_filter, List.mem_range, Option.any_eq_true]
  constructor
  · rintro ⟨-, p, hp, hout⟩
    exact ⟨p, hp, hout⟩
  · rintro ⟨p, hp, hout⟩
    exact ⟨(List.getElem?_eq_some_iff.1 hp).1, p, hp, hout⟩

/-! ## The marks -/

namespace DependencyGraph

variable {g : DependencyGraph}

/-- Terminals within the graph are accepted. -/
theorem reaching?_eq_ok {terminals : List Nat} (ht : ∀ t ∈ terminals, t < g.passCount) :
    g.reaching? terminals = .ok (g.reaching terminals) := by
  unfold reaching?
  rw [checkIndices_eq_ok_iff.2 ht]
  rfl

end DependencyGraph

namespace Graph

theorem isReachable_analyse (g : Graph) (i : Nat) :
    g.analyse.value.isReachable i =
      (Analysis.ofPasses g.passes g.registry).reachable.getD i false :=
  isReachable_of_analysis g.analysis_analyse i

theorem mem_dependenciesOf_analyse {g : Graph} {p c : Nat} :
    p ∈ g.analyse.value.dependenciesOf c ↔ (DependencyGraph.ofPasses g.passes).HasEdge p c := by
  have hedge : p ∈ (DependencyGraph.ofPasses g.passes).dependenciesOf c ↔
      (DependencyGraph.ofPasses g.passes).HasEdge p c := by
    rw [DependencyGraph.dependenciesOf, List.mem_eraseDups, List.mem_mergeSort]
    exact (consistent_ofPasses g.passes).mem_predecessorsOf
  rw [dependenciesOf, dependencies_analyse, List.getD_eq_getElem?_getD, List.getElem?_map]
  by_cases hc : c < g.passes.length
  · simpa [hc] using hedge
  · refine iff_of_false (by simp [hc]) fun hpc => hc ?_
    exact passCount_ofPasses g.passes ▸ ((consistent_ofPasses g.passes).lt_of_hasEdge hpc).2

/-- A pass is reachable if a path of dependencies leads from it to one that produces an output. -/
theorem isReachable_analyse_iff {g : Graph} {i : Nat} :
    g.analyse.value.isReachable i = true ↔
      ∃ t p, g.passes[t]? = some p ∧ p.producesOutput g.registry = true ∧
        ReflTransGen (DependencyGraph.ofPasses g.passes).HasEdge i t := by
  rw [isReachable_analyse]
  show ((DependencyGraph.ofPasses g.passes).reaching _).getD i false = true ↔ _
  rw [DependencyGraph.reaching_eq_true_iff (consistent_ofPasses g.passes)
    fun t => lt_of_mem_outputPasses]
  constructor
  · rintro ⟨t, ht, hpath⟩
    obtain ⟨p, hp, hout⟩ := mem_outputPasses_iff.1 ht
    exact ⟨t, p, hp, hout, hpath⟩
  · rintro ⟨t, p, hp, hout, hpath⟩
    exact ⟨t, mem_outputPasses_iff.2 ⟨p, hp, hout⟩, hpath⟩

end Graph

/-- **Reachability is exact.**  In every graph of accepted edges, cycles included, and for all terminals
within it, repeated or not, the marks are those of the passes from which a path leads to a terminal.
So after an analysis the reachable passes are those from which a path of dependencies leads to a pass
that writes something for presentation or an output, and what a reachable pass depends on is
reachable. -/
theorem reaching?_exact {passCount : Nat} {edges : List Edge} {g : DependencyGraph}
    (hg : (DependencyGraph.edgeless passCount).insertEdges edges = .ok g) {terminals : List Nat}
    (ht : ∀ t ∈ terminals, t < passCount) (graph : Graph) :
    (∃ marks, g.reaching? terminals = .ok marks ∧ marks.length = passCount ∧
      ∀ i, marks[i]? = some true ↔ ∃ t ∈ terminals, ReflTransGen g.HasEdge i t) ∧
    ∃ a, graph.analyse.value.analysis = some a ∧
      (∀ i, graph.analyse.value.isReachable i = true ↔
        ∃ t p, graph.passes[t]? = some p ∧ ReflTransGen a.graph.HasEdge i t ∧
          ∃ access ∈ p.accesses, access.isWrite = true ∧
            (access.usage = .present ∨
              ∃ resource, graph.registry.get? access.resource = some resource ∧
                resource.isOutput = true)) ∧
      ∀ i, graph.analyse.value.isReachable i = true →
        ∀ p ∈ graph.analyse.value.dependenciesOf i, graph.analyse.value.isReachable p = true := by
  obtain ⟨hcons, rfl⟩ := DependencyGraph.consistent_of_insertEdges hg
  constructor
  · refine ⟨g.reaching terminals, DependencyGraph.reaching?_eq_ok ht,
      DependencyGraph.length_reaching g terminals, ?_⟩
    intro i
    have hexact := DependencyGraph.reaching_eq_true_iff hcons ht (i := i)
    rw [List.getD_eq_getElem?_getD] at hexact
    rw [show (∃ t ∈ terminals, ReflTransGen g.HasEdge i t) ↔ g.Reaches terminals i from Iff.rfl,
      ← hexact]
    cases (g.reaching terminals)[i]? <;> simp
  · refine ⟨.ofPasses graph.passes graph.registry, graph.analysis_analyse, ?_, ?_⟩
    · intro i
      rw [Graph.isReachable_analyse_iff]
      constructor
      · rintro ⟨t, p, hp, hout, hpath⟩
        exact ⟨t, p, hp, hpath, Pass.producesOutput_iff.1 hout⟩
      · rintro ⟨t, p, hp, hpath, hout⟩
        exact ⟨t, p, hp, Pass.producesOutput_iff.2 hout, hpath⟩
    · intro i hi p hp
      -- The path from the pass itself is extended by the dependency.
      obtain ⟨t, q, hq, hout, hpath⟩ := Graph.isReachable_analyse_iff.1 hi
      exact Graph.isReachable_analyse_iff.2
        ⟨t, q, hq, hout, .head (Graph.mem_dependenciesOf_analyse.1 hp) hpath⟩

/-- Two passes that depend on each other and on themselves, one behind them and one apart. -/
def mutualEdges : List Edge :=
  [⟨0, 1, .null, .readAfterWrite⟩, ⟨1, 0, .null, .writeAfterRead⟩, ⟨1, 1, .null, .readAfterWrite⟩,
    ⟨1, 2, .null, .readAfterWrite⟩, ⟨0, 1, .null, .writeAfterWrite⟩]

/-- The pass apart is not marked. -/
theorem reaching?_exact_mutual :
    ∃ g, (DependencyGraph.edgeless 4).insertEdges mutualEdges = .ok g ∧
      g.reaching? [2, 2] = .ok [true, true, true, false] ∧
      ∀ i, [true, true, true, false][i]? = some true ↔
        ∃ t ∈ [2, 2], ReflTransGen g.HasEdge i t := by
  have hg : (DependencyGraph.edgeless 4).insertEdges mutualEdges =
      .ok (mutualEdges.foldl DependencyGraph.addEdge (.edgeless 4)) := rfl
  have hterminals : ∀ t ∈ [2, 2], t < 4 := by decide
  have hmarks : (mutualEdges.foldl DependencyGraph.addEdge (.edgeless 4)).reaching? [2, 2] =
      .ok [true, true, true, false] := by
    rw [DependencyGraph.reaching?_eq_ok hterminals]
    decide +kernel
  obtain ⟨⟨marks, heq, -, hexact⟩, -⟩ := reaching?_exact hg hterminals (.empty {} {})
  rw [hmarks] at heq
  cases heq
  exact ⟨_, hg, hmarks, hexact⟩

end FrameGraph
