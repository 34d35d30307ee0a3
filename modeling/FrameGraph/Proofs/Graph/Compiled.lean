import FrameGraph.Proofs.Graph.Outline

/-!
# What analysing and compiling leave behind

Analysing and compiling write over what they find in a graph: the marks, the dependencies and the barriers
of the passes, the order with its table, and the lifetimes of the resources.  What stands there afterwards
follows from the passes and the resources, and from an earlier analysis only if nothing was declared
since.

Principal statements: `Graph.plan_compile`, `Graph.registry_compile` and `Graph.currentAnalysis_cases`.
-/

set_option autoImplicit false

namespace FrameGraph

/-- The plan that follows from an analysis. -/
def Plan.ofAnalysis (a : Analysis) (passes : List Pass) (registry : Registry) : Plan :=
  let order := (schedule passes a.graph a.reachable registry).value
  ⟨order, .along order passes registry, compiledAlong order passes registry⟩

/-! ## Marked passes -/

namespace PassNode

theorem eq_of_parts {node node' : PassNode} (hpass : node.toPass = node'.toPass)
    (hreachable : node.reachable = node'.reachable)
    (hdependencies : node.dependencies = node'.dependencies) (haround : node.around = node'.around) :
    node = node' := by
  cases node
  cases node'
  cases hpass
  cases hreachable
  cases hdependencies
  cases haround
  rfl

/-- A list of passes is made up of its columns. -/
theorem list_eq_of_columns {l l' : List PassNode} (hpass : l.map (·.toPass) = l'.map (·.toPass))
    (hreachable : l.map reachable = l'.map reachable)
    (hdependencies : l.map dependencies = l'.map dependencies)
    (haround : l.map around = l'.map around) : l = l' := by
  have hlength : l.length = l'.length := by simpa using congrArg List.length hpass
  refine List.ext_getElem hlength fun i hi hi' => ?_
  have hcolumn : ∀ {α : Type} {f : PassNode → α}, l.map f = l'.map f → f l[i] = f l'[i] := by
    intro α f heq
    have hget := List.getElem_of_eq heq (by simpa using hi)
    rwa [List.getElem_map, List.getElem_map] at hget
  exact eq_of_parts (hcolumn hpass) (hcolumn hreachable) (hcolumn hdependencies) (hcolumn haround)

end PassNode

namespace Analysis

variable (a : Analysis) (nodes : List PassNode)

theorem passes_mark : (a.mark nodes).map (·.toPass) = nodes.map (·.toPass) := by
  refine List.ext_getElem (by simp [mark]) fun i _ _ => ?_
  simp [mark]

theorem reachable_mark (hlength : a.reachable.length = nodes.length) :
    (a.mark nodes).map (·.reachable) = a.reachable := by
  refine List.ext_getElem (by simp [mark, hlength]) fun i _ hi => ?_
  simp [mark, List.getElem?_eq_getElem hi]

theorem dependencies_mark :
    (a.mark nodes).map (·.dependencies) = (List.range nodes.length).map a.graph.dependenciesOf := by
  refine List.ext_getElem (by simp [mark]) fun i _ _ => ?_
  simp [mark]

theorem length_reachable_ofPasses (passes : List Pass) (registry : Registry) :
    (ofPasses passes registry).reachable.length = passes.length := by
  simp [ofPasses]

end Analysis

/-- Neither new lifetimes nor what an earlier plan has left change the barriers around the passes. -/
theorem around_merged_generated {nodes : List PassNode} {passes : List Pass}
    (hpasses : nodes.map (·.toPass) = passes) (order : List Nat) (registry : Registry) :
    let timed := registry.withLifetimes order passes
    (mergeBarriers order (generateBarriers (.along order passes timed) nodes timed).value).map
        PassNode.around = compiledAlong order passes registry := by
  intro timed
  have hsame : registry.SameOutline timed := registry.sameOutline_withLifetimes order passes
  have hlength : nodes.length = passes.length := by rw [← hpasses, List.length_map]
  rw [around_mergeBarriers, around_generateBarriers, hpasses, hlength, hsame.compiledAlong_eq,
    compiledAlong, plannedAlong_eq, placedAlong]

namespace Graph

/-- The marks of an analysis are those of the passes. -/
theorem isReachable_of_analysis {g : Graph} {a : Analysis} (h : g.analysis = some a) (pass : Nat) :
    g.isReachable pass = a.reachable.getD pass false := by
  obtain ⟨graph, -, rfl⟩ := Option.map_eq_some_iff.1 h
  rfl

variable (g : Graph)

theorem length_nodes : g.nodes.length = g.passes.length := (List.length_map _).symm

/-! ## Analysing -/

theorem passes_analyse : g.analyse.value.passes = g.passes := Analysis.passes_mark ..

theorem analysis_analyse : g.analyse.value.analysis = some (.ofPasses g.passes g.registry) := by
  have hmarks := Analysis.reachable_mark (.ofPasses g.passes g.registry) g.nodes
    ((Analysis.length_reachable_ofPasses ..).trans g.length_nodes.symm)
  exact congrArg (fun marks => some (⟨.ofPasses g.passes, marks⟩ : Analysis)) hmarks

theorem dependencies_analyse : g.analyse.value.nodes.map (·.dependencies) =
    (List.range g.passes.length).map (DependencyGraph.ofPasses g.passes).dependenciesOf := by
  rw [← g.length_nodes]
  exact Analysis.dependencies_mark ..

/-! ## Compiling -/

/-- The analysis that is compiled. -/
def compiledAnalysis : Analysis :=
  ⟨g.currentAnalysis.value.1, g.currentAnalysis.value.2.map (·.reachable)⟩

/-- What is compiled is what was found by an earlier analysis, or else by a new one. -/
theorem currentAnalysis_cases :
    (g.phase ≠ .declaring ∧ g.analysis = some g.compiledAnalysis ∧
        g.currentAnalysis.value.2 = g.nodes) ∨
      (g.analyse.value.analysis = some g.compiledAnalysis ∧
        g.currentAnalysis.value.2 = g.analyse.value.nodes) := by
  unfold compiledAnalysis currentAnalysis analysis
  split
  · next hphase hgraph => exact .inl ⟨by simp [hphase], by rw [hgraph]; rfl, rfl⟩
  · next hphase hgraph => exact .inl ⟨by simp [hphase], by rw [hgraph]; rfl, rfl⟩
  · exact .inr ⟨rfl, rfl⟩

theorem passes_currentAnalysis : g.currentAnalysis.value.2.map (·.toPass) = g.passes := by
  obtain ⟨-, -, hnodes⟩ | ⟨-, hnodes⟩ := g.currentAnalysis_cases
  · rw [hnodes, passes]
  · rw [hnodes]
    exact g.passes_analyse

/-- Compiling leaves alone whatever it does not find out. -/
theorem map_nodes_compile {α : Type} {f : PassNode → α}
    (hf : ∀ (node : PassNode) (b : AroundPass), f { node with around := b } = f node) :
    g.compile.value.nodes.map f = g.currentAnalysis.value.2.map f :=
  (map_withBarriers hf _ _).trans (map_generateBarriers hf _ _ _)

theorem passes_compile : g.compile.value.passes = g.passes :=
  (g.map_nodes_compile fun _ _ => rfl).trans g.passes_currentAnalysis

theorem analysis_compile : g.compile.value.analysis = some g.compiledAnalysis :=
  congrArg (fun marks => some (⟨g.currentAnalysis.value.1, marks⟩ : Analysis))
    (g.map_nodes_compile fun _ _ => rfl)

theorem sameOutline_compile : g.registry.SameOutline g.compile.value.registry :=
  g.registry.sameOutline_withLifetimes _ _

/-- Every lifetime is that along the new order. -/
theorem registry_compile : g.compile.value.registry =
    g.registry.setLifetimes (lifetimeOf g.compile.value.plan.order g.passes) :=
  g.registry.withLifetimes_eq _ _

theorem get?_compile (h : Handle) : g.compile.value.registry.get? h =
    (g.registry.get? h).map fun resource =>
      { resource with lifetime := lifetimeOf g.compile.value.plan.order g.passes h } :=
  Registry.get?_withLifetimes ..

/-- **What a plan is made from**: the analysis, the passes and the resources. -/
theorem plan_compile :
    g.compile.value.plan = .ofAnalysis g.compiledAnalysis g.passes g.registry := by
  have htable := (g.registry.sameOutline_withLifetimes g.compile.value.order g.passes).along_eq
    g.compile.value.order g.passes
  have haround := around_merged_generated g.passes_currentAnalysis g.compile.value.order g.registry
  exact congr (congrArg (Plan.mk _) htable.symm) haround

end Graph

end FrameGraph
