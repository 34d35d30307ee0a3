import FrameGraph.Proofs.Graph.Lifetimes
import FrameGraph.Proofs.Memory.Reachable
import FrameGraph.Proofs.Renaming.Barriers

/-!
# Compiled plans are up to date

An analysis and a plan depend on the outlines of the resources and on the passes, and on nothing else.
Whatever changes one of them takes the graph back to declaring, and analysing and compiling overwrite
everything that an earlier plan has left, in the graph and with its passes and resources.

Principal statements: `Plan.ofAnalysis_congr`, and `Graph.Reachable.plan_eq_fresh`: a compiled graph is
in everything planned the graph that is compiled from its declarations alone.
-/

set_option autoImplicit false

namespace FrameGraph

/-! ## What a plan depends on -/

namespace Registry.SameOutline

variable {r r' : Registry} {passes : List Pass}

/-- Every pass has the same accesses as itself. -/
theorem matches_self (h : r.SameOutline r') (hd : Declared r passes) :
    List.Forall₂ (Pass.Matches (r.Paired r')) passes passes := by
  refine List.forall₂_same.2 fun p hp => ⟨rfl, List.forall₂_same.2 fun a ha => ?_⟩
  obtain ⟨resource, hget, -⟩ := hd.isValid p hp a ha
  obtain ⟨resource', hget', houtline⟩ := h.symm.exists_live hget
  exact ⟨⟨resource, resource', hget, hget', houtline.symm⟩, rfl, rfl⟩

end Registry.SameOutline

section Congruence

variable {r r' : Registry} {passes : List Pass} (h : r.SameOutline r') (hd : Declared r passes)

include h hd

theorem Analysis.ofPasses_congr : Analysis.ofPasses passes r = Analysis.ofPasses passes r' := by
  have houtputs := outputPasses_eq (fun _ _ hh => hh.any_eq fun _ _ => Resource.isOutput_of_outline)
    (h.matches_self hd)
  rw [Analysis.ofPasses, Analysis.ofPasses, houtputs]

/-- **A plan depends on the outlines of the resources and on the passes.** -/
theorem Plan.ofAnalysis_congr (hr' : r'.WellFormed) :
    Plan.ofAnalysis (.ofPasses passes r) passes r =
      Plan.ofAnalysis (.ofPasses passes r') passes r' := by
  have hunique := Registry.biUnique_paired hd.wellFormed hr'
  have hpasses := h.matches_self hd
  have horder : (schedule passes (.ofPasses passes) (Analysis.ofPasses passes r).reachable r).value =
      (schedule passes (.ofPasses passes) (Analysis.ofPasses passes r').reachable r').value := by
    rw [← Analysis.ofPasses_congr h hd]
    exact ScheduleInput.Matches.order_eq ⟨hunique, hpasses, matches_ofPasses hunique hpasses, rfl⟩
  have hplan : ∀ {order order' : List Nat}, order = order' →
      (⟨order, .along order passes r, compiledAlong order passes r⟩ : Plan) =
        ⟨order', .along order' passes r', compiledAlong order' passes r'⟩ := by
    rintro order _ rfl
    rw [h.along_eq, h.compiledAlong_eq]
  exact hplan horder

end Congruence

/-! ## Graphs -/

namespace Graph

variable {g g' : Graph}

/-- What is analysed and planned is what analysing and planning the declarations anew would give. -/
structure IsFresh (g : Graph) : Prop where
  analysed : g.phase ≠ .declaring → g.analysis = some (.ofPasses g.passes g.registry)
  dependent : g.phase ≠ .declaring → g.nodes.map (·.dependencies) =
    (List.range g.passes.length).map (DependencyGraph.ofPasses g.passes).dependenciesOf
  planned : g.phase = .compiled →
    g.plan = .ofAnalysis (.ofPasses g.passes g.registry) g.passes g.registry

namespace IsFresh

/-- Nothing is claimed of a graph in which something was declared since. -/
theorem of_declaring (hphase : g.phase = .declaring) : g.IsFresh where
  analysed := fun h => absurd hphase h
  dependent := fun h => absurd hphase h
  planned := fun h => by rw [hphase] at h; cases h

/-- Whether it was made before or not, the analysis that is compiled is that of the declarations. -/
theorem compiledAnalysis_eq (hg : g.IsFresh) :
    g.compiledAnalysis = .ofPasses g.passes g.registry ∧
      g.currentAnalysis.value.2.map (·.dependencies) =
        (List.range g.passes.length).map (DependencyGraph.ofPasses g.passes).dependenciesOf := by
  obtain ⟨hphase, hanalysis, hnodes⟩ | ⟨hanalysis, hnodes⟩ := g.currentAnalysis_cases
  · rw [hnodes]
    exact ⟨Option.some.inj (hanalysis.symm.trans (hg.analysed hphase)), hg.dependent hphase⟩
  · rw [hnodes]
    exact ⟨Option.some.inj (hanalysis.symm.trans g.analysis_analyse), g.dependencies_analyse⟩

/-- Nothing changes for resources that keep their outlines. -/
theorem of_sameOutline (hg : g.IsFresh) (hsound : g.IsSound) {registry : Registry}
    (hsame : g.registry.SameOutline registry) (hr : registry.WellFormed) :
    IsFresh { g with registry } where
  analysed := fun h => (hg.analysed h).trans
    (congrArg some (Analysis.ofPasses_congr hsame hsound.declared))
  dependent := hg.dependent
  planned := fun h => (hg.planned h).trans (Plan.ofAnalysis_congr hsame hsound.declared hr)

theorem register (hg : g.IsFresh) (hsound : g.IsSound) (op : Registry.Operation) :
    (g.register op).value.2.IsFresh := by
  have hphase := phase_register g op
  cases hkeeps : keepsPlan op with
  | true =>
      rw [hkeeps, if_pos rfl] at hphase
      have hnew := hg.of_sameOutline hsound (g.registry.sameOutline_perform hkeeps)
        (hsound.declared.register op).wellFormed
      exact ⟨fun h => hnew.analysed (hphase ▸ h), fun h => hnew.dependent (hphase ▸ h),
        fun h => hnew.planned (hphase ▸ h)⟩
  | false =>
      rw [hkeeps, if_neg Bool.false_ne_true] at hphase
      exact of_declaring hphase

/-- Marks and dependencies are those of the declarations, whatever was noted down before. -/
theorem analyse (g : Graph) : g.analyse.value.IsFresh where
  analysed := fun _ => by
    rw [analysis_analyse, passes_analyse]
    rfl
  dependent := fun _ => by rw [dependencies_analyse, passes_analyse]
  planned := fun h => by rw [phase_analyse] at h; cases h

/-- So are the order, the table and the barriers. -/
theorem compile (hg : g.IsFresh) (hsound : g.IsSound) : g.compile.value.IsFresh where
  analysed := fun _ => by
    rw [analysis_compile, passes_compile, hg.compiledAnalysis_eq.1,
      Analysis.ofPasses_congr g.sameOutline_compile hsound.declared]
  dependent := fun _ => by
    rw [g.map_nodes_compile fun _ _ => rfl, passes_compile]
    exact hg.compiledAnalysis_eq.2
  planned := fun _ => by
    have hwell := hsound.compile.declared.wellFormed
    rw [plan_compile, passes_compile, hg.compiledAnalysis_eq.1,
      Plan.ofAnalysis_congr g.sameOutline_compile hsound.declared hwell]

theorem upToDate (hg : g.IsFresh) (hsound : g.IsSound) : g.upToDate.IsFresh := by
  unfold Graph.upToDate
  split
  · exact hg
  · exact hg.compile hsound

theorem perform (hg : g.IsFresh) (hsound : g.IsSound) {action : Action}
    (hstep : g.perform action = .ok g') : g'.IsFresh := by
  cases action with
  | register op => cases hstep; exact hg.register hsound op
  | addPass d => cases hstep; exact of_declaring (phase_addPass g d)
  | clear => cases hstep; exact of_declaring rfl
  | analyse => cases hstep; exact analyse g
  | compile => cases hstep; exact hg.compile hsound
  | execute index =>
      -- A frame leaves the declarations and the plan as they are.
      obtain ⟨-, rfl⟩ | ⟨-, r, -, rfl⟩ := perform_execute_cases hstep
      · exact hg
      · have hcompiled := hg.upToDate hsound
        exact ⟨hcompiled.analysed, hcompiled.dependent, hcompiled.planned⟩
  | dispose => cases hstep; exact ⟨hg.analysed, hg.dependent, hg.planned⟩
  | takeCommands => cases hstep; exact ⟨hg.analysed, hg.dependent, hg.planned⟩

/-- Compiled graphs with the same declarations agree in everything that was found out about them. -/
theorem agree (hg : g.IsFresh) (hg' : g'.IsFresh) (hcompiled : g.phase = .compiled)
    (hcompiled' : g'.phase = .compiled) (hpasses : g.passes = g'.passes)
    (hsame : g.registry.SameOutline g'.registry) (hsound : g.IsSound) (hsound' : g'.IsSound) :
    g.dependencyGraph = g'.dependencyGraph ∧ g.nodes = g'.nodes ∧ g.order = g'.order ∧
      g.table = g'.table := by
  have hphase : g.phase ≠ .declaring := by simp [hcompiled]
  have hphase' : g'.phase ≠ .declaring := by simp [hcompiled']
  have hanalysis : g.analysis = g'.analysis := by
    rw [hg.analysed hphase, hg'.analysed hphase', ← hpasses,
      Analysis.ofPasses_congr hsame hsound.declared]
  have hdependencies : g.nodes.map (·.dependencies) = g'.nodes.map (·.dependencies) := by
    rw [hg.dependent hphase, hg'.dependent hphase', hpasses]
  have hplan : g.plan = g'.plan := by
    rw [hg.planned hcompiled, hg'.planned hcompiled', ← hpasses,
      Plan.ofAnalysis_congr hsame hsound.declared hsound'.declared.wellFormed]
  obtain ⟨graph, hgraph, ha⟩ := Option.map_eq_some_iff.1 (hg.analysed hphase)
  obtain ⟨graph', hgraph', ha'⟩ :=
    Option.map_eq_some_iff.1 ((hanalysis.symm.trans (hg.analysed hphase)))
  have hparts := Analysis.mk.inj (ha.trans ha'.symm)
  have hplanned := Plan.mk.inj hplan
  exact ⟨by rw [hgraph, hgraph', hparts.1],
    PassNode.list_eq_of_columns hpasses hparts.2 hdependencies hplanned.2.2, hplanned.1, hplanned.2.1⟩

end IsFresh

theorem Reachable.isFresh (hg : g.Reachable) : g.IsFresh := by
  induction hg with
  | start policy settings => exact .of_declaring rfl
  | perform action hg hstep ih => exact ih.perform hg.isSound hstep

/-- The declarations of a graph, on any device, before anything was made of them. -/
def redeclared (g : Graph) (device : Device) (settings : Settings) : Graph :=
  { Graph.empty device settings with
    nodes := g.passes.map .fresh
    registry := g.registry.setLifetimes fun _ => none }

theorem passes_redeclared (g : Graph) (device : Device) (settings : Settings) :
    (g.redeclared device settings).passes = g.passes := PassNode.passes_fresh g.passes

theorem IsSound.redeclared (hg : g.IsSound) (device : Device) (settings : Settings) :
    (g.redeclared device settings).IsSound where
  declared := by
    rw [passes_redeclared]
    exact hg.declared.setLifetimes _
  analysed := fun h => absurd rfl h
  planned := fun h => by cases h

/-- The lifetimes were overwritten when the plan was made, and nothing has touched them since. -/
theorem Reachable.registry_eq (hg : g.Reachable) (hphase : g.phase = .compiled)
    (lifetimes : Handle → Option Lifetime) :
    (g.registry.setLifetimes lifetimes).setLifetimes (lifetimeOf g.plan.order g.passes) =
      g.registry := by
  have hlifetimes : g.registry.table.mapValues (fun h resource =>
      { resource with lifetime := lifetimeOf g.plan.order g.passes h }) = g.registry.table :=
    SlotTable.mapValues_eq_self fun h resource hget => by
      rw [← hg.isTimed hphase h resource hget]
  unfold Registry.setLifetimes
  rw [SlotTable.mapValues_mapValues, hlifetimes]

/-- **A compiled plan is never stale.**  The dependency graph, what is known about every pass (its mark,
its dependencies and the barriers around it), the order, the timelines along it, and the resources
with their lifetimes are those of a graph that has seen nothing but the current declarations. -/
theorem Reachable.plan_eq_fresh (hg : g.Reachable) (hcompiled : g.isCompiled = true)
    (device : Device) (settings : Settings) :
    let fresh := (g.redeclared device settings).analyse.value.compile.value
    g.dependencyGraph = fresh.dependencyGraph ∧ g.nodes = fresh.nodes ∧ g.order = fresh.order ∧
      g.table = fresh.table ∧ g.registry = fresh.registry := by
  intro fresh
  have hphase : g.phase = .compiled := of_decide_eq_true hcompiled
  have hsound := (hg.isSound.redeclared device settings).analyse
  have hpasses : (g.redeclared device settings).analyse.value.passes = g.passes :=
    (passes_analyse _).trans (g.passes_redeclared device settings)
  have hsame : g.registry.SameOutline fresh.registry :=
    (g.registry.sameOutline_setLifetimes _).trans
      (sameOutline_compile (g.redeclared device settings).analyse.value)
  obtain ⟨hgraph, hnodes, horder, htable⟩ := hg.isFresh.agree ((IsFresh.analyse _).compile hsound)
    hphase (phase_compile _) (hpasses.symm.trans (passes_compile _).symm) hsame hg.isSound
    hsound.compile
  refine ⟨hgraph, hnodes, horder, htable, ?_⟩
  have hregistry := registry_compile (g.redeclared device settings).analyse.value
  rw [hpasses] at hregistry
  refine (hg.registry_eq hphase fun _ => none).symm.trans (Eq.trans ?_ hregistry.symm)
  exact congrArg (fun order => ((g.registry.setLifetimes fun _ => none).setLifetimes
    (lifetimeOf order g.passes))) horder

/-- What is drawn first is forgotten, and something else is drawn instead; later more is drawn over it. -/
def redrawing : List Action :=
  [.register (.createImage "draft" (.flat 4 4 .b8g8r8a8Srgb ImageUsage.colorAttachment) false),
    .register (.markOutput "draft"),
    .addPass ⟨"sketch", .graphics .azure, [.write "draft" .colorAttachment], none⟩,
    .compile, .clear,
    .register (.importImage "screen" 1 2 (.flat 4 4 .b8g8r8a8Srgb ImageUsage.colorAttachment)
      .present .present),
    .addPass ⟨"unused", .compute, [.createBuffer "scrap" { size := 64 } false], none⟩,
    .addPass ⟨"draw", .graphics .azure, [.write "screen" .colorAttachment], none⟩,
    .compile, .addPass ⟨"cover", .graphics .azure, [.write "screen" .colorAttachment], none⟩,
    .compile, .register (.updateImage "screen" 3 4), .execute 0]

/-- Nothing of the first plan is left in the second, and the barrier that handed the screen back in the
second is behind the last pass of the third. -/
theorem plan_eq_fresh_redrawing :
    ∃ g, (Graph.empty {} {}).performAll redrawing = .ok g ∧ g.isCompiled = true ∧
      g.plan.order = [1, 2] ∧ (g.barriersOf 1).after.count = 0 ∧ (g.barriersOf 2).after.count = 1 ∧
      g.nodes = (g.redeclared {} {}).analyse.value.compile.value.nodes := by
  have hrun : succeeds ((Graph.empty {} {}).performAll redrawing)
      (fun g => decide (g.isCompiled = true ∧ g.plan.order = [1, 2] ∧
        (g.barriersOf 1).after.count = 0 ∧ (g.barriersOf 2).after.count = 1)) = true := by
    decide +kernel
  obtain ⟨g, hperformed, hcheck⟩ := exists_of_succeeds hrun
  obtain ⟨hcompiled, horder, hcleared, hmoved⟩ := of_decide_eq_true hcheck
  have hg := reachable_of_performAll (.start {} {}) hperformed
  exact ⟨g, hperformed, hcompiled, horder, hcleared, hmoved, (hg.plan_eq_fresh hcompiled {} {}).2.1⟩

end Graph

end FrameGraph
