import FrameGraph.Graph.Execute
import FrameGraph.Proofs.Graph.Compiled
import FrameGraph.Proofs.Pruning

/-!
# What can become of a graph

A graph starts without declarations on a device that has done nothing yet; from there on its
declarations, analyses, frames and disposals come in any order.  Whatever came before, the
declarations are in order, and the plan of a compiled graph is that of its declarations, up to what
does not matter for it: the objects behind imported resources.

Principal statements: `Reachable.isSound`, and `execute_eq_ok_iff`, which says how a frame is executed.
-/

set_option autoImplicit false

namespace FrameGraph

/-! ## Actions -/

/-- What can be done with a graph and its device. -/
inductive Action where
  | register (op : Registry.Operation)
  | addPass (d : PassDeclaration)
  | clear
  | analyse
  | compile
  | execute (index : Nat)
  | dispose
  /-- The recorded commands are taken from the device. -/
  | takeCommands

/-- The plan for the passes and resources of a registry, along some order. -/
structure Plan.IsFor (plan : Plan) (passes : List Pass) (registry : Registry) : Prop where
  nodup : plan.order.Nodup
  table : plan.table = .along plan.order passes registry
  barriers : plan.barriers = compiledAlong plan.order passes registry

theorem Plan.isFor_ofAnalysis (passes : List Pass) (registry registry' : Registry) :
    (Plan.ofAnalysis (.ofPasses passes registry) passes registry').IsFor passes registry' where
  nodup := ScheduleInput.nodup_value_order ⟨consistent_ofPasses passes, passCount_ofPasses passes,
    Analysis.length_reachable_ofPasses passes registry⟩
  table := rfl
  barriers := rfl

namespace Graph

/-- Performs an action. -/
def perform (g : Graph) : Action → Except Fault Graph
  | .register op => .ok (g.register op).value.2
  | .addPass d => .ok (g.addPass d).value.2
  | .clear => .ok g.clear
  | .analyse => .ok g.analyse.value
  | .compile => .ok g.compile.value
  | .execute index => (g.execute index).result.map (·.2)
  | .dispose => .ok g.dispose
  | .takeCommands => .ok { g with device := g.device.drainCommands.2 }

/-- The graphs that arise on a fresh device, whatever its policy. -/
inductive Reachable : Graph → Prop
  | start (policy : DevicePolicy) (settings : Settings) :
      Reachable (.empty { policy } settings)
  | perform {g g' : Graph} (action : Action) :
      Reachable g → g.perform action = .ok g' → Reachable g'

/-! ## How a frame is executed -/

/-- The graph with the plan of its declarations. -/
def upToDate (g : Graph) : Graph := if g.isCompiled then g else g.compile.value

theorem settings_upToDate (g : Graph) : g.upToDate.settings = g.settings := by
  unfold upToDate
  split <;> rfl

theorem passes_upToDate (g : Graph) : g.upToDate.passes = g.passes := by
  unfold upToDate
  split
  · rfl
  · exact g.passes_compile

theorem pool_upToDate (g : Graph) : g.upToDate.pool = g.pool := by
  unfold upToDate
  split <;> rfl

/-- This is how a frame brings the plan up to date. -/
theorem value_upToDate (g : Graph) :
    (if g.isCompiled then pure g else g.compile : Logged Graph).value = g.upToDate := by
  unfold upToDate
  split <;> rfl

/-- What the resources of a frame are resolved from. -/
def resolution (g : Graph) (index : Nat) : Resolution :=
  let recycled := g.upToDate.recycle index
  { device := recycled.device, backings := recycled.backings, pool := recycled.pool }

/-- What a frame is recorded from. -/
def frame (g : Graph) (index : Nat) (r : Resolution) : FrameInput :=
  g.upToDate.frameInput index r.frame

/-- The recorded frame. -/
def frameRun (g : Graph) (index : Nat) (r : Resolution) : FrameRun :=
  ((g.frame index r).record g.upToDate.states g.upToDate.plan.order).value

/-- The graph after a frame. -/
def afterFrame (g : Graph) (index : Nat) (r : Resolution) : Graph :=
  { g.upToDate with
    pool := r.pool
    device := r.device.record (g.frameRun index r).commands
    backings := r.backings
    states := (g.frameRun index r).states
    objects := r.frame.objects }

/-- A frame in flight is executed in three steps. -/
theorem execute_of_in_flight {g : Graph} {index : Nat} (hindex : index < g.settings.framesInFlight) :
    g.execute index = Outcome.ofLogged (if g.isCompiled then pure g else g.compile) >>= fun g =>
      (g.recycle index).resolve index >>= fun x => Outcome.ofLogged (x.2.recordFrame index x.1) :=
  if_neg (Nat.not_le.2 hindex)

theorem result_execute {g : Graph} {index : Nat} (hindex : index < g.settings.framesInFlight) :
    (g.execute index).result =
      ((g.upToDate.recycle index).resolve index >>=
        fun x => Outcome.ofLogged (x.2.recordFrame index x.1)).result := by
  rw [execute_of_in_flight hindex, ← value_upToDate]
  rfl

/-- **Executing a frame succeeds exactly if its resources are resolved.** -/
theorem execute_eq_ok_iff {g g' : Graph} {index : Nat} {ran : List Invocation}
    (hindex : index < g.settings.framesInFlight) :
    (g.execute index).result = .ok (ran, g') ↔
      ∃ r, (resolveFrame index g.upToDate.registry g.upToDate.plan.table
          (g.resolution index)).result = .ok r ∧
        ran = (g.frameRun index r).invocations ∧ g' = g.afterFrame index r := by
  rw [result_execute hindex]
  constructor
  · intro hrun
    obtain ⟨resolved, hresolve, hrecord⟩ := Outcome.result_bind_eq_ok_iff.1 hrun
    obtain ⟨r, hok, hpure⟩ := Outcome.result_bind_eq_ok_iff.1 hresolve
    cases hpure
    cases hrecord
    exact ⟨r, hok, rfl, rfl⟩
  · rintro ⟨r, hok, rfl, rfl⟩
    let resolved : Graph :=
      { g.upToDate.recycle index with device := r.device, backings := r.backings, pool := r.pool }
    have hresolve : ((g.upToDate.recycle index).resolve index).result = .ok (r.frame, resolved) :=
      Outcome.result_bind_eq_ok_iff.2 ⟨r, hok, rfl⟩
    exact Outcome.result_bind_eq_ok_iff.2 ⟨_, hresolve, rfl⟩

theorem perform_execute_eq_ok_iff {g g' : Graph} {index : Nat}
    (hindex : index < g.settings.framesInFlight) :
    g.perform (.execute index) = .ok g' ↔
      ∃ r, (resolveFrame index g.upToDate.registry g.upToDate.plan.table
          (g.resolution index)).result = .ok r ∧ g' = g.afterFrame index r := by
  have hperform : g.perform (.execute index) = .ok g' ↔
      ∃ ran, (g.execute index).result = .ok (ran, g') := by
    cases hrun : (g.execute index).result <;> simp [perform, hrun, Except.map, Prod.ext_iff]
  rw [hperform]
  constructor
  · rintro ⟨ran, hrun⟩
    obtain ⟨r, hok, -, hg'⟩ := (execute_eq_ok_iff hindex).1 hrun
    exact ⟨r, hok, hg'⟩
  · rintro ⟨r, hok, hg'⟩
    exact ⟨_, (execute_eq_ok_iff hindex).2 ⟨r, hok, rfl, hg'⟩⟩

/-- What executing a frame does to a graph: nothing if the index is not in flight. -/
theorem perform_execute_cases {g g' : Graph} {index : Nat}
    (h : g.perform (.execute index) = .ok g') :
    (g.settings.framesInFlight ≤ index ∧ g' = g) ∨
      (index < g.settings.framesInFlight ∧
        ∃ r, (resolveFrame index g.upToDate.registry g.upToDate.plan.table
            (g.resolution index)).result = .ok r ∧ g' = g.afterFrame index r) := by
  by_cases hindex : index < g.settings.framesInFlight
  · exact .inr ⟨hindex, (perform_execute_eq_ok_iff hindex).1 h⟩
  · have hge := Nat.not_lt.1 hindex
    simp only [perform, execute_of_out_of_range hge] at h
    cases h
    exact .inl ⟨hge, rfl⟩

/-! ## The declarations and the plan -/

/-- The declarations are in order; an analysis is that of the passes, and the plan of a compiled graph
is that of its declarations. -/
structure IsSound (g : Graph) : Prop where
  declared : Declared g.registry g.passes
  analysed : g.phase ≠ .declaring → ∃ registry, g.analysis = some (.ofPasses g.passes registry)
  planned : g.phase = .compiled → ∃ registry, Declared registry g.passes ∧
    registry.SameOutline g.registry ∧ g.plan.IsFor g.passes registry

namespace IsSound

variable {g : Graph}

/-- Whether it was made before or not, the analysis is that of the passes. -/
theorem exists_compiledAnalysis (hg : g.IsSound) :
    ∃ registry, g.compiledAnalysis = .ofPasses g.passes registry := by
  obtain ⟨hphase, hanalysis, -⟩ | ⟨hanalysis, -⟩ := g.currentAnalysis_cases
  · obtain ⟨registry, hregistry⟩ := hg.analysed hphase
    exact ⟨registry, Option.some.inj (hanalysis.symm.trans hregistry)⟩
  · exact ⟨g.registry, Option.some.inj (hanalysis.symm.trans g.analysis_analyse)⟩

theorem register (hg : g.IsSound) (op : Registry.Operation) :
    (g.register op).value.2.IsSound := by
  have hdeclared : Declared (g.registry.perform op).value.2 g.passes := hg.declared.register op
  have hphase := phase_register g op
  cases hkeeps : keepsPlan op with
  | true =>
      rw [hkeeps, if_pos rfl] at hphase
      refine ⟨hdeclared, fun h => hg.analysed (hphase ▸ h), fun h => ?_⟩
      obtain ⟨registry, hplanned, hsame, hplan⟩ := hg.planned (hphase ▸ h)
      exact ⟨registry, hplanned, hsame.trans (g.registry.sameOutline_perform hkeeps), hplan⟩
  | false =>
      rw [hkeeps, if_neg Bool.false_ne_true] at hphase
      exact ⟨hdeclared, fun h => absurd hphase h, fun h => by rw [hphase] at h; cases h⟩

theorem addPass (hg : g.IsSound) (d : PassDeclaration) : (g.addPass d).value.2.IsSound where
  declared := by
    rw [passes_addPass]
    exact hg.declared.addPass d.name d.kind d.acts d.callback
  analysed := fun h => absurd (phase_addPass g d) h
  planned := fun h => by rw [phase_addPass] at h; cases h

theorem clear (hg : g.IsSound) : g.clear.IsSound where
  declared := hg.declared.clear
  analysed := fun h => absurd rfl h
  planned := fun h => by cases h

theorem analyse (hg : g.IsSound) : g.analyse.value.IsSound where
  declared := by
    rw [g.passes_analyse]
    exact hg.declared
  analysed := fun _ => by
    rw [g.passes_analyse]
    exact ⟨g.registry, g.analysis_analyse⟩
  planned := fun h => by rw [phase_analyse] at h; cases h

theorem compile (hg : g.IsSound) : g.compile.value.IsSound where
  declared := by
    rw [passes_compile, registry_compile]
    exact hg.declared.setLifetimes _
  analysed := fun _ => by
    obtain ⟨registry, hanalysis⟩ := hg.exists_compiledAnalysis
    exact ⟨registry, by rw [analysis_compile, hanalysis, passes_compile]⟩
  planned := fun _ => by
    obtain ⟨registry, hanalysis⟩ := hg.exists_compiledAnalysis
    have hplan := Plan.isFor_ofAnalysis g.passes registry g.registry
    rw [← hanalysis, ← plan_compile] at hplan
    rw [passes_compile, registry_compile]
    exact ⟨g.registry, hg.declared, g.registry.sameOutline_setLifetimes _, hplan⟩

theorem upToDate (hg : g.IsSound) : g.upToDate.IsSound ∧ g.upToDate.phase = .compiled := by
  unfold Graph.upToDate
  split
  · next h => exact ⟨hg, of_decide_eq_true h⟩
  · exact ⟨hg.compile, phase_compile g⟩

theorem perform (hg : g.IsSound) {g' : Graph} (action : Action)
    (hstep : g.perform action = .ok g') : g'.IsSound := by
  cases action with
  | register op => cases hstep; exact hg.register op
  | addPass d => cases hstep; exact hg.addPass d
  | clear => cases hstep; exact hg.clear
  | analyse => cases hstep; exact hg.analyse
  | compile => cases hstep; exact hg.compile
  | execute index =>
      -- A frame leaves the declarations and the plan as they are.
      obtain ⟨-, rfl⟩ | ⟨-, r, -, rfl⟩ := perform_execute_cases hstep
      · exact hg
      · exact ⟨hg.upToDate.1.declared, hg.upToDate.1.analysed, hg.upToDate.1.planned⟩
  | dispose => cases hstep; exact ⟨hg.declared, hg.analysed, hg.planned⟩
  | takeCommands => cases hstep; exact ⟨hg.declared, hg.analysed, hg.planned⟩

end IsSound

/-- **The declarations and the plan of every graph are in order.** -/
theorem Reachable.isSound {g : Graph} (hg : g.Reachable) : g.IsSound := by
  induction hg with
  | start policy settings =>
      exact ⟨.start, fun h => absurd rfl h, fun h => by cases h⟩
  | perform action _ hstep ih => exact ih.perform action hstep

/-- Bringing the plan up to date is an action, if it is one at all. -/
theorem Reachable.upToDate {g : Graph} (hg : g.Reachable) : g.upToDate.Reachable := by
  unfold Graph.upToDate
  split
  · exact hg
  · exact .perform .compile hg rfl

end Graph

end FrameGraph
