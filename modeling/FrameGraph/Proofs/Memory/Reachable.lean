import FrameGraph.Proofs.Graph.Reachable
import FrameGraph.Proofs.Memory.Holdings

/-!
# What a graph holds after a run

Whatever is done with a graph, and whatever its device refuses, the graph holds its memory and its
objects in good order.  Only a new frame of the same index and the disposal of the graph end the
resources of a frame; every run of other actions leaves them alone.

Principal statements: `Reachable.holdings` and `spares_performAll`.
-/

set_option autoImplicit false

namespace FrameGraph

/-- Holds if the action ends the resources of a frame. -/
def Action.ends (frame : Nat) : Action → Bool
  | .execute index => index = frame
  | .dispose => true
  | _ => false

namespace Graph

variable {g g' : Graph}

/-- What a graph holds, as a frame finds it. -/
def held (g : Graph) : Resolution where
  device := g.device
  backings := g.backings
  pool := g.pool

/-- Performs actions one after another. -/
def performAll (g : Graph) (actions : List Action) : Except Fault Graph := actions.foldlM perform g

theorem performAll_cons_eq_ok_iff {action : Action} {rest : List Action} :
    g.performAll (action :: rest) = .ok g' ↔
      ∃ middle, g.perform action = .ok middle ∧ middle.performAll rest = .ok g' := by
  unfold performAll
  rw [List.foldlM_cons]
  exact bind_eq_ok_iff

theorem reachable_of_performAll {actions : List Action} (hg : g.Reachable)
    (hrun : g.performAll actions = .ok g') : g'.Reachable := by
  induction actions generalizing g with
  | nil =>
      cases hrun
      exact hg
  | cons action rest ih =>
      obtain ⟨middle, hstep, hrest⟩ := performAll_cons_eq_ok_iff.1 hrun
      exact ih (.perform action hg hstep) hrest

/-- Holds if a computation succeeds, and what it answers passes a check. -/
def succeeds {α : Type} (x : Except Fault α) (check : α → Bool) : Bool :=
  match x with
  | .error _ => false
  | .ok a => check a

theorem exists_of_succeeds {α : Type} {x : Except Fault α} {check : α → Bool}
    (h : succeeds x check = true) : ∃ a, x = .ok a ∧ check a = true := by
  cases x with
  | error fault => cases h
  | ok a => exact ⟨a, rfl, h⟩

/-- Performs actions on a fresh graph and then executes a frame; holds if all of it succeeds and the
graphs before and after the frame pass a check. -/
def checkFrame (actions : List Action) (index : Nat) (check : Graph → Graph → Bool) : Bool :=
  match (Graph.empty {} {}).performAll actions with
  | .error _ => false
  | .ok g =>
      match (g.execute index).result with
      | .error _ => false
      | .ok (_, g') => decide (index < g.settings.framesInFlight) && check g g'

theorem exists_of_checkFrame {actions : List Action} {index : Nat} {check : Graph → Graph → Bool}
    (h : checkFrame actions index check = true) :
    ∃ (g g' : Graph) (ran : List Invocation), g.Reachable ∧ index < g.settings.framesInFlight ∧
      (g.execute index).result = .ok (ran, g') ∧ check g g' = true := by
  unfold checkFrame at h
  split at h
  · cases h
  · next g hdeclared =>
      split at h
      · cases h
      · next ran g' hexecuted =>
          rw [Bool.and_eq_true, decide_eq_true_eq] at h
          exact ⟨g, g', ran, reachable_of_performAll (.start {} {}) hdeclared, h.1, hexecuted, h.2⟩

/-- A frame after which a property holds that can be decided. -/
theorem exists_of_decideFrame {actions : List Action} {index : Nat} {P : Graph → Prop}
    [DecidablePred P] (h : checkFrame actions index (fun _ g' => decide (P g')) = true) :
    ∃ (g g' : Graph) (ran : List Invocation), g.Reachable ∧ index < g.settings.framesInFlight ∧
      (g.execute index).result = .ok (ran, g') ∧ P g' := by
  obtain ⟨g, g', ran, hg, hindex, hrun, hcheck⟩ := exists_of_checkFrame h
  exact ⟨g, g', ran, hg, hindex, hrun, of_decide_eq_true hcheck⟩

/-! ## The beginning of a frame -/

section Beginning

variable (hg : Holdings g.device g.pool g.backings)

include hg

/-- Compiling gives up stale backings only. -/
theorem settles_compile (index : Nat) : Resolution.Settles index g.held g.compile.value.held := by
  obtain ⟨hholdings, hspares⟩ := hg.releaseStale g.compile.value.registry
  refine ⟨hholdings, fun frame _ => hspares frame, ?_⟩
  show (Backings.releaseStale g.backings g.compile.value.registry g.device).value.2.commands = _
  rw [Backings.releaseStale, List.partition_eq_filter_filter]
  exact Holdings.commands_release _ g.device

theorem settles_upToDate (index : Nat) : Resolution.Settles index g.held g.upToDate.held := by
  unfold upToDate
  split
  · exact .refl index hg
  · exact settles_compile hg index

/-- A frame begins with the end of what it held before. -/
theorem settles_recycle (index : Nat) :
    Resolution.Settles index g.held (g.recycle index).held := by
  have hshare : Holdings g.device { g.pool with shareMemory := g.settings.shareMemory } g.backings :=
    hg.of_places rfl rfl
  refine ⟨hshare.recycle index, fun frame hne => ?_, ?_⟩
  · have hspares := hshare.spares_recycle hne
    exact ⟨⟨hspares.pool.live, hspares.pool.blocks⟩, hspares.located⟩
  · show (Pool.recycle _ g.device index).2.commands = g.device.commands
    unfold Pool.recycle
    dsimp only
    rw [Holdings.foldl_destroy_object]
    exact (Device.destroyAll _ g.device).2.2.1

theorem settles_resolution (index : Nat) :
    Resolution.Settles index g.held (g.resolution index) := by
  have hcompiled := settles_upToDate hg index
  exact hcompiled.trans (settles_recycle hcompiled.holdings index)

/-- **A frame is resolved**, and nothing but the resources of its index has changed. -/
theorem settles_frame {index : Nat} {r : Resolution}
    (hok : (resolveFrame index g.upToDate.registry g.upToDate.plan.table
      (g.resolution index)).result = .ok r) : Resolution.Settles index g.held r := by
  have hstart := settles_resolution hg index
  exact hstart.trans (settles_resolveFrame hstart.holdings hok)

end Beginning

/-! ## Every action -/

theorem holdings_dispose (hg : Holdings g.device g.pool g.backings) :
    Holdings g.dispose.device g.dispose.pool g.dispose.backings := by
  have hlive : ∀ live : List LiveObject,
      (live.foldl (fun device x => device.destroy x.object) g.device).WellFormed := by
    intro live
    rw [Holdings.foldl_destroy_object]
    exact (Device.destroyAll _ g.device).1 hg.device
  refine .nothing ?_ g.pool.shareMemory
  refine List.foldlRecOn _ _ ?_ fun d hd e _ => (hd.destroy e.2.object).free e.2.memory
  exact List.foldlRecOn _ _ (hlive g.pool.live) fun d hd block _ => hd.free block.memory

/-- **Every action keeps what is held in order.** -/
theorem holdings_perform (hg : Holdings g.device g.pool g.backings) {action : Action}
    (hstep : g.perform action = .ok g') : Holdings g'.device g'.pool g'.backings := by
  cases action with
  | register op => cases hstep; exact hg
  | addPass d => cases hstep; exact hg
  | clear => cases hstep; exact hg
  | analyse => cases hstep; exact hg
  | compile => cases hstep; exact (settles_compile hg 0).holdings
  | execute index =>
      obtain ⟨-, rfl⟩ | ⟨-, r, hok, rfl⟩ := perform_execute_cases hstep
      · exact hg
      · exact (settles_frame hg hok).holdings.withCommands _
  | dispose => cases hstep; exact holdings_dispose hg
  | takeCommands => cases hstep; exact hg.withCommands []

/-- **Whatever was done with a graph, what it holds is in order.** -/
theorem Reachable.holdings (hg : g.Reachable) : Holdings g.device g.pool g.backings := by
  induction hg with
  | start policy settings => exact .nothing (Device.wellFormed_fresh policy) settings.shareMemory
  | perform action _ hstep ih => exact holdings_perform ih hstep

/-- **An action that does not end a frame leaves its resources alone.** -/
theorem spares_perform (hg : Holdings g.device g.pool g.backings) {action : Action} {frame : Nat}
    (hends : action.ends frame = false) (hstep : g.perform action = .ok g') :
    Spares frame g.device g.pool g'.device g'.pool := by
  cases action with
  | register op => cases hstep; exact .refl frame g.device g.pool
  | addPass d => cases hstep; exact .refl frame g.device g.pool
  | clear => cases hstep; exact .refl frame g.device g.pool
  | analyse => cases hstep; exact .refl frame g.device g.pool
  | compile =>
      cases hstep
      exact (settles_compile hg (frame + 1)).spares frame (Nat.succ_ne_self frame)
  | execute index =>
      have hne : index ≠ frame := of_decide_eq_false hends
      obtain ⟨-, rfl⟩ | ⟨-, r, hok, rfl⟩ := perform_execute_cases hstep
      · exact .refl frame _ _
      · have hspares := (settles_frame hg hok).spares frame hne
        exact ⟨hspares.pool, hspares.located⟩
  | dispose => cases hends
  | takeCommands => cases hstep; exact ⟨.refl frame g.pool, fun _ _ _ => rfl⟩

/-- **A run that does not end a frame leaves its resources alone.** -/
theorem spares_performAll (hg : Holdings g.device g.pool g.backings) {actions : List Action}
    {frame : Nat} (hends : ∀ action ∈ actions, action.ends frame = false)
    (hrun : g.performAll actions = .ok g') : Spares frame g.device g.pool g'.device g'.pool := by
  induction actions generalizing g with
  | nil =>
      cases hrun
      exact .refl frame _ _
  | cons action rest ih =>
      obtain ⟨middle, hstep, hrest⟩ := performAll_cons_eq_ok_iff.1 hrun
      have hfirst := spares_perform hg (hends action List.mem_cons_self) hstep
      have hlater := ih (holdings_perform hg hstep)
        (fun a ha => hends a (List.mem_cons_of_mem _ ha)) hrest
      exact hfirst.trans hlater

end Graph

end FrameGraph
