import FrameGraph.Proofs.Frame.Faults
import FrameGraph.Proofs.Graph.Fresh
import FrameGraph.Proofs.Memory.Stale

/-!
# Graphs that are declared alike

Two graphs are declared alike if they have the same passes and the same resources, up to the objects of
imported ones.  Analysing, compiling and executing does not change what is declared, and what is
compiled from it is the same, whenever it is compiled.

Principal statements: `Graph.declaredAlike_perform` and `Graph.DeclaredAlike.transientsInOrder_eq`.
-/

set_option autoImplicit false

namespace FrameGraph

/-- The resource, unless it is imported. -/
def Resource.own? (resource : Resource) : Option Resource :=
  if resource.isImported then none else some resource

theorem Resource.own?_of_outline {a b : Resource} (houtline : a.outline = b.outline)
    (hlifetime : a.lifetime = b.lifetime) : a.own? = b.own? := by
  obtain ⟨name, info, source, isOutput, lifetime⟩ := a
  obtain ⟨name', info', source', isOutput', lifetime'⟩ := b
  simp only [Resource.outline, Resource.mk.injEq, and_true] at houtline
  obtain ⟨rfl, rfl, hsource, rfl⟩ := houtline
  obtain rfl : lifetime = lifetime' := hlifetime
  cases source <;> cases source' <;> simp_all [own?, isImported, Source.outline]

theorem Resource.own?_eq_some {a b : Resource} : a.own? = some b ↔ a.isImported = false ∧ a = b := by
  unfold own?
  cases a.isImported <;> simp

/-- The transient resources of a registry depend on its own resources. -/
theorem transientsInOrder_congr {r r' : Registry}
    (h : ∀ k, (r.get? k).map Resource.own? = (r'.get? k).map Resource.own?) :
    transientsInOrder r = transientsInOrder r' := by
  have hlist : ∀ registry : Registry, transientsInOrder registry =
      ((registry.toList.map fun entry => (entry.1, entry.2.own?)).filterMap fun entry =>
        entry.2.bind fun resource =>
          if resource.isTransient then
            resource.lifetime.map fun lifetime => (entry.1, resource, lifetime)
          else none).mergeSort fun a b => a.2.2.servedBefore b.2.2 := by
    intro registry
    rw [List.filterMap_map, transientsInOrder]
    refine congrArg (fun l => List.mergeSort l _) (List.filterMap_congr fun entry _ => ?_)
    obtain ⟨k, resource⟩ := entry
    cases hsource : resource.source <;>
      simp [Resource.own?, Resource.isImported, Resource.isTransient, hsource]
  have hsame : r.toList.map (fun entry => (entry.1, entry.2.own?)) =
      r'.toList.map fun entry => (entry.1, entry.2.own?) := SlotTable.map_toList_congr h
  rw [hlist, hlist, hsame]

/-- Holds if the action retains what is declared, up to the objects of imported resources, and what was
created for it. -/
def Action.retains : Action → Bool
  | .register op => Graph.keepsPlan op
  | .addPass _ | .clear | .dispose => false
  | .analyse | .compile | .execute _ | .takeCommands => true

namespace Graph

variable {g g' g'' : Graph}

/-! ## What no action changes -/

theorem sameOutline_upToDate (g : Graph) : g.registry.SameOutline g.upToDate.registry := by
  unfold upToDate
  split
  · exact .refl _
  · exact g.sameOutline_compile

theorem settings_perform {action : Action} (hstep : g.perform action = .ok g') :
    g'.settings = g.settings := by
  cases action with
  | execute index =>
      obtain ⟨-, rfl⟩ | ⟨-, r, -, rfl⟩ := perform_execute_cases hstep
      · rfl
      · exact g.settings_upToDate
  | _ => cases hstep; rfl

theorem policy_afterFrame {index : Nat} {r : Resolution}
    (hok : (resolveFrame index g.upToDate.registry g.upToDate.plan.table
      (g.resolution index)).result = .ok r) :
    (g.afterFrame index r).device.policy = g.device.policy := by
  have hends := ends_resolveFrame index g.upToDate.registry g.upToDate.plan.table
    (policy_resolution g index)
  rw [hok] at hends
  exact hends

theorem policy_dispose (g : Graph) : g.dispose.device.policy = g.device.policy := by
  have hpool : (g.pool.release g.device).2.policy = g.device.policy := by
    unfold Pool.release
    refine (Device.policy_foldl (fun d (b : MemoryBlock) => ?_) g.pool.blocks _).trans
      (Device.policy_foldl (fun d (x : LiveObject) => d.policy_destroy x.object) g.pool.live _)
    rfl
  exact (Device.policy_foldl (fun d entry => entry.2.policy_release d) _ _).trans hpool

/-- **The device keeps its policy.** -/
theorem policy_perform {action : Action} (hstep : g.perform action = .ok g') :
    g'.device.policy = g.device.policy := by
  cases action with
  | compile => cases hstep; exact policy_compile g
  | dispose => cases hstep; exact policy_dispose g
  | execute index =>
      obtain ⟨-, rfl⟩ | ⟨-, r, hok, rfl⟩ := perform_execute_cases hstep
      · rfl
      · exact policy_afterFrame hok
  | _ => cases hstep; rfl

/-- What no action changes, no run changes. -/
theorem performAll_eq {α : Type} {f : Graph → α}
    (hf : ∀ (g g' : Graph) (action : Action), g.perform action = .ok g' → f g' = f g)
    {actions : List Action} (hrun : g.performAll actions = .ok g') : f g' = f g := by
  induction actions generalizing g with
  | nil => cases hrun; rfl
  | cons action rest ih =>
      obtain ⟨middle, hstep, hrest⟩ := performAll_cons_eq_ok_iff.1 hrun
      exact (ih hrest).trans (hf g middle action hstep)

theorem settings_performAll {actions : List Action} (hrun : g.performAll actions = .ok g') :
    g'.settings = g.settings :=
  performAll_eq (f := Graph.settings) (fun _ _ _ => settings_perform) hrun

theorem policy_performAll {actions : List Action} (hrun : g.performAll actions = .ok g') :
    g'.device.policy = g.device.policy :=
  performAll_eq (f := fun g => g.device.policy) (fun _ _ _ => policy_perform) hrun

/-! ## The same declarations -/

/-- The graphs have the same passes, and the same resources up to the objects of imported ones. -/
structure DeclaredAlike (g g' : Graph) : Prop where
  passes : g'.passes = g.passes
  registry : g.registry.SameOutline g'.registry

/-- **What is declared stays so.** -/
theorem declaredAlike_perform {action : Action} (hretains : action.retains = true)
    (hstep : g.perform action = .ok g') : g.DeclaredAlike g' := by
  cases action with
  | register op => cases hstep; exact ⟨rfl, g.registry.sameOutline_perform hretains⟩
  | analyse => cases hstep; exact ⟨g.passes_analyse, .refl _⟩
  | compile => cases hstep; exact ⟨g.passes_compile, g.sameOutline_compile⟩
  | takeCommands => cases hstep; exact ⟨rfl, .refl _⟩
  | execute index =>
      obtain ⟨-, rfl⟩ | ⟨-, r, -, rfl⟩ := perform_execute_cases hstep
      · exact ⟨rfl, .refl _⟩
      · exact ⟨g.passes_upToDate, g.sameOutline_upToDate⟩
  | addPass d => cases hretains
  | clear => cases hretains
  | dispose => cases hretains

namespace DeclaredAlike

variable (h : g.DeclaredAlike g') (hg : g.Reachable) (hg' : g'.Reachable)

include h

/-- A persistent resource that is declared in one of them is declared in the other. -/
theorem declares {name : String} {info : ResourceInfo} (hdeclared : g.Declares name info) :
    g'.Declares name info := by
  obtain ⟨k, resource, hget, rfl, hpersistent, rfl⟩ := hdeclared
  obtain ⟨resource', hget', houtline⟩ := h.registry.symm.exists_live hget
  have hname : resource'.outline.name = resource.outline.name := by rw [houtline]
  have hinfo : resource'.outline.info = resource.outline.info := by rw [houtline]
  exact ⟨k, resource', hget', hname,
    (Resource.isPersistent_of_outline houtline).trans hpersistent, hinfo⟩

include hg hg'

theorem plan_upToDate : g'.upToDate.plan = g.upToDate.plan := by
  have hfresh := (hg.isFresh.upToDate hg.isSound).planned hg.isSound.upToDate.2
  have hfresh' := (hg'.isFresh.upToDate hg'.isSound).planned hg'.isSound.upToDate.2
  have hsame := (g.sameOutline_upToDate.symm.trans h.registry).trans g'.sameOutline_upToDate
  have hpasses : g'.upToDate.passes = g.upToDate.passes :=
    (g'.passes_upToDate.trans h.passes).trans g.passes_upToDate.symm
  rw [hpasses] at hfresh'
  rw [hfresh', hfresh]
  exact (Plan.ofAnalysis_congr hsame hg.isSound.upToDate.1.declared
    hg'.isSound.upToDate.1.declared.wellFormed).symm

/-- **What is compiled from the declarations is the same.** -/
theorem own_upToDate (k : Handle) :
    (g.upToDate.registry.get? k).map Resource.own? =
      (g'.upToDate.registry.get? k).map Resource.own? := by
  have hsame := (g.sameOutline_upToDate.symm.trans h.registry).trans g'.sameOutline_upToDate
  have htimed := hg.upToDate.isTimed hg.isSound.upToDate.2
  have htimed' := hg'.upToDate.isTimed hg'.isSound.upToDate.2
  rw [h.plan_upToDate hg hg', passes_upToDate, h.passes, ← g.passes_upToDate] at htimed'
  cases hget : g'.upToDate.registry.get? k with
  | none =>
      have hk := hsame k
      rw [hget, Option.map_none, Option.map_eq_none_iff] at hk
      rw [hk]
  | some resource' =>
      obtain ⟨resource, hresource, houtline⟩ := hsame.exists_live hget
      rw [hresource, Option.map_some, Option.map_some, Resource.own?_of_outline houtline
        ((htimed k resource hresource).trans (htimed' k resource' hget).symm)]

/-- A resource of the graph's own is compiled to the same. -/
theorem get?_upToDate {k : Handle} {resource : Resource}
    (hget : g'.upToDate.registry.get? k = some resource) (hown : resource.isImported = false) :
    g.upToDate.registry.get? k = some resource := by
  have hsame := h.own_upToDate hg hg' k
  rw [hget, Option.map_some, Resource.own?_eq_some.2 ⟨hown, rfl⟩] at hsame
  obtain ⟨other, hother, heq⟩ := Option.map_eq_some_iff.1 hsame
  rw [hother, (Resource.own?_eq_some.1 heq).2]

theorem transientsInOrder_eq :
    transientsInOrder g'.upToDate.registry = transientsInOrder g.upToDate.registry :=
  (transientsInOrder_congr (h.own_upToDate hg hg')).symm

end DeclaredAlike

end Graph

end FrameGraph
