import FrameGraph.Proofs.Renaming.Schedule

/-!
# Barriers under other handles

The barriers on a resource follow from its outline and its timeline; its handle is only written into
them.  So corresponding resources get the same barriers around every pass.

Principal statements: `Registry.Paired.before_compiled` and `Registry.Paired.after_compiled`.
-/

set_option autoImplicit false

namespace FrameGraph

open Relator (BiUnique)

/-! ## Barriers without their handles -/

namespace ResourceBarrier

/-- The barrier without its handle. -/
def unnamed : ResourceBarrier → ResourceBarrier
  | .image b => .image { b with resource := .null }
  | .buffer b => .buffer { b with resource := .null }

/-- Whether merging keeps a barrier does not depend on the handle. -/
theorem isEffective_unnamed (x : ResourceBarrier) : x.unnamed.isEffective = x.isEffective := by
  cases x <;> rfl

theorem unnamed_barrierFor (h : Handle) (resource : Resource) (isFirst : Bool) (t : Transition) :
    (barrierFor h resource isFirst t).unnamed = barrierFor .null resource isFirst t := by
  unfold barrierFor
  cases resource.info <;> rfl

theorem map_unnamed_filter (l : List ResourceBarrier) :
    (l.filter isEffective).map unnamed = (l.map unnamed).filter isEffective := by
  rw [List.filter_map]
  congr 2
  funext x
  exact (isEffective_unnamed x).symm

end ResourceBarrier

/-! ## The compiled barriers -/

section Compiled

variable {registry registry' : Registry} (hR : BiUnique (registry.Paired registry'))
  {passes passes' : List Pass}
  (hpasses : List.Forall₂ (Pass.Matches (registry.Paired registry')) passes passes')
  {order : List Nat} (hnd : order.Nodup) {h h' : Handle} (hh : registry.Paired registry' h h')

include hR hpasses hh

/-- Paired resources are used in the same way, or neither is used. -/
theorem Registry.Paired.cases_onTimeline (order : List Nat) :
    (UsageTable.along order passes registry).get? h = none ∧
        (UsageTable.along order passes' registry').get? h' = none ∨
      ∃ resource resource' timeline, resource.outline = resource'.outline ∧
        OnTimeline order passes registry h resource timeline ∧
        OnTimeline order passes' registry' h' resource' timeline := by
  obtain ⟨resource, resource', hget, hget', houtline⟩ := id hh
  have htimeline : timelineOf order passes resource.kind h =
      timelineOf order passes' resource'.kind h' := by
    rw [← Resource.kind_of_outline houtline]
    exact timelineOf_eq hR hh hpasses order resource.kind
  have hunused : ∀ {registry : Registry} {passes : List Pass} {h : Handle} {resource : Resource},
      registry.get? h = some resource → timelineOf order passes resource.kind h = [] →
        (UsageTable.along order passes registry).get? h = none := by
    intro registry passes h resource hget hnil
    refine Option.eq_none_iff_forall_ne_some.2 fun timeline ht => ?_
    obtain ⟨found, hfound, heq, hne⟩ := get?_along.1 ht
    obtain rfl : resource = found := Option.some.inj (hget.symm.trans hfound)
    exact hne (heq.symm.trans hnil)
  by_cases hnil : timelineOf order passes resource.kind h = []
  · exact .inl ⟨hunused hget hnil, hunused hget' (htimeline ▸ hnil)⟩
  · exact .inr ⟨resource, resource', _, houtline, ⟨hget, rfl, hnil⟩, ⟨hget', htimeline.symm, hnil⟩⟩

include hnd

/-- **Before every pass paired resources have the same barriers.** -/
theorem Registry.Paired.before_compiled (pass : Nat) :
    ((aroundPass (compiledAlong order passes registry) pass).before.on h).map
        ResourceBarrier.unnamed =
      ((aroundPass (compiledAlong order passes' registry') pass).before.on h').map
        ResourceBarrier.unnamed := by
  obtain ⟨hnone, hnone'⟩ | ⟨resource, resource', timeline, houtline, hr, hr'⟩ :=
    hh.cases_onTimeline hR hpasses order
  · rw [(on_compiled_of_unused hnd hnone pass).1, (on_compiled_of_unused hnd hnone' pass).1]
  · rw [hr.on_before_compiled hnd, hr'.on_before_compiled hnd, ResourceBarrier.map_unnamed_filter,
      ResourceBarrier.map_unnamed_filter, List.map_map, List.map_map,
      Resource.steps_of_outline houtline]
    refine congrArg _ (List.map_congr_left fun s _ => ?_)
    simp only [Function.comp_apply, ResourceBarrier.unnamed_barrierFor,
      barrierFor_of_outline houtline]

/-- **After every pass paired resources have the same barriers.** -/
theorem Registry.Paired.after_compiled (pass : Nat) :
    ((aroundPass (compiledAlong order passes registry) pass).after.on h).map
        ResourceBarrier.unnamed =
      ((aroundPass (compiledAlong order passes' registry') pass).after.on h').map
        ResourceBarrier.unnamed := by
  obtain ⟨hnone, hnone'⟩ | ⟨resource, resource', timeline, houtline, hr, hr'⟩ :=
    hh.cases_onTimeline hR hpasses order
  · rw [(on_compiled_of_unused hnd hnone pass).2, (on_compiled_of_unused hnd hnone' pass).2]
  · have hlast := List.getLast?_eq_some_getLast hr.used
    rw [hr.on_after_compiled hnd hlast, hr'.on_after_compiled hnd hlast,
      handBack?_of_outline houtline, Resource.syncAfter_of_outline houtline]
    split
    · rw [ResourceBarrier.map_unnamed_filter, ResourceBarrier.map_unnamed_filter, List.map_map,
        List.map_map]
      refine congrArg _ (List.map_congr_left fun t _ => ?_)
      simp only [Function.comp_apply, ResourceBarrier.unnamed_barrierFor,
        barrierFor_of_outline houtline]
    · rfl

end Compiled

end FrameGraph
