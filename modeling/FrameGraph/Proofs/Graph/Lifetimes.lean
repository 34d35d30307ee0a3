import FrameGraph.Proofs.Graph.Reachable

/-!
# Lifetimes span timelines

The lifetime that a compiled graph gives to a resource begins at its first use and ends at its last.  It
is given when the graph is compiled, and whatever keeps the plan keeps it.

Principal statements: `lifetimeOf_eq` and `Graph.Reachable.lifetime_eq`.
-/

set_option autoImplicit false

namespace FrameGraph

/-- The positions of the first and the last use. -/
def Timeline.span? (timeline : Timeline) : Option Lifetime :=
  timeline.head?.bind fun first =>
    timeline.getLast?.map fun last => ⟨first.position, last.position⟩

/-- Extending a lifetime use by use. -/
theorem foldl_extend (timeline : Timeline) :
    timeline.foldl (fun lifetime u => Lifetime.extend lifetime u.position) none = timeline.span? := by
  induction timeline using List.reverseRecOn with
  | nil => rfl
  | append_singleton uses u ih =>
      rw [List.foldl_append, ih]
      unfold Timeline.span?
      cases uses with
      | nil => rfl
      | cons first uses =>
          rw [List.cons_append, List.head?_cons, List.head?_cons, ← List.cons_append,
            List.getLast?_concat, List.getLast?_cons]
          rfl

/-- **A lifetime spans the timeline.** -/
theorem lifetimeOf_eq (order : List Nat) (passes : List Pass) (kind : ResourceKind) (h : Handle) :
    lifetimeOf order passes h = (timelineOf order passes kind h).span? := by
  rw [← foldl_extend, timelineOf, List.foldl_filterMap, lifetimeOf]
  congr 1
  funext lifetime entry
  obtain ⟨pass, position⟩ := entry
  dsimp only
  cases hp : passes[pass]? with
  | none => rfl
  | some p =>
      rw [Option.any_some, Option.bind_some]
      cases huse : p.use? kind h position pass with
      | none =>
          rw [Pass.use?_eq_none_iff.1 huse]
          rfl
      | some u =>
          obtain ⟨hposition, -⟩ := Pass.use?_place huse
          rw [Pass.involves_of_use? huse, if_pos rfl]
          show _ = Lifetime.extend lifetime u.position
          rw [hposition]

theorem Timeline.exists_span {timeline : Timeline} (h : timeline ≠ []) :
    ∃ first last, timeline.head? = some first ∧ timeline.getLast? = some last ∧
      timeline.span? = some ⟨first.position, last.position⟩ := by
  have hhead := List.head?_eq_some_head h
  have hlast := List.getLast?_eq_some_getLast h
  refine ⟨_, _, hhead, hlast, ?_⟩
  rw [span?, hhead, hlast]
  rfl

namespace Graph

variable {g g' : Graph}

/-- The resources of a compiled graph have the lifetimes of its plan. -/
def IsTimed (g : Graph) : Prop :=
  g.phase = .compiled → ∀ h resource, g.registry.get? h = some resource →
    resource.lifetime = lifetimeOf g.plan.order g.passes h

theorem isTimed_compile (g : Graph) : g.compile.value.IsTimed := by
  intro _ h resource hget
  rw [g.get?_compile] at hget
  obtain ⟨old, -, rfl⟩ := Option.map_eq_some_iff.1 hget
  rw [passes_compile]

theorem IsTimed.register (hg : g.IsTimed) (op : Registry.Operation) :
    (g.register op).value.2.IsTimed := by
  intro hphase h resource hget
  rw [phase_register] at hphase
  cases hkeeps : keepsPlan op with
  | false =>
      rw [hkeeps, if_neg Bool.false_ne_true] at hphase
      cases hphase
  | true =>
      rw [hkeeps, if_pos rfl] at hphase
      have hmap : (((g.registry.perform op).value.2.get? h).map Resource.lifetime) =
          (g.registry.get? h).map Resource.lifetime :=
        Registry.map_perform (fun _ _ _ _ _ => rfl) hkeeps g.registry h
      have hget' : (g.registry.perform op).value.2.get? h = some resource := hget
      rw [hget', Option.map_some] at hmap
      obtain ⟨old, hold, hsame⟩ := Option.map_eq_some_iff.1 hmap.symm
      rw [← hsame]
      exact hg hphase h old hold

theorem IsTimed.upToDate (hg : g.IsTimed) : g.upToDate.IsTimed := by
  unfold Graph.upToDate
  split
  · exact hg
  · exact isTimed_compile g

theorem IsTimed.perform (hg : g.IsTimed) {action : Action} (hstep : g.perform action = .ok g') :
    g'.IsTimed := by
  cases action with
  | register op => cases hstep; exact hg.register op
  | addPass d =>
      cases hstep
      intro hphase
      rw [phase_addPass] at hphase
      cases hphase
  | clear => cases hstep; intro hphase; cases hphase
  | analyse => cases hstep; intro hphase; cases hphase
  | compile => cases hstep; exact isTimed_compile g
  | execute index =>
      obtain ⟨-, rfl⟩ | ⟨-, r, -, rfl⟩ := perform_execute_cases hstep
      · exact hg
      · exact hg.upToDate
  | dispose => cases hstep; exact hg
  | takeCommands => cases hstep; exact hg

theorem Reachable.isTimed (hg : g.Reachable) : g.IsTimed := by
  induction hg with
  | start policy settings => intro hphase; cases hphase
  | perform action _ hstep ih => exact ih.perform hstep

/-- **In a compiled graph lifetimes span timelines.** -/
theorem Reachable.lifetime_eq (hg : g.Reachable) (hcompiled : g.phase = .compiled) {h : Handle}
    {resource : Resource} {timeline : Timeline} (hget : g.registry.get? h = some resource)
    (htable : g.plan.table.get? h = some timeline) :
    timeline ≠ [] ∧ resource.lifetime = timeline.span? := by
  obtain ⟨registry, -, hsame, hplan⟩ := hg.isSound.planned hcompiled
  obtain ⟨planned, hplanned, houtline⟩ := hsame.exists_live hget
  rw [hplan.table] at htable
  obtain ⟨found, hr⟩ := exists_onTimeline htable
  refine ⟨hr.used, ?_⟩
  rw [hg.isTimed hcompiled h resource hget, lifetimeOf_eq _ _ found.kind, hr.timeline_eq]

/-- A resource with a lifetime has a timeline. -/
theorem Reachable.exists_timeline (hg : g.Reachable) (hcompiled : g.phase = .compiled) {h : Handle}
    {resource : Resource} (hget : g.registry.get? h = some resource) {lifetime : Lifetime}
    (hlifetime : resource.lifetime = some lifetime) :
    ∃ timeline, g.plan.table.get? h = some timeline ∧ timeline.span? = some lifetime := by
  obtain ⟨registry, -, hsame, hplan⟩ := hg.isSound.planned hcompiled
  obtain ⟨planned, hplanned, -⟩ := hsame.exists_live hget
  have hspan : (timelineOf g.plan.order g.passes planned.kind h).span? = some lifetime := by
    rw [← lifetimeOf_eq, ← hg.isTimed hcompiled h resource hget, hlifetime]
  refine ⟨_, ?_, hspan⟩
  rw [hplan.table]
  refine get?_along.2 ⟨planned, hplanned, rfl, fun hunused => ?_⟩
  rw [hunused] at hspan
  cases hspan

end Graph

end FrameGraph
