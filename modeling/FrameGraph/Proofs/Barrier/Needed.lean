import FrameGraph.Proofs.Barrier.Coverage
import FrameGraph.Proofs.Barrier.Rounds
import FrameGraph.Proofs.Barrier.Shown

/-!
# Barriers are where they are needed

The compiled plan has a barrier before a use exactly if the use writes, the use before it writes, or
the layout changes.  Nothing is missing there, and nothing is there twice: every barrier leads to all
that is still to come in the run of reads, so that the rest of the run needs none.

Principal statements: `needs_arriving` — when the first use needs a barrier — `OnTimeline.on_before_next`,
`OnTimeline.on_before_first`, and `compiled_barriers_needed`.
-/

set_option autoImplicit false

namespace FrameGraph

namespace SyncState

/-- When the first use needs a barrier. -/
theorem needs_arriving {initial : ImageState} {u : Use} (hu : u.state.stage.isEmpty = false)
    (hinitial : initial.access ≠ Access.none → initial.stage.isEmpty = false) :
    (arriving initial).needs u = true ↔
      u.state.layout ≠ initial.layout ∨ u.isWrite = true ∧ initial.access ≠ Access.none ∨
        initial.isWrite = true := by
  cases hw : u.isWrite with
  | true =>
      rw [needs_write hw, arriving_layout]
      refine or_congr_right ?_
      cases hiw : initial.isWrite with
      | true => simp [isBusy, arriving, hiw]
      | false =>
          by_cases haccess : initial.access = Access.none
          · have hidle : (arriving initial).isBusy = false := by
              have hempty : Stage.none.isEmpty = true := rfl
              simp [isBusy, arriving, hiw, haccess, hempty]
            simp [hidle, haccess]
          · have hbusy : (arriving initial).isBusy = true := by
              simp [isBusy, arriving, hiw, haccess, hinitial haccess]
            simp [hbusy, haccess]
  | false =>
      rw [needs_read hw, arriving_layout, (shows_arriving initial).isSettledFor_nil (.inl hu)]
      cases hiw : initial.isWrite <;> simp [arriving, hiw]

variable {s : SyncState} {u : Use}

/-- A barrier that changes the layout, or on either side of a write, is not dropped. -/
theorem isNeeded_transition
    (h : u.state.layout ≠ s.layout ∨ s.source.isWrite = true ∨
      u.isWrite = true ∧ u.state.isWrite = true) (later : List Use) :
    (s.transition u later).isNeeded = true := by
  rcases h with hne | hsource | ⟨hw, hstate⟩
  · simp [Transition.isNeeded, transition, Ne.symm hne]
  · simp [Transition.isNeeded, transition, hsource]
  · have htarget : target u later = u.state := by simp [target, hw]
    simp [Transition.isNeeded, transition, htarget, hstate]

theorem source_access_of_none (h : s.write = none) : s.source.access = Access.none := by
  simp [source, h]

/-- The next barrier leads away from the last write. -/
theorem isWrite_source_after (s : SyncState) (u : Use) (later : List Use) :
    (s.after u later).source.isWrite =
      if u.isWrite then u.state.isWrite else s.source.isWrite := by
  cases hw : u.isWrite with
  | true =>
      have hsource : (s.after u later).source.access = u.state.srcAccess :=
        source_access (write_after_write hw)
      rw [ImageState.isWrite, hsource, ImageState.srcAccess_intersects_writes]
      rfl
  | false =>
      have hsource : (s.after u later).source.access = s.source.access := by
        cases hs : s.write with
        | none =>
            have hafter : (s.after u later).write = none := by simp [after, hw, hs]
            rw [source_access_of_none hs, source_access_of_none hafter]
        | some w =>
            obtain ⟨w', hw', -, haccess⟩ := write_after_read later hw hs
            rw [source_access hs, source_access hw', haccess]
      rw [ImageState.isWrite, hsource]
      rfl

theorem isWrite_source_arriving (initial : ImageState) :
    (arriving initial).source.isWrite = initial.isWrite := by
  cases hw : initial.isWrite with
  | true =>
      have hwrite : (arriving initial).write = some (.ofState initial) := by simp [arriving, hw]
      have hsource : (arriving initial).source.access = initial.srcAccess := source_access hwrite
      rw [ImageState.isWrite, hsource, ImageState.srcAccess_intersects_writes, hw]
  | false =>
      have hnone : (arriving initial).write = none := by simp [arriving, hw]
      rw [ImageState.isWrite, source_access_of_none hnone]
      rfl

end SyncState

section Plan

variable {order : List Nat} {passes : List Pass} {registry : Registry} {h : Handle}
  {resource : Resource} {timeline : Timeline}

namespace OnTimeline

variable (hr : OnTimeline order passes registry h resource timeline) (hd : Declared registry passes)
  (hnd : order.Nodup)

include hr hd hnd

omit hd in
/-- Before no pass are there two barriers. -/
theorem length_on_before_le (pass : Nat) :
    ((aroundPass (compiledAlong order passes registry) pass).before.on h).length ≤ 1 := by
  rw [hr.on_before_compiled hnd]
  refine (List.length_filter_le _ _).trans ?_
  rw [List.length_map]
  exact hr.length_steps_le hnd pass

/-- The barriers before a use, if those that are needed have an effect. -/
theorem transitions_before {past later : List Use} {u : Use}
    (hsplit : timeline = past ++ u :: later)
    (himported : past.isEmpty = true → resource.isImported = true) {needed : Prop}
    [Decidable needed]
    (hneeds : ((SyncState.arriving (arrivalState resource timeline)).along (u :: later)
      past).needs u = true ↔ needed)
    (heffect : needed → (((SyncState.arriving (arrivalState resource timeline)).along (u :: later)
      past).transition u later).isNeeded = true) :
    ((aroundPass (compiledAlong order passes registry) u.pass).before.on h).map
        ResourceBarrier.transition =
      if needed then
        [((SyncState.arriving (arrivalState resource timeline)).along (u :: later)
          past).transition u later]
      else [] := by
  have hsteps := hr.steps_at hnd hsplit
  rw [hr.on_before_compiled hnd, hsteps]
  have hforced : (past.isEmpty && !resource.isImported) = false := by
    cases hempty : past.isEmpty with
    | false => rfl
    | true => simp [himported hempty]
  rw [hforced, Bool.or_false] at hsteps ⊢
  by_cases hn : needed
  · rw [if_pos (hneeds.2 hn)] at hsteps ⊢
    rw [if_pos hn]
    have hmem : (⟨u, past.isEmpty, ((SyncState.arriving (arrivalState resource timeline)).along
        (u :: later) past).transition u later⟩ : Step) ∈ resource.steps timeline :=
      (List.mem_filter.1 (hsteps ▸ List.mem_singleton_self _)).1
    have hbuffer := fun hkind => hr.layouts_of_buffer hd hmem hkind
    rw [List.map_cons, List.map_nil,
      List.filter_cons_of_pos (isEffective_barrierFor _ hbuffer (heffect hn)), List.filter_nil,
      List.map_cons, List.map_nil, transition_barrierFor _ hbuffer]
  · rw [if_neg fun hneed => hn (hneeds.1 hneed), if_neg hn]
    rfl

/-- **Before a use that follows another** there is a barrier exactly if one of them writes or the layout
changes.  The barrier behind a write without write accesses, as that of an image to be presented, is kept
only if the layout changes, and that before such a write is not spoken of. -/
theorem on_before_next {past later : List Use} {u v : Use}
    (hsplit : timeline = past ++ u :: v :: later)
    (hu : u.isWrite = true → u.state.isWrite = true ∨ v.state.layout ≠ u.state.layout)
    (hv : v.isWrite = true → v.state.isWrite = true) :
    ((aroundPass (compiledAlong order passes registry) v.pass).before.on h).map
        ResourceBarrier.transition =
      if v.isWrite = true ∨ u.isWrite = true ∨ v.state.layout ≠ u.state.layout then
        [((SyncState.arriving (arrivalState resource timeline)).along (v :: later)
          (past ++ [u])).transition v later]
      else [] := by
  have hsplit' : timeline = (past ++ [u]) ++ v :: later := by rw [hsplit]; simp
  refine hr.transitions_before hd hnd hsplit' (fun hempty => by simp at hempty) ?_ fun hneeded => ?_
  · exact needs_along _ fun w hw => hr.fits hd (hsplit ▸ hw)
  · rw [along_concat]
    refine SyncState.isNeeded_transition ?_ later
    rw [SyncState.after_layout, SyncState.isWrite_source_after]
    rcases hneeded with hvw | huw | hne
    · exact .inr (.inr ⟨hvw, hv hvw⟩)
    · rw [if_pos huw]
      rcases hu huw with hstate | hne
      · exact .inr (.inl hstate)
      · exact .inl hne
    · exact .inl hne

/-- **Before the first use of an imported resource** there is a barrier exactly if the layout changes, a
write has something to wait for, or a write is handed over. -/
theorem on_before_first {later : List Use} {u : Use} (hsplit : timeline = u :: later)
    (hu : u.isWrite = true → u.state.isWrite = true) {handover : Handover}
    (hhandover : resource.handover? = some handover)
    (hinitial : handover.initial.access ≠ Access.none → handover.initial.stage.isEmpty = false) :
    ((aroundPass (compiledAlong order passes registry) u.pass).before.on h).map
        ResourceBarrier.transition =
      if u.state.layout ≠ handover.initial.layout ∨
          u.isWrite = true ∧ handover.initial.access ≠ Access.none ∨
          handover.initial.isWrite = true then
        [(SyncState.arriving handover.initial).transition u later]
      else [] := by
  have hmem : u ∈ timeline := by rw [hsplit]; simp
  have himported : resource.isImported = true := by
    cases hsource : resource.source with
    | imported object handover' => rw [Resource.isImported, hsource]
    | internal persistent => simp [Resource.handover?, hsource] at hhandover
  rw [← arrivalState_imported hhandover timeline] at hinitial ⊢
  have hfirst : timeline = [] ++ u :: later := hsplit
  refine hr.transitions_before hd hnd hfirst (fun _ => himported) ?_ fun hneeded => ?_
  · exact SyncState.needs_arriving (hr.fits hd hmem).staged hinitial
  · refine SyncState.isNeeded_transition (s := SyncState.arriving _) ?_ later
    rw [SyncState.isWrite_source_arriving]
    rcases hneeded with hne | ⟨hw, -⟩ | hw
    · exact .inl hne
    · exact .inr (.inr ⟨hw, hu hw⟩)
    · exact .inr (.inl hw)

end OnTimeline

/-! ## The compiled plan -/

theorem target_transitions (barriers : List ResourceBarrier) :
    (barriers.map ResourceBarrier.transition).map Transition.target =
      barriers.map fun b => b.transition.target := List.map_map

/-- The barriers on a resource are where its timeline needs them, and nowhere else. -/
structure PlacedAsNeeded (order : List Nat) (passes : List Pass) (registry : Registry) (h : Handle)
    (resource : Resource) (timeline : Timeline) : Prop where
  /-- A use behind another has one barrier if one of the two writes or the layout changes. -/
  next : ∀ past u v later, timeline = past ++ u :: v :: later →
    ((aroundPass (compiledAlong order passes registry) v.pass).before.on h).map
        (·.transition.target) =
      if v.isWrite = true ∨ u.isWrite = true ∨ v.state.layout ≠ u.state.layout then
        [requiredState v later] else []
  /-- The first use of an imported resource has one barrier if the layout changes, if it writes and the
  resource was accessed before, or if a write is handed over. -/
  first : ∀ handover, resource.handover? = some handover →
    (handover.initial.access ≠ Access.none → handover.initial.stage.isEmpty = false) →
    ∀ u later, timeline = u :: later →
      ((aroundPass (compiledAlong order passes registry) u.pass).before.on h).map
          (·.transition.target) =
        if u.state.layout ≠ handover.initial.layout ∨
            u.isWrite = true ∧ handover.initial.access ≠ Access.none ∨
            handover.initial.isWrite = true then
          [requiredState u later] else []
  /-- No pass has two barriers before it. -/
  single : ∀ pass,
    ((aroundPass (compiledAlong order passes registry) pass).before.on h).length ≤ 1
  /-- Around a pass that does not use the resource there are none. -/
  unused : ∀ pass, (∀ u ∈ timeline, u.pass ≠ pass) →
    (aroundPass (compiledAlong order passes registry) pass).before.on h = [] ∧
      (aroundPass (compiledAlong order passes registry) pass).after.on h = []
  /-- After a pass there is one barrier at most, and only after the last use of an imported resource,
  into the state in which it is handed back. -/
  handedBack : ∀ pass,
    (aroundPass (compiledAlong order passes registry) pass).after.on h = [] ∨
      ∃ handover last b, resource.handover? = some handover ∧ timeline.getLast? = some last ∧
        last.pass = pass ∧ b.transition.target = handover.final ∧
        (aroundPass (compiledAlong order passes registry) pass).after.on h = [b]

theorem OnTimeline.placedAsNeeded (hr : OnTimeline order passes registry h resource timeline)
    (hd : Declared registry passes) (hnd : order.Nodup)
    (hpresents : ∀ pass ∈ order, presentsAt passes pass h = false) :
    PlacedAsNeeded order passes registry h resource timeline := by
  have hlayouts : ∀ w ∈ timeline, w.state.layout ≠ .presentSrc := fun w hw =>
    hr.layout_ne_present hw (hpresents w.pass (List.mem_of_getElem? (hr.getElem?_order hw)))
  have hwrites : ∀ w ∈ timeline, w.isWrite = true → w.state.isWrite = true := fun w hw hwrite =>
    (hr.fits hd hw).writing hwrite (hlayouts w hw)
  have hlast := List.getLast?_eq_some_getLast hr.used
  refine ⟨fun past u v later hsplit => ?_, fun handover hhandover hinitial u later hsplit => ?_,
    fun pass => ?_, fun pass hunused => ?_, fun pass => ?_⟩
  · rw [← target_transitions, hr.on_before_next hd hnd hsplit
      (fun hu => .inl (hwrites u (by rw [hsplit]; simp) hu)) (hwrites v (by rw [hsplit]; simp)),
      apply_ite (List.map Transition.target), List.map_cons, List.map_nil, SyncState.transition,
      SyncState.target_eq]
  · rw [← target_transitions, hr.on_before_first hd hnd hsplit (hwrites u (by rw [hsplit]; simp))
      hhandover hinitial, apply_ite (List.map Transition.target), List.map_cons, List.map_nil,
      SyncState.transition, SyncState.target_eq]
  · exact hr.length_on_before_le hnd pass
  · exact hr.on_compiled_of_ne hnd hunused
  · rw [hr.on_after_compiled hnd hlast]
    split
    · next hpass =>
        cases ht : handBack? resource (resource.syncAfter timeline) with
        | none => exact .inl rfl
        | some t =>
            obtain ⟨handover, hhandover, rfl⟩ := handBack?_eq_some ht
            rw [Option.toList_some, List.map_cons, List.map_nil, List.filter_cons, List.filter_nil]
            split
            · exact .inr ⟨handover, _, _, hhandover, hlast, hpass, by
                rw [transition_barrierFor false (hr.layouts_of_handBack hd ht)], rfl⟩
            · exact .inl rfl
    · exact .inl rfl

end Plan

/-- **The compiled plan has exactly the barriers that are needed.**  For every declaration, every order
without repetitions and every resource that no pass of the order presents, the barriers that merging
leaves on the resource are placed as its timeline needs them; merging itself does not fail if the order
lies within the declared passes. -/
theorem compiled_barriers_needed {registry : Registry} {passes : List Pass}
    (hd : Declared registry passes) {order : List Nat} (hnd : order.Nodup) {h : Handle}
    {resource : Resource} (hlive : registry.get? h = some resource)
    (hpresents : ∀ pass ∈ order, presentsAt passes pass h = false) :
    ((∀ pass ∈ order, pass < passes.length) →
      mergeAlong? order (plannedAlong order passes registry) =
        .ok (compiledAlong order passes registry)) ∧
    PlacedAsNeeded order passes registry h resource
      (timelineOf order passes resource.kind h) := by
  refine ⟨fun hvalid => mergeAlong?_of_valid fun pass hpass => ?_, ?_⟩
  · rw [plannedAlong_eq, AroundPass.length_ofPlaced]
    exact hvalid pass hpass
  · by_cases hused : timelineOf order passes resource.kind h = []
    · -- A resource that is not used has no barriers at all.
      have hnone : (UsageTable.along order passes registry).get? h = none := by
        cases ht : (UsageTable.along order passes registry).get? h with
        | none => rfl
        | some timeline =>
            obtain ⟨resource', hr⟩ := exists_onTimeline ht
            obtain rfl : resource = resource' := Option.some.inj (hlive.symm.trans hr.live)
            exact absurd (hr.timeline_eq.symm.trans hused) hr.used
      have hempty := on_compiled_of_unused hnd hnone
      rw [hused]
      refine ⟨fun past u v later hsplit => ?_, fun _ _ _ u later hsplit => ?_, fun pass => ?_,
        fun pass _ => hempty pass, fun pass => .inl (hempty pass).2⟩
      · simp at hsplit
      · cases hsplit
      · rw [(hempty pass).1]
        exact Nat.zero_le 1
    · exact OnTimeline.placedAsNeeded ⟨hlive, rfl, hused⟩ hd hnd hpresents

/-- The buffer that a pass writes and another reads. -/
theorem compiled_barriers_needed_reader :
    Declared idleReader.registry ([] ++ [idleWriter.toPass none] ++ [idleReader.toPass none]) ∧
      ∃ resource, idleReader.registry.get? (.slot 0 0) = some resource ∧
        PlacedAsNeeded [0, 1] ([] ++ [idleWriter.toPass none] ++ [idleReader.toPass none])
          idleReader.registry (.slot 0 0) resource
          (timelineOf [0, 1] ([] ++ [idleWriter.toPass none] ++ [idleReader.toPass none])
            resource.kind (.slot 0 0)) :=
  ⟨declared_idleReader, _, rfl,
    (compiled_barriers_needed declared_idleReader (by decide) rfl (by decide)).2⟩

end FrameGraph
