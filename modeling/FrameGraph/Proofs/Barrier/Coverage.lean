import FrameGraph.Graph.Compile
import FrameGraph.Proofs.Barrier.Sync

/-!
# The compiled barriers cover every hazard

Between two uses of a resource of which at least one writes, the compiled plan has a chain of barriers
on the resource, wherever the merging has left them.  The same holds between the state in which an
imported resource is handed over and a use of it, unless that state leaves nothing to wait for.

Principal statements: `sublist_barriersBetween`, `exists_chain_between_uses`,
`exists_chain_from_initial`, and `compiled_barriers_cover`.
-/

set_option autoImplicit false

namespace FrameGraph

/-- The barriers on a resource around the passes from one position of the order up to another, in the
order in which they are recorded; those after the last of the passes are left out. -/
def barriersBetween (order : List Nat) (all : List AroundPass) (h : Handle) (first last : Nat) :
    List ResourceBarrier :=
  order.zipIdx.flatMap fun (pass, position) =>
    if first ≤ position ∧ position ≤ last then
      (aroundPass all pass).before.on h ++
        if position < last then (aroundPass all pass).after.on h else []
    else []

/-! ## From steps to barriers -/

section Barriers

variable {h : Handle} {resource : Resource} {t : Transition}

/-- A barrier makes the step for which it was planned. -/
theorem transition_barrierFor (isFirst : Bool)
    (hbuffer : resource.kind = .buffer →
      t.source.layout = .undefined ∧ t.target.layout = .undefined) :
    (barrierFor h resource isFirst t).transition = t := by
  obtain ⟨source, target⟩ := t
  unfold barrierFor
  cases hinfo : resource.info with
  | image info => rfl
  | buffer info =>
      obtain ⟨hsource, htarget⟩ := hbuffer (by rw [Resource.kind, hinfo]; rfl)
      obtain ⟨stage, access, layout⟩ := source
      obtain ⟨stage', access', layout'⟩ := target
      cases hsource
      cases htarget
      rfl

/-- A barrier for a needed transition is not dropped. -/
theorem isEffective_barrierFor (isFirst : Bool)
    (hbuffer : resource.kind = .buffer →
      t.source.layout = .undefined ∧ t.target.layout = .undefined)
    (hneeded : t.isNeeded = true) : (barrierFor h resource isFirst t).isEffective = true := by
  unfold barrierFor
  cases hinfo : resource.info with
  | image info =>
      change (_ || t.isNeeded) = true
      rw [hneeded, Bool.or_true]
  | buffer info =>
      obtain ⟨hsource, htarget⟩ := hbuffer (by rw [Resource.kind, hinfo]; rfl)
      have hwrites : (t.source.isWrite || t.target.isWrite) = true := by
        simpa [Transition.isNeeded, hsource, htarget] using hneeded
      change (_ || ((t.source.isWrite || t.target.isWrite) || _)) = true
      rw [hwrites, Bool.true_or, Bool.or_true]

end Barriers

/-- The steps of a resource that is never in a layout. -/
theorem layouts_of_mem_stepsAlong {resource : Resource} {later uses : List Use} {s : SyncState}
    {isFirst : Bool} {layout : Layout} (hs : s.layout = layout)
    (huses : ∀ u ∈ uses, u.state.layout = layout) {x : Step}
    (hx : x ∈ stepsAlong resource later s isFirst uses) :
    x.transition.source.layout = layout ∧ x.transition.target.layout = layout := by
  induction uses generalizing s isFirst with
  | nil => cases hx
  | cons u uses ih =>
      have hu := huses u List.mem_cons_self
      have hafter : (s.after u (uses ++ later)).layout = layout := by
        rw [SyncState.after_layout, hu]
      rcases List.mem_append.1 hx with hx | hx
      · split at hx
        · rw [List.mem_singleton.1 hx]
          exact ⟨(SyncState.source_layout s).trans hs, (SyncState.layout_target u _).trans hu⟩
        · cases hx
      · exact ih hafter (fun v hv => huses v (List.mem_cons_of_mem _ hv)) hx

/-- If every element of a chain belongs to its own member of a list, the chain runs along the list. -/
private theorem map_sublist_flatMap {α β γ : Type} {k : γ → α} {g : γ → β} {f : α → List β}
    {chain : List γ} {l : List α} (hsub : (chain.map k).Sublist l)
    (hmem : ∀ x ∈ chain, g x ∈ f (k x)) : (chain.map g).Sublist (l.flatMap f) := by
  induction l generalizing chain with
  | nil =>
      rw [List.sublist_nil, List.map_eq_nil_iff] at hsub
      subst hsub
      exact .slnil
  | cons a rest ih =>
      rw [List.flatMap_cons]
      rcases List.sublist_cons_iff.1 hsub with hsub | ⟨ks, hks, hsub⟩
      · exact (ih hsub hmem).trans (List.sublist_append_right _ _)
      · obtain ⟨x, chain', rfl, rfl, rfl⟩ := List.map_eq_cons_iff.1 hks
        have hx := hmem x List.mem_cons_self
        exact (List.singleton_sublist.2 hx).append
          (ih hsub fun y hy => hmem y (List.mem_cons_of_mem _ hy))

section Plan

variable {order : List Nat} {passes : List Pass} {registry : Registry} {h : Handle}
  {resource : Resource} {timeline : Timeline}

theorem OnTimeline.layout_of_buffer (hr : OnTimeline order passes registry h resource timeline)
    (hd : Declared registry passes) (hkind : resource.kind = .buffer) {u : Use}
    (hu : u ∈ timeline) : u.state.layout = .undefined := by
  rw [← hr.timeline_eq, hkind] at hu
  exact layout_of_mem_timelineOf_buffer hd hr.live hkind hu

/-- The steps along the timeline of a buffer are in no layout. -/
theorem OnTimeline.layouts_of_buffer (hr : OnTimeline order passes registry h resource timeline)
    (hd : Declared registry passes) {x : Step} (hx : x ∈ resource.steps timeline)
    (hkind : resource.kind = .buffer) :
    x.transition.source.layout = .undefined ∧ x.transition.target.layout = .undefined := by
  have huses : ∀ u ∈ timeline, u.state.layout = .undefined := fun u hu =>
    hr.layout_of_buffer hd hkind hu
  have hcoherent := hd.wellFormed.coherent h resource hr.live
  refine layouts_of_mem_stepsAlong ?_ huses hx
  rw [SyncState.arriving_layout, arrivalState]
  cases hsource : resource.source with
  | imported object handover => exact ((hcoherent object handover hsource).2 hkind).1
  | internal persistent =>
      cases persistent with
      | false => rfl
      | true =>
          cases hlast : timeline.getLast? with
          | none => rfl
          | some last => exact huses last (List.mem_of_getLast? hlast)

/-- The same for what hands the resource back. -/
theorem OnTimeline.layouts_of_handBack (hr : OnTimeline order passes registry h resource timeline)
    (hd : Declared registry passes) {t : Transition}
    (ht : handBack? resource (resource.syncAfter timeline) = some t)
    (hkind : resource.kind = .buffer) :
    t.source.layout = .undefined ∧ t.target.layout = .undefined := by
  have hlast := List.getLast?_eq_some_getLast hr.used
  obtain ⟨handover, hhandover, rfl⟩ := handBack?_eq_some ht
  have hcoherent := hd.wellFormed.coherent h resource hr.live
  cases hsource : resource.source with
  | internal persistent => simp [Resource.handover?, hsource] at hhandover
  | imported object handover' =>
      obtain rfl : handover' = handover := by simpa [Resource.handover?, hsource] using hhandover
      refine ⟨?_, ((hcoherent object handover' hsource).2 hkind).2⟩
      rw [SyncState.source_layout, layout_syncAfter resource hlast]
      exact hr.layout_of_buffer hd hkind (List.mem_of_getLast? hlast)

/-- Needed steps of the walk, at positions within some bounds, have left their barriers there. -/
theorem sublist_barriersBetween (hr : OnTimeline order passes registry h resource timeline)
    (hd : Declared registry passes) (hnd : order.Nodup) {chain : List Step} {first last : Nat}
    (hsub : chain.Sublist (resource.steps timeline))
    (hneeded : ∀ x ∈ chain, x.transition.isNeeded = true)
    (hplace : ∀ x ∈ chain, first ≤ x.use.position ∧ x.use.position ≤ last) :
    ∃ barriers : List ResourceBarrier,
      barriers.Sublist
        (barriersBetween order (compiledAlong order passes registry) h first last) ∧
      barriers.map ResourceBarrier.transition = chain.map Step.transition := by
  refine ⟨chain.map fun x => barrierFor h resource x.isFirst x.transition, ?_, ?_⟩
  · refine map_sublist_flatMap (k := fun x => (x.use.pass, x.use.position)) ?_ ?_
    · have huses : (chain.map Step.use).Sublist timeline :=
        (hsub.map Step.use).trans (use_stepsAlong ..)
      have hplaces := huses.map fun u => (u.pass, u.position)
      rw [List.map_map] at hplaces
      refine hplaces.trans ?_
      rw [← hr.timeline_eq]
      exact places_sublist ..
    · intro x hx
      have hmem : x ∈ (resource.steps timeline).filter fun s => s.use.pass = x.use.pass :=
        List.mem_filter.2 ⟨hsub.subset hx, by simp⟩
      dsimp only
      rw [if_pos (hplace x hx), hr.on_before_compiled hnd]
      refine List.mem_append_left _ (List.mem_filter.2 ⟨List.mem_map.2 ⟨x, hmem, rfl⟩, ?_⟩)
      exact isEffective_barrierFor x.isFirst (hr.layouts_of_buffer hd (hsub.subset hx))
        (hneeded x hx)
  · rw [List.map_map]
    refine List.map_congr_left fun x hx => ?_
    exact transition_barrierFor x.isFirst (hr.layouts_of_buffer hd (hsub.subset hx))

/-! ## Between two uses -/

/-- Holds if the pass at a position of the declaration accesses the resource for presentation. -/
def presentsAt (passes : List Pass) (i : Nat) (h : Handle) : Bool :=
  (passes[i]?).any fun p => p.presents h

theorem OnTimeline.layout_ne_present (hr : OnTimeline order passes registry h resource timeline)
    {u : Use} (hu : u ∈ timeline) (hp : presentsAt passes u.pass h = false) :
    u.state.layout ≠ .presentSrc := by
  rw [← hr.timeline_eq] at hu
  obtain ⟨-, p, hpass, huse⟩ := mem_timelineOf.1 hu
  rw [presentsAt, hpass] at hp
  exact Pass.layout_use?_ne_present hp huse

theorem OnTimeline.fits (hr : OnTimeline order passes registry h resource timeline)
    (hd : Declared registry passes) {u : Use} (hu : u ∈ timeline) : u.state.Fits u.isWrite := by
  rw [← hr.timeline_eq] at hu
  exact fits_of_mem_timelineOf hd hu

theorem OnTimeline.sorted (hr : OnTimeline order passes registry h resource timeline) :
    timeline.Pairwise fun u v => u.position < v.position := by
  rw [← hr.timeline_eq]
  exact pairwise_position

/-- The uses before a use of a timeline have smaller positions, and those behind it larger ones. -/
theorem OnTimeline.positions_of_split (hr : OnTimeline order passes registry h resource timeline)
    {past later : List Use} {u : Use} (hsplit : timeline = past ++ u :: later) :
    (∀ v ∈ past, v.position < u.position) ∧ ∀ v ∈ later, u.position < v.position := by
  have hsorted := hr.sorted
  rw [hsplit, List.pairwise_append, List.pairwise_cons] at hsorted
  obtain ⟨-, ⟨hlater, -⟩, hpast⟩ := hsorted
  exact ⟨fun v hv => hpast v hv u List.mem_cons_self, hlater⟩

/-- What is known right after a use still speaks of it. -/
theorem tracks_after {u : Use} (hu : u.state.Fits u.isWrite)
    (hlayout : u.state.layout ≠ .presentSrc) (s : SyncState) (later : List Use) :
    Tracks u.state [] (s.after u later) := by
  cases hw : u.isWrite with
  | true =>
      exact .writing (hu.writing hw hlayout) (SyncState.write_after_write hw)
        (Mask.contains_refl _) (Mask.contains_refl _)
  | false =>
      refine .reading (hu.readOnly hw).1 hu.staged ?_ (SyncState.after_layout s u later)
      rw [SyncState.readers_after_read hw]
      split
      · exact Mask.contains_refl _
      · exact Mask.contains_or_right _ _

/-- The steps along a part of the timeline. -/
theorem steps_part (resource : Resource) (before part rest : List Use) :
    (stepsAlong resource rest
      ((SyncState.arriving (arrivalState resource (before ++ (part ++ rest)))).along
        (part ++ rest) before) before.isEmpty part).Sublist
      (resource.steps (before ++ (part ++ rest))) := by
  rw [Resource.steps, stepsAlong_append, stepsAlong_append, List.append_nil, List.append_nil]
  exact (List.sublist_append_left _ _).trans (List.sublist_append_right _ _)

private theorem exists_split_of_pair {i j : Use} (hij : [i, j].Sublist timeline) :
    ∃ before between rest, timeline = before ++ [i] ++ (between ++ [j] ++ rest) := by
  obtain ⟨first, second, rfl, hi, hj⟩ := List.cons_sublist_iff.1 hij
  obtain ⟨before, between, rfl⟩ := List.append_of_mem hi
  obtain ⟨between', rest, rfl⟩ := List.append_of_mem (List.singleton_sublist.1 hj)
  exact ⟨before, between ++ between', rest, by simp⟩

/-- **Between two uses of which one writes there is a chain of barriers.** -/
theorem exists_chain_between_uses (hr : OnTimeline order passes registry h resource timeline)
    (hd : Declared registry passes) (hnd : order.Nodup) {i j : Use}
    (hij : [i, j].Sublist timeline) (hw : i.isWrite = true ∨ j.isWrite = true)
    (hi : presentsAt passes i.pass h = false) (hj : presentsAt passes j.pass h = false) :
    ∃ chain : List ResourceBarrier,
      chain.Sublist
        (barriersBetween order (compiledAlong order passes registry) h (i.position + 1)
          j.position) ∧
      Covers i.state j.state (chain.map ResourceBarrier.transition) := by
  obtain ⟨before, between, rest, hsplit⟩ := exists_split_of_pair hij
  have hmem : ∀ u ∈ [i] ++ (between ++ [j]), u ∈ timeline := by
    intro u hu
    rw [hsplit, List.append_assoc, ← List.append_assoc [i]]
    exact List.mem_append_right _ (List.mem_append_left _ hu)
  have himem : i ∈ timeline := hmem i (List.mem_append_left _ List.mem_cons_self)
  have hjmem : j ∈ timeline :=
    hmem j (List.mem_append_right _ (List.mem_append_right _ List.mem_cons_self))
  have hilayout := hr.layout_ne_present himem hi
  have hifits := hr.fits hd himem
  have hpart := steps_part resource (before ++ [i]) (between ++ [j]) rest
  rw [← hsplit, along_append] at hpart
  -- What is known right after the first use.
  have htracks := tracks_after hifits hilayout
    ((SyncState.arriving (arrivalState resource timeline)).along
      ([i] ++ (between ++ [j] ++ rest)) before) (between ++ [j] ++ rest)
  obtain ⟨chain, hsub, hneeded, hcovers⟩ :=
    exists_covering_steps htracks (fun u hu => hr.fits hd (hmem u (List.mem_append_right _ hu)))
      (fun hpresent => absurd hpresent hilayout) (hr.layout_ne_present hjmem hj)
      (separated_after hifits hilayout hw _ between _) resource (before ++ [i]).isEmpty rest
  have hsorted := hr.sorted
  rw [hsplit, List.append_assoc, List.pairwise_append] at hsorted
  obtain ⟨-, hsorted, -⟩ := hsorted
  have hplace : ∀ x ∈ chain, i.position + 1 ≤ x.use.position ∧ x.use.position ≤ j.position := by
    intro x hx
    have hxmem : x.use ∈ between ++ [j] :=
      (use_stepsAlong ..).subset (List.mem_map_of_mem (hsub.subset hx))
    rw [List.singleton_append, List.pairwise_cons, List.pairwise_append,
      List.pairwise_append] at hsorted
    obtain ⟨hafter, ⟨-, -, hbefore⟩, -⟩ := hsorted
    refine ⟨hafter x.use (List.mem_append_left _ hxmem), ?_⟩
    rcases List.mem_append.1 hxmem with hx' | hx'
    · exact Nat.le_of_lt (hbefore x.use hx' j List.mem_cons_self)
    · rw [List.mem_singleton.1 hx']
  obtain ⟨barriers, hbarriers, htransitions⟩ :=
    sublist_barriersBetween hr hd hnd (hsub.trans hpart) hneeded hplace
  exact ⟨barriers, hbarriers, by rw [htransitions]; exact hcovers⟩

/-! ## From the state in which an imported resource is handed over -/

/-- The state leaves something to wait for: a write, or a read at some stage. -/
def ImageState.IsAwaited (s : ImageState) : Prop :=
  s.isWrite = true ∨ s.access ≠ Access.none ∧ s.stage.isEmpty = false

theorem tracks_arriving {initial : ImageState} (h : initial.IsAwaited) :
    Tracks initial [] (.arriving initial) := by
  cases hw : initial.isWrite with
  | true =>
      refine .writing hw (w := .ofState initial) ?_ (Mask.contains_refl _) (Mask.contains_refl _)
      simp [SyncState.arriving, hw]
  | false =>
      obtain ⟨haccess, hstaged⟩ := h.resolve_left (by rw [hw]; exact Bool.false_ne_true)
      refine .reading hw hstaged ?_ rfl
      simp [SyncState.arriving, hw, haccess, Mask.contains_refl]

/-- A first use in another layout waits even for a state that leaves nothing to wait for. -/
theorem startsFrom_arriving {initial : ImageState} (hread : initial.isWrite = false)
    (target : ImageState) :
    StartsFrom initial [⟨(SyncState.arriving initial).source, target⟩] := by
  refine ⟨⟨_, rfl, ?_, ?_⟩, List.isChain_singleton _⟩
  · rw [SyncState.source_stage]
    split
    · exact Mask.contains_refl _
    · next hempty =>
        by_cases haccess : initial.access = Access.none
        · have hnone : (SyncState.arriving initial).waits = Stage.none := by
            simp [SyncState.arriving, SyncState.waits, hread, haccess]
          rw [hnone] at hempty
          exact absurd rfl hempty
        · simp [SyncState.arriving, SyncState.waits, hread, haccess, Mask.contains_refl]
  · exact Mask.contains_of_isEmpty (ImageState.srcAccess_of_readOnly hread)

theorem exists_covering_steps_of_layout {initial : ImageState} {uses : List Use} {j : Use}
    (hread : initial.isWrite = false)
    (hfits : ∀ u ∈ uses ++ [j], u.state.Fits u.isWrite)
    (hlayout : ∀ u ∈ uses ++ [j], u.state.layout ≠ .presentSrc)
    (hfirst : ∃ first ∈ (uses ++ [j]).head?, first.state.layout ≠ initial.layout)
    (hw : j.isWrite = true) (resource : Resource) (isFirst : Bool) (later : List Use) :
    ∃ chain : List Step,
      chain.Sublist (stepsAlong resource later (.arriving initial) isFirst (uses ++ [j])) ∧
      (∀ x ∈ chain, x.transition.isNeeded = true) ∧
      Covers initial j.state (chain.map Step.transition) := by
  have hneeded : ∀ (u : Use) (more : List Use), u.state.layout ≠ initial.layout →
      (SyncState.arriving initial).needs u = true ∧
        ((SyncState.arriving initial).transition u more).isNeeded = true := by
    intro u more hne
    refine ⟨by simp [SyncState.needs, hne], ?_⟩
    simp [Transition.isNeeded, SyncState.transition, Ne.symm hne]
  cases uses with
  | nil =>
      obtain ⟨first, hhead, hne⟩ := hfirst
      obtain rfl : j = first := Option.some.inj hhead
      obtain ⟨hneeds, hkept⟩ := hneeded j ([] ++ later) hne
      have htarget : SyncState.target j ([] ++ later) = j.state := by simp [SyncState.target, hw]
      refine ⟨[⟨j, isFirst, (SyncState.arriving initial).transition j ([] ++ later)⟩], ?_, ?_, ?_⟩
      · change [_].Sublist (stepsAlong resource later _ isFirst [j])
        rw [stepsAlong, hneeds, Bool.true_or, if_pos rfl]
        exact List.sublist_append_left _ _
      · intro x hx
        rw [List.mem_singleton.1 hx]
        exact hkept
      · refine ⟨startsFrom_arriving hread _, _, rfl, ?_⟩
        change (SyncState.target j ([] ++ later)).stage.contains _ = true ∧
          (SyncState.target j ([] ++ later)).access.contains _ = true
        rw [htarget]
        exact ⟨Mask.contains_refl _, Mask.contains_refl _⟩
  | cons u uses =>
      obtain ⟨first, hhead, hne⟩ := hfirst
      obtain rfl : u = first := Option.some.inj hhead
      have htail : ∀ v ∈ uses ++ [j], v ∈ u :: uses ++ [j] := fun v => List.mem_cons_of_mem u
      obtain ⟨hneeds, hkept⟩ := hneeded u (uses ++ [j] ++ later) hne
      have htracks : Tracks initial
          ([] ++ [(SyncState.arriving initial).transition u (uses ++ [j] ++ later)])
          ((SyncState.arriving initial).after u (uses ++ [j] ++ later)) :=
        Tracks.linked_after (hfits u List.mem_cons_self) (startsFrom_arriving hread _)
      obtain ⟨more, hsub, hmore, hcovers⟩ :=
        exists_covering_steps htracks (fun v hv => hfits v (htail v hv))
          (fun _ v hv => hlayout v (htail v hv))
          (hlayout j (List.mem_append_right _ List.mem_cons_self)) (.inl hw) resource false later
      refine ⟨⟨u, isFirst, (SyncState.arriving initial).transition u (uses ++ [j] ++ later)⟩ :: more,
        ?_, ?_, hcovers⟩
      · rw [List.cons_append, stepsAlong, hneeds, Bool.true_or, if_pos rfl]
        exact hsub.cons_cons _
      · intro x hx
        rcases List.mem_cons.1 hx with rfl | hx
        · exact hkept
        · exact hmore x hx

/-- **Between the handed over state and a use of which one writes there is a chain of barriers**,
unless the state leaves nothing to wait for and the first use is in its layout. -/
theorem exists_chain_from_initial (hr : OnTimeline order passes registry h resource timeline)
    (hd : Declared registry passes) (hnd : order.Nodup) {handover : Handover}
    (hhandover : resource.handover? = some handover)
    (hpresents : ∀ pass ∈ order, presentsAt passes pass h = false)
    (hawaited : handover.initial.IsAwaited ∨
      ∃ first ∈ timeline.head?, first.state.layout ≠ handover.initial.layout)
    {j : Use} (hj : j ∈ timeline) (hw : handover.initial.isWrite = true ∨ j.isWrite = true) :
    ∃ chain : List ResourceBarrier,
      chain.Sublist (barriersBetween order (compiledAlong order passes registry) h 0 j.position) ∧
      Covers handover.initial j.state (chain.map ResourceBarrier.transition) := by
  have hlayout : ∀ u ∈ timeline, u.state.layout ≠ .presentSrc := by
    intro u hu
    exact hr.layout_ne_present hu (hpresents u.pass (List.mem_of_getElem? (hr.getElem?_order hu)))
  have harrival := arrivalState_imported hhandover timeline
  obtain ⟨before, rest, rfl⟩ := List.append_of_mem hj
  have hsplit : before ++ j :: rest = [] ++ (before ++ [j] ++ rest) := by simp
  have hmem : ∀ u ∈ before ++ [j], u ∈ before ++ j :: rest := by
    intro u hu
    rw [hsplit, List.nil_append]
    exact List.mem_append_left _ hu
  have hpart := steps_part resource [] (before ++ [j]) rest
  rw [← hsplit, harrival] at hpart
  have hfits : ∀ u ∈ before ++ [j], u.state.Fits u.isWrite := fun u hu => hr.fits hd (hmem u hu)
  have hsteps : ∃ chain : List Step,
      chain.Sublist (stepsAlong resource rest (.arriving handover.initial) true
        (before ++ [j])) ∧
      (∀ x ∈ chain, x.transition.isNeeded = true) ∧
      Covers handover.initial j.state (chain.map Step.transition) := by
    by_cases hawaited' : handover.initial.IsAwaited
    · refine exists_covering_steps (tracks_arriving hawaited') hfits
        (fun _ u hu => hlayout u (hmem u hu)) (hlayout j hj) ?_ resource true rest
      rcases hw with hwrite | hjw
      · refine .inr (.inl (SyncState.isFresh_ofState hwrite ?_))
        simp [SyncState.arriving, hwrite]
      · exact .inl hjw
    · have hread : handover.initial.isWrite = false :=
        Bool.eq_false_iff.2 fun hwrite => hawaited' (.inl hwrite)
      obtain ⟨first, hhead, hne⟩ := hawaited.resolve_left hawaited'
      refine exists_covering_steps_of_layout hread hfits (fun u hu => hlayout u (hmem u hu))
        ⟨first, ?_, hne⟩ (hw.resolve_left (by rw [hread]; exact Bool.false_ne_true)) resource
        true rest
      cases before with
      | nil => exact hhead
      | cons u before => exact hhead
  obtain ⟨chain, hsub, hneeded, hcovers⟩ := hsteps
  have hsorted := hr.sorted
  have hplace : ∀ x ∈ chain, 0 ≤ x.use.position ∧ x.use.position ≤ j.position := by
    intro x hx
    have hxmem : x.use ∈ before ++ [j] :=
      (use_stepsAlong ..).subset (List.mem_map_of_mem (hsub.subset hx))
    refine ⟨Nat.zero_le _, ?_⟩
    rcases List.mem_append.1 hxmem with hx' | hx'
    · exact Nat.le_of_lt ((List.pairwise_append.1 hsorted).2.2 x.use hx' j List.mem_cons_self)
    · rw [List.mem_singleton.1 hx']
  obtain ⟨barriers, hbarriers, htransitions⟩ :=
    sublist_barriersBetween hr hd hnd (hsub.trans hpart) hneeded hplace
  exact ⟨barriers, hbarriers, by rw [htransitions]; exact hcovers⟩

end Plan

/-! ## The compiled plan -/

/-- **The compiled barriers cover every hazard of a frame.**  For any two uses of a resource of which
one writes, made by passes that do not present it, the barriers around the passes after the first use
and up to the second contain a chain from the one to the other; whatever lies between.  If no pass of
the order presents an imported resource, the same holds for the state in which it is handed over in
place of the first use, provided that this state leaves something to wait for or that the first use
is in another layout. -/
theorem compiled_barriers_cover {registry : Registry} {passes : List Pass}
    (hd : Declared registry passes) {order : List Nat} (hnd : order.Nodup) {h : Handle}
    {timeline : Timeline}
    (ht : (UsageTable.along order passes registry).get? h = some timeline) :
    (∀ i j, [i, j].Sublist timeline → i.isWrite = true ∨ j.isWrite = true →
      presentsAt passes i.pass h = false → presentsAt passes j.pass h = false →
      ∃ chain : List ResourceBarrier,
        chain.Sublist
          (barriersBetween order (compiledAlong order passes registry) h (i.position + 1)
            j.position) ∧
        Covers i.state j.state (chain.map ResourceBarrier.transition)) ∧
    (∀ resource handover, registry.get? h = some resource →
      resource.handover? = some handover →
      (∀ pass ∈ order, presentsAt passes pass h = false) →
      handover.initial.IsAwaited ∨
        (∃ first ∈ timeline.head?, first.state.layout ≠ handover.initial.layout) →
      ∀ j ∈ timeline, handover.initial.isWrite = true ∨ j.isWrite = true →
        ∃ chain : List ResourceBarrier,
          chain.Sublist
            (barriersBetween order (compiledAlong order passes registry) h 0 j.position) ∧
          Covers handover.initial j.state (chain.map ResourceBarrier.transition)) := by
  obtain ⟨resource, hr⟩ := exists_onTimeline ht
  refine ⟨fun i j hij hw hi hj => exists_chain_between_uses hr hd hnd hij hw hi hj, ?_⟩
  intro resource' handover hget hhandover hpresents hawaited j hj hw
  obtain rfl : resource = resource' := Option.some.inj (hr.live.symm.trans hget)
  exact exists_chain_from_initial hr hd hnd hhandover hpresents hawaited hj hw

/-- A buffer that is handed over without a pending access. -/
def idleRegistry : Registry :=
  (Registry.empty.perform (.importBuffer "counter" 1 {} .undefined .undefined)).value.2

/-- A pass that writes the buffer. -/
def idleWriter : PassDraft :=
  (PassDraft.performAll ⟨"count", .compute, idleRegistry, []⟩
    [.write "counter" .shaderWrite]).value.2

/-- A pass that reads it after the other. -/
def idleReader : PassDraft :=
  (PassDraft.performAll ⟨"show", .transfer, idleWriter.registry, []⟩
    [.read "counter" .transferSrc]).value.2

theorem declared_idleWriter :
    Declared idleWriter.registry ([] ++ [idleWriter.toPass none]) :=
  .addPass _ _ _ _ (.register (.importBuffer "counter" 1 {} .undefined .undefined) .start)

theorem declared_idleReader :
    Declared idleReader.registry ([] ++ [idleWriter.toPass none] ++ [idleReader.toPass none]) :=
  .addPass _ _ _ _ declared_idleWriter

/-- The reader of the buffer is covered from its writer. -/
theorem compiled_barriers_cover_reader :
    ∃ i j : Use, (i.pass, j.pass) = (0, 1) ∧ i.isWrite = true ∧
      ∃ chain : List ResourceBarrier,
        chain.Sublist
          (barriersBetween [0, 1]
            (compiledAlong [0, 1] ([] ++ [idleWriter.toPass none] ++ [idleReader.toPass none])
              idleReader.registry) (.slot 0 0) (i.position + 1) j.position) ∧
        Covers i.state j.state (chain.map ResourceBarrier.transition) := by
  have ht : (UsageTable.along [0, 1] ([] ++ [idleWriter.toPass none] ++ [idleReader.toPass none])
      idleReader.registry).get? (.slot 0 0) =
        some [⟨0, 0, .shaderWrite, false, true,
            ⟨Stage.computeShader, Access.none ||| Access.storageWrite, .undefined⟩⟩,
          ⟨1, 1, .transferSrc, true, false,
            ⟨Stage.transfer, Access.transferRead, .undefined⟩⟩] := by decide
  have hnd : [0, 1].Nodup := by decide
  exact ⟨_, _, rfl, rfl,
    (compiled_barriers_cover declared_idleReader hnd ht).1 _ _ (List.Sublist.refl _) (.inl rfl)
      (by decide) (by decide)⟩

/-- A state that leaves nothing to wait for is not covered: no barrier precedes the first write after
it. -/
theorem not_covered_from_idle_state :
    ¬ ∀ (registry : Registry) (passes : List Pass) (order : List Nat) (h : Handle)
      (timeline : Timeline) (resource : Resource) (handover : Handover),
      Declared registry passes → order.Nodup →
      (UsageTable.along order passes registry).get? h = some timeline →
      registry.get? h = some resource → resource.handover? = some handover →
      (∀ pass ∈ order, presentsAt passes pass h = false) →
      ∀ j ∈ timeline, handover.initial.isWrite = true ∨ j.isWrite = true →
        ∃ chain : List ResourceBarrier,
          chain.Sublist
            (barriersBetween order (compiledAlong order passes registry) h 0 j.position) ∧
          Covers handover.initial j.state (chain.map ResourceBarrier.transition) := by
  intro hall
  have ht : (UsageTable.along [0] ([] ++ [idleWriter.toPass none]) idleWriter.registry).get?
      (.slot 0 0) = some [⟨0, 0, .shaderWrite, false, true,
        ⟨Stage.computeShader, Access.none ||| Access.storageWrite, .undefined⟩⟩] := by decide
  have hnd : [0].Nodup := by decide
  have hnone : barriersBetween [0]
      (compiledAlong [0] ([] ++ [idleWriter.toPass none]) idleWriter.registry) (.slot 0 0) 0 0 =
        [] := by
    rw [compiledAlong_eq hnd]
    decide
  obtain ⟨chain, hchain, hcovers⟩ :=
    hall _ _ [0] (.slot 0 0) _ _ _ declared_idleWriter hnd ht rfl rfl (by decide) _
      List.mem_cons_self (.inr rfl)
  rw [hnone, List.sublist_nil] at hchain
  obtain ⟨b, hb, -⟩ := hcovers.first
  rw [hchain] at hb
  cases hb

end FrameGraph
