import FrameGraph.Proofs.Barrier.Plan

/-!
# Chains of barriers

An access is ordered before a later one by a chain of barriers: the first waits for the earlier
access, each further one waits for stages that the one before has blocked, and the last blocks the
later access.  `Tracks` says how far such a chain has come while a timeline is walked along: what is
known about the resource still speaks of the earlier access itself, or else of the end of a chain that
starts from it.

Principal statements: `Tracks.step`, `Tracks.run`, `Tracks.arrive`, and `exists_covering_steps`: between
two accesses that something separates, the steps of the walk contain a chain.
-/

set_option autoImplicit false

namespace FrameGraph

/-! ## Masks -/

namespace Mask

variable {family : FlagFamily} {a b c : Mask family}

theorem contains_of_isEmpty (h : b.isEmpty = true) : a.contains b = true :=
  contains_iff.2 fun i hi => by rw [isEmpty_iff.1 h i] at hi; cases hi

theorem intersects_of_contains (ha : a.contains c = true) (hb : b.contains c = true)
    (hc : c.isEmpty = false) : a.intersects b = true := by
  have hbit : ∃ i, c.has i = true := by
    refine Classical.byContradiction fun hnone => ?_
    rw [isEmpty_iff.2 fun i => Bool.eq_false_iff.2 fun hi => hnone ⟨i, hi⟩] at hc
    cases hc
  obtain ⟨i, hi⟩ := hbit
  exact intersects_iff.2 ⟨i, contains_iff.1 ha i hi, contains_iff.1 hb i hi⟩

theorem intersects_mono (h : a.intersects b = true) (hc : c.contains b = true) :
    a.intersects c = true := by
  obtain ⟨i, ha, hb⟩ := intersects_iff.1 h
  exact intersects_iff.2 ⟨i, ha, contains_iff.1 hc i hb⟩

theorem intersects_of_contains_left (h : a.intersects b = true) (hc : c.contains a = true) :
    c.intersects b = true := by
  obtain ⟨i, ha, hb⟩ := intersects_iff.1 h
  exact intersects_iff.2 ⟨i, contains_iff.1 hc i ha, hb⟩

theorem isEmpty_of_contains (h : a.contains b = true) (hb : b.isEmpty = false) :
    a.isEmpty = false := by
  cases ha : a.isEmpty with
  | false => rfl
  | true =>
      rw [isEmpty_iff.2 fun i => Bool.eq_false_iff.2 fun hi => ?_] at hb
      · cases hb
      · have hai := contains_iff.1 h i hi
        rw [isEmpty_iff.1 ha i] at hai
        cases hai

end Mask

/-- The writes among the accesses of a state are writes. -/
theorem ImageState.srcAccess_intersects_writes (s : ImageState) :
    s.srcAccess.intersects Access.writes = s.isWrite := by
  rw [Bool.eq_iff_iff, ImageState.isWrite, Mask.intersects_iff, Mask.intersects_iff]
  simp only [ImageState.srcAccess, Mask.has_and, Bool.and_eq_true, and_assoc, and_self]

theorem ImageState.srcAccess_of_readOnly {s : ImageState} (h : s.isWrite = false) :
    s.srcAccess.isEmpty = true := by
  simpa [ImageState.isWrite, Mask.intersects, ImageState.srcAccess] using h

/-- Holds if a barrier for the transition changes the layout or separates a write from another
access. -/
def Transition.isNeeded (t : Transition) : Bool :=
  t.source.layout ≠ t.target.layout || t.source.isWrite || t.target.isWrite

/-! ## What is waited for -/

namespace SyncState

/-- The stages of the last write and of the reads since then. -/
def waits (s : SyncState) : StageMask :=
  match s.write with
  | none => s.readers
  | some w => s.readers ||| w.stage

variable {s : SyncState} {u : Use} {later : List Use}

theorem source_stage (s : SyncState) :
    s.source.stage = if s.waits.isEmpty then s.idle else s.waits := by
  unfold source waits
  cases s.write <;> rfl

theorem source_contains_waits (s : SyncState) : s.source.stage.contains s.waits = true := by
  rw [source_stage]
  split
  · next h => exact Mask.contains_of_isEmpty h
  · exact Mask.contains_refl _

theorem source_access {w : PendingWrite} (h : s.write = some w) : s.source.access = w.access := by
  simp [source, h]

theorem waits_contains_readers (s : SyncState) : s.waits.contains s.readers = true := by
  unfold waits
  split
  · exact Mask.contains_refl _
  · exact Mask.contains_or_left _ _

theorem waits_contains_write {w : PendingWrite} (h : s.write = some w) :
    s.waits.contains w.stage = true := by
  rw [waits, h]
  exact Mask.contains_or_right _ _

/-- Whoever waits for something is busy. -/
theorem isBusy_of_waits (h : s.waits.isEmpty = false) : s.isBusy = true := by
  unfold waits at h
  cases hw : s.write with
  | none =>
      rw [hw] at h
      simp only at h
      simp [isBusy, hw, h]
  | some w => simp [isBusy, hw]

theorem write_after_write (h : u.isWrite = true) :
    (s.after u later).write = some (.ofState u.state) := by
  simp [after, h]

/-- After a read the last write is the same one. -/
theorem write_after_read (later : List Use) (h : u.isWrite = false) {w : PendingWrite}
    (hw : s.write = some w) :
    ∃ w', (s.after u later).write = some w' ∧ w'.stage = w.stage ∧ w'.access = w.access := by
  simp only [after, h, Bool.false_eq_true, if_false, hw, Option.map_some]
  split
  · exact ⟨_, rfl, rfl, rfl⟩
  · exact ⟨w, rfl, rfl, rfl⟩

theorem readers_after_read (h : u.isWrite = false) :
    (s.after u later).readers =
      if u.state.layout ≠ s.layout then u.state.stage else s.readers ||| u.state.stage := by
  simp [after, h]

theorem waits_after_contains (s : SyncState) (u : Use) (later : List Use) :
    (s.after u later).waits.contains u.state.stage = true := by
  cases h : u.isWrite with
  | true => exact waits_contains_write (write_after_write h)
  | false =>
      refine Mask.contains_trans (waits_contains_readers _) ?_
      rw [readers_after_read h]
      split
      · exact Mask.contains_refl _
      · exact Mask.contains_or_right _ _

/-- A read in the same layout is waited for in addition. -/
theorem waits_after_read (h : u.isWrite = false) (hlayout : u.state.layout = s.layout) :
    (s.after u later).waits.contains s.waits = true := by
  have hreaders : (s.after u later).waits.contains s.readers = true := by
    refine Mask.contains_trans (waits_contains_readers _) ?_
    rw [readers_after_read h, if_neg (fun hne => hne hlayout)]
    exact Mask.contains_or_left _ _
  cases hw : s.write with
  | none =>
      rw [show s.waits = s.readers by rw [waits, hw]]
      exact hreaders
  | some w =>
      obtain ⟨w', hw', hstage, -⟩ := write_after_read later h hw
      have hwrite := waits_contains_write hw'
      rw [hstage] at hwrite
      rw [show s.waits = s.readers ||| w.stage by rw [waits, hw]]
      refine Mask.contains_iff.2 fun i hi => ?_
      rw [Mask.has_or, Bool.or_eq_true] at hi
      rcases hi with hi | hi
      · exact Mask.contains_iff.1 hreaders i hi
      · exact Mask.contains_iff.1 hwrite i hi

theorem target_contains (u : Use) (later : List Use) :
    (target u later).stage.contains u.state.stage = true := by
  unfold target
  split
  · exact Mask.contains_refl _
  · exact (mergedState_contains u.state later).1

@[simp] theorem layout_target (u : Use) (later : List Use) :
    (target u later).layout = u.state.layout := by
  unfold target
  split
  · rfl
  · exact layout_mergedState u.state later

end SyncState

/-! ## Chains -/

/-- A chain that starts from a state: the first transition waits for the state, with its writes, and
each further one for stages that the one before has blocked. -/
structure StartsFrom (i : ImageState) (chain : List Transition) : Prop where
  first : ∃ b ∈ chain.head?,
    b.source.stage.contains i.stage = true ∧ b.source.access.contains i.srcAccess = true
  linked : chain.IsChain fun b c => b.target.stage.intersects c.source.stage = true

/-- A chain that also blocks a later access. -/
structure Covers (i j : ImageState) (chain : List Transition) : Prop extends
    StartsFrom i chain where
  last : ∃ b ∈ chain.getLast?,
    b.target.stage.contains j.stage = true ∧ b.target.access.contains j.access = true

/-- How the transitions so far relate an access to what is known now.  Either none was needed, and the
access is still waited for: as the last write, or as a read in the same layout.  Or they form a chain
from the access whose end is waited for; the layout for presentation is remembered, because a
transition that stays in it may be dropped. -/
inductive Tracks (i : ImageState) : List Transition → SyncState → Prop
  | writing {s : SyncState} {w : PendingWrite} (hwrite : i.isWrite = true)
      (hs : s.write = some w) (hstage : w.stage.contains i.stage = true)
      (haccess : w.access.contains i.srcAccess = true) : Tracks i [] s
  | reading {s : SyncState} (hread : i.isWrite = false) (hstaged : i.stage.isEmpty = false)
      (hs : s.readers.contains i.stage = true) (hlayout : s.layout = i.layout) : Tracks i [] s
  | linked {s : SyncState} {chain : List Transition} {last : Transition}
      (hchain : StartsFrom i (chain ++ [last]))
      (hmeets : last.target.stage.intersects s.waits = true)
      (hlayout : s.layout = .presentSrc →
        last.target.stage.contains Stage.bottomOfPipe = true) : Tracks i (chain ++ [last]) s

namespace Tracks

variable {i : ImageState} {chain : List Transition} {s : SyncState} {u : Use}

/-- Something is waited for. -/
theorem isBusy (h : Tracks i chain s) : s.isBusy = true := by
  cases h with
  | writing hwrite hs => simp [SyncState.isBusy, hs]
  | reading hread hstaged hs =>
      refine SyncState.isBusy_of_waits (Mask.isEmpty_of_contains ?_ hstaged)
      exact Mask.contains_trans s.waits_contains_readers hs
  | linked hchain hmeets =>
      refine SyncState.isBusy_of_waits ?_
      obtain ⟨k, -, hk⟩ := Mask.intersects_iff.1 hmeets
      refine Bool.eq_false_iff.2 fun hempty => ?_
      rw [Mask.isEmpty_iff.1 hempty k] at hk
      cases hk

/-- The next transition continues the chain, whatever it leads to. -/
theorem startsFrom (h : Tracks i chain s) (target : ImageState) :
    StartsFrom i (chain ++ [⟨s.source, target⟩]) := by
  cases h with
  | writing hwrite hs hstage haccess =>
      refine ⟨⟨_, rfl, ?_, ?_⟩, List.isChain_singleton _⟩
      · exact Mask.contains_trans s.source_contains_waits
          (Mask.contains_trans (SyncState.waits_contains_write hs) hstage)
      · change s.source.access.contains i.srcAccess = true
        rw [SyncState.source_access hs]
        exact haccess
  | reading hread hstaged hs =>
      refine ⟨⟨_, rfl, ?_, ?_⟩, List.isChain_singleton _⟩
      · exact Mask.contains_trans s.source_contains_waits
          (Mask.contains_trans s.waits_contains_readers hs)
      · exact Mask.contains_of_isEmpty (ImageState.srcAccess_of_readOnly hread)
  | @linked _ front last hchain hmeets =>
      refine ⟨?_, ?_⟩
      · obtain ⟨b, hb, hcontains⟩ := hchain.first
        refine ⟨b, ?_, hcontains⟩
        rw [List.head?_append, hb]
        rfl
      · refine List.isChain_append.2 ⟨hchain.linked, List.isChain_singleton _, ?_⟩
        intro b hb c hc
        rw [List.getLast?_concat] at hb
        cases hb
        cases hc
        exact Mask.intersects_mono hmeets s.source_contains_waits

/-- A transition at a write, or into another layout, is the new end of the chain. -/
theorem linked_after {later : List Use} (hu : u.state.Fits u.isWrite)
    (hstart : StartsFrom i (chain ++ [s.transition u later])) :
    Tracks i (chain ++ [s.transition u later]) (s.after u later) := by
  refine .linked hstart ?_ ?_
  · exact Mask.intersects_of_contains (SyncState.target_contains u later)
      (s.waits_after_contains u later) hu.staged
  · intro hlayout
    rw [SyncState.after_layout] at hlayout
    exact Mask.contains_trans (SyncState.target_contains u later) (hu.presenting hlayout)

/-- A write that needs no transition is one for presentation, in the layout for it. -/
theorem of_unneeded_write {later : List Use} (h : Tracks i chain s) (hw : u.isWrite = true)
    (hu : u.state.Fits u.isWrite)
    (hpresent : i.layout = .presentSrc → u.state.layout ≠ .presentSrc)
    (hneeded : (s.transition u later).isNeeded = false) : Tracks i chain (s.after u later) := by
  have htarget : SyncState.target u later = u.state := by simp [SyncState.target, hw]
  simp only [Transition.isNeeded, SyncState.transition, htarget, Bool.or_eq_false_iff,
    decide_eq_false_iff_not, ne_eq, Decidable.not_not, SyncState.source_layout] at hneeded
  obtain ⟨⟨hlayout, hsource⟩, hread⟩ := hneeded
  have hu' : u.state.layout = .presentSrc := by
    refine Decidable.byContradiction fun hne => ?_
    rw [hu.writing hw hne] at hread
    cases hread
  cases h with
  | writing hwrite hs hstage haccess =>
      rw [ImageState.isWrite, SyncState.source_access hs] at hsource
      rw [← ImageState.srcAccess_intersects_writes] at hwrite
      rw [Mask.intersects_of_contains_left hwrite haccess] at hsource
      cases hsource
  | reading hread hstaged hs hlayout' =>
      rw [hu', hlayout'] at hlayout
      exact absurd hu' (hpresent hlayout)
  | linked hchain hmeets hbottom =>
      have hlast := hbottom (hlayout.trans hu')
      refine .linked hchain ?_ fun _ => hlast
      exact Mask.intersects_of_contains hlast
        (Mask.contains_trans (s.waits_after_contains u later) (hu.presenting hu')) rfl

/-- A read in the same layout is waited for in addition. -/
theorem of_read {later : List Use} (h : Tracks i chain s) (hw : u.isWrite = false)
    (hlayout : u.state.layout = s.layout) : Tracks i chain (s.after u later) := by
  cases h with
  | writing hwrite hs hstage haccess =>
      obtain ⟨w', hw', hstage', haccess'⟩ := SyncState.write_after_read later hw hs
      exact .writing hwrite hw' (hstage' ▸ hstage) (haccess' ▸ haccess)
  | reading hread hstaged hs hlayout' =>
      refine .reading hread hstaged ?_ ?_
      · rw [SyncState.readers_after_read hw, if_neg fun hne => hne hlayout]
        exact Mask.contains_trans (Mask.contains_or_left _ _) hs
      · rw [SyncState.after_layout, hlayout, hlayout']
  | linked hchain hmeets hbottom =>
      refine .linked hchain ?_ ?_
      · exact Mask.intersects_mono hmeets (SyncState.waits_after_read hw hlayout)
      · rw [SyncState.after_layout, hlayout]
        exact hbottom

/-- **The step of the walk over one use** either needs no transition, or adds the next one of the
chain. -/
theorem step (h : Tracks i chain s) (hu : u.state.Fits u.isWrite)
    (hpresent : i.layout = .presentSrc → u.state.layout ≠ .presentSrc) (later : List Use) :
    Tracks i chain (s.after u later) ∨
      s.needs u = true ∧ (s.transition u later).isNeeded = true ∧
        Tracks i (chain ++ [s.transition u later]) (s.after u later) := by
  have hnext := linked_after hu (h.startsFrom (SyncState.target u later))
  cases hw : u.isWrite with
  | true =>
      cases hneeded : (s.transition u later).isNeeded with
      | true => exact .inr ⟨(SyncState.needs_write hw s).2 (.inr h.isBusy), rfl, hnext⟩
      | false => exact .inl (h.of_unneeded_write hw hu hpresent hneeded)
  | false =>
      by_cases hlayout : u.state.layout = s.layout
      · exact .inl (h.of_read hw hlayout)
      · refine .inr ⟨(SyncState.needs_read hw s).2 (.inl hlayout), ?_, hnext⟩
        simp [Transition.isNeeded, SyncState.transition, Ne.symm hlayout]

/-- **The walk over several uses**, by its steps. -/
theorem run (later : List Use) (resource : Resource) {uses : List Use} (isFirst : Bool)
    (hfits : ∀ u ∈ uses, u.state.Fits u.isWrite)
    (hpresent : i.layout = .presentSrc → ∀ u ∈ uses, u.state.layout ≠ .presentSrc)
    (h : Tracks i chain s) :
    ∃ more : List Step, more.Sublist (stepsAlong resource later s isFirst uses) ∧
      (∀ x ∈ more, x.transition.isNeeded = true) ∧
      Tracks i (chain ++ more.map Step.transition) (s.along later uses) := by
  induction uses generalizing chain s isFirst with
  | nil =>
      refine ⟨[], .slnil, fun x hx => (by cases hx), ?_⟩
      rw [List.map_nil, List.append_nil]
      exact h
  | cons u uses ih =>
      have hstep := h.step (hfits u List.mem_cons_self)
        (fun hi => hpresent hi u List.mem_cons_self) (uses ++ later)
      have hfits' : ∀ v ∈ uses, v.state.Fits v.isWrite :=
        fun v hv => hfits v (List.mem_cons_of_mem _ hv)
      have hpresent' : i.layout = .presentSrc → ∀ v ∈ uses, v.state.layout ≠ .presentSrc :=
        fun hi v hv => hpresent hi v (List.mem_cons_of_mem _ hv)
      rcases hstep with hnext | ⟨hneeds, hneeded, hnext⟩
      · obtain ⟨more, hsub, hmore, htracks⟩ := ih false hfits' hpresent' hnext
        exact ⟨more, hsub.trans (List.sublist_append_right _ _), hmore, htracks⟩
      · obtain ⟨more, hsub, hmore, htracks⟩ := ih false hfits' hpresent' hnext
        refine ⟨⟨u, isFirst, s.transition u (uses ++ later)⟩ :: more, ?_, ?_, ?_⟩
        · rw [stepsAlong, hneeds, Bool.true_or, if_pos rfl]
          exact hsub.cons_cons _
        · intro x hx
          rcases List.mem_cons.1 hx with rfl | hx
          · exact hneeded
          · exact hmore x hx
        · rw [List.append_assoc] at htracks
          exact htracks

end Tracks

/-! ## The end of a chain -/

/-- What makes the next read in a layout wait: the resource is in another layout, or was written and
not made visible to anyone since. -/
def SyncState.IsFresh (s : SyncState) (layout : Layout) : Prop :=
  layout ≠ s.layout ∨
    ∃ w, s.write = some w ∧ w.shownAt = Stage.none ∧ w.access.intersects Access.writes = true

namespace SyncState

variable {s : SyncState} {u : Use} {layout : Layout}

theorem isFresh_ofState {state : ImageState} (h : state.isWrite = true)
    (hs : s.write = some (.ofState state)) : s.IsFresh layout := by
  refine .inr ⟨_, hs, rfl, ?_⟩
  rw [← ImageState.srcAccess_intersects_writes] at h
  exact h

/-- After a write, or a use in another layout, the next read waits. -/
theorem isFresh_after (hu : u.state.Fits u.isWrite) (hlayout : layout ≠ .presentSrc)
    (hend : u.isWrite = true ∨ u.state.layout ≠ layout) (later : List Use) :
    (s.after u later).IsFresh layout := by
  by_cases hsame : u.state.layout = layout
  · have hw := hend.resolve_right fun hne => hne hsame
    refine isFresh_ofState ?_ (write_after_write hw)
    exact hu.writing hw (by rw [hsame]; exact hlayout)
  · exact .inl (by rw [after_layout]; exact fun h => hsame h.symm)

theorem needs_of_isFresh (h : s.IsFresh u.state.layout) (hw : u.isWrite = false)
    (hu : u.state.Fits u.isWrite) (later : List Use) :
    s.needs u = true ∧ (s.transition u later).isNeeded = true := by
  rw [needs_read hw]
  rcases h with hlayout | ⟨w, hs, hshown, haccess⟩
  · exact ⟨.inl hlayout, by simp [Transition.isNeeded, transition, Ne.symm hlayout]⟩
  · refine ⟨.inr ?_, ?_⟩
    · have hnot : w.shownAt.contains u.state.stage = false := by
        refine Bool.eq_false_iff.2 fun hcontains => ?_
        have hempty := Mask.isEmpty_of_contains hcontains hu.staged
        rw [hshown] at hempty
        cases hempty
      simp [isSettledFor, hs, PendingWrite.isShownTo, hnot]
    · have hsource : s.source.isWrite = true := by
        rw [ImageState.isWrite, source_access hs]
        exact haccess
      simp [Transition.isNeeded, transition, hsource]

end SyncState

/-- The uses before a read end in a run of reads in its layout, before which there is nothing, a write
or a use in another layout. -/
theorem exists_run (uses : List Use) (layout : Layout) :
    ∃ front run, uses = front ++ run ∧
      (∀ u ∈ run, u.isWrite = false ∧ u.state.layout = layout) ∧
      (front = [] ∨ ∃ before u, front = before ++ [u] ∧
        (u.isWrite = true ∨ u.state.layout ≠ layout)) := by
  induction uses using List.reverseRecOn with
  | nil => exact ⟨[], [], rfl, fun u hu => (by cases hu), .inl rfl⟩
  | append_singleton uses u ih =>
      by_cases hu : u.isWrite = false ∧ u.state.layout = layout
      · obtain ⟨front, run, rfl, hrun, hfront⟩ := ih
        refine ⟨front, run ++ [u], List.append_assoc .., fun v hv => ?_, hfront⟩
        rcases List.mem_append.1 hv with hv | hv
        · exact hrun v hv
        · rw [List.mem_singleton.1 hv]
          exact hu
      · refine ⟨uses ++ [u], [], (List.append_nil _).symm, fun v hv => (by cases hv), ?_⟩
        refine .inr ⟨uses, u, rfl, ?_⟩
        cases hw : u.isWrite with
        | true => exact .inl rfl
        | false => exact .inr fun hlayout => hu ⟨hw, hlayout⟩

/-- The barrier before a run of reads serves each of them. -/
theorem mergedState_contains_last {run later : List Use} {u j : Use} {rest : List Use}
    (hsplit : run ++ [j] = u :: rest) (hrun : ∀ v ∈ run, v.isWrite = false ∧
      v.state.layout = j.state.layout) (hj : j.isWrite = false) :
    (mergedState u.state (rest ++ later)).stage.contains j.state.stage = true ∧
      (mergedState u.state (rest ++ later)).access.contains j.state.access = true := by
  cases run with
  | nil =>
      cases hsplit
      exact mergedState_contains _ later
  | cons v run =>
      rw [List.cons_append] at hsplit
      obtain ⟨rfl, rfl⟩ := List.cons.inj hsplit
      rw [List.append_assoc, List.singleton_append]
      refine mergedState_contains_mem fun w hw => ?_
      have hlayout := (hrun v List.mem_cons_self).2
      rcases List.mem_append.1 hw with hw | hw
      · obtain ⟨hread, hwlayout⟩ := hrun w (List.mem_cons_of_mem _ hw)
        exact ⟨hread, hwlayout.trans hlayout.symm⟩
      · rw [List.mem_singleton.1 hw]
        exact ⟨hj, hlayout.symm⟩

section Between

variable {i : ImageState} {chain : List Transition} {s : SyncState} {j : Use} {uses : List Use}

/-- A step is made before a use if it needs one. -/
theorem step_mem_stepsAlong (resource : Resource) (later : List Use) (s : SyncState) (isFirst : Bool)
    {front rest : List Use} {u : Use}
    (hkept : ((s.along (u :: rest ++ later) front).needs u ||
      (isFirst && front.isEmpty) && !resource.isImported) = true) :
    (stepsAlong resource (u :: rest ++ later) s isFirst front ++
      [Step.mk u (isFirst && front.isEmpty)
        ((s.along (u :: rest ++ later) front).transition u (rest ++ later))]).Sublist
      (stepsAlong resource later s isFirst (front ++ u :: rest)) := by
  rw [stepsAlong_append, stepsAlong, if_pos hkept]
  exact (List.Sublist.refl _).append (List.sublist_append_left _ _)

/-- **A chain goes on to a use that needs a transition.** -/
theorem Tracks.arrive (h : Tracks i chain s) {u : Use} {rest : List Use} (later : List Use)
    (hfits : ∀ v ∈ uses, v.state.Fits v.isWrite)
    (hpresent : i.layout = .presentSrc → ∀ v ∈ uses, v.state.layout ≠ .presentSrc)
    (hneeds : u.isWrite = true ∨ (s.along (u :: rest ++ later) uses).needs u = true)
    (resource : Resource) (isFirst : Bool) :
    ∃ more : List Step,
      (more ++ [Step.mk u (isFirst && uses.isEmpty)
        ((s.along (u :: rest ++ later) uses).transition u (rest ++ later))]).Sublist
        (stepsAlong resource later s isFirst (uses ++ u :: rest)) ∧
      (∀ x ∈ more, x.transition.isNeeded = true) ∧
      StartsFrom i (chain ++ more.map Step.transition ++
        [(s.along (u :: rest ++ later) uses).transition u (rest ++ later)]) := by
  obtain ⟨more, hsub, hmore, hend⟩ := h.run (u :: rest ++ later) resource isFirst hfits hpresent
  refine ⟨more, ?_, hmore, hend.startsFrom _⟩
  have hkept : (s.along (u :: rest ++ later) uses).needs u = true := by
    rcases hneeds with hw | hneeds
    · exact (SyncState.needs_write hw _).2 (.inr hend.isBusy)
    · exact hneeds
  refine (hsub.append (List.Sublist.refl _)).trans (step_mem_stepsAlong resource later s isFirst ?_)
  rw [hkept, Bool.true_or]

/-- Something makes the reads in a layout behind some uses wait: what is known before these uses, or one
of them. -/
def SeparatesReads (s : SyncState) (uses : List Use) (layout : Layout) : Prop :=
  s.IsFresh layout ∨ ∃ u ∈ uses, u.isWrite = true ∨ u.state.layout ≠ layout

/-- The first of the run of reads at the end waits. -/
theorem SeparatesReads.exists_run {layout : Layout} (h : SeparatesReads s uses layout)
    (hfits : ∀ u ∈ uses, u.state.Fits u.isWrite) (hlayout : layout ≠ .presentSrc) :
    ∃ front run, uses = front ++ run ∧
      (∀ u ∈ run, u.isWrite = false ∧ u.state.layout = layout) ∧
      (front = [] ∨ ∃ before u, front = before ++ [u] ∧
        (u.isWrite = true ∨ u.state.layout ≠ layout)) ∧
      ∀ later, (s.along later front).IsFresh layout := by
  obtain ⟨front, run, rfl, hrun, hfront⟩ := FrameGraph.exists_run uses layout
  refine ⟨front, run, rfl, hrun, hfront, fun later => ?_⟩
  rcases hfront with rfl | ⟨before, v, rfl, hv⟩
  · -- Nothing separates the run from the beginning.
    rcases h with hfresh | ⟨v, hv, hseparates⟩
    · exact hfresh
    · obtain ⟨hread, hsame⟩ := hrun v hv
      rcases hseparates with hwrite | hne
      · rw [hread] at hwrite
        cases hwrite
      · exact absurd hsame hne
  · rw [along_append]
    refine SyncState.isFresh_after (hfits v ?_) hlayout hv _
    exact List.mem_append_left _ (List.mem_append_right _ List.mem_cons_self)

/-- What makes a transition block a use: the use writes, or something makes it wait. -/
def Separated (s : SyncState) (uses : List Use) (j : Use) : Prop :=
  j.isWrite = true ∨ SeparatesReads s uses j.state.layout

/-- Two uses of which one writes are separated. -/
theorem separated_after {u : Use} (hu : u.state.Fits u.isWrite) (hlayout : u.state.layout ≠ .presentSrc)
    (hw : u.isWrite = true ∨ j.isWrite = true) (s : SyncState) (uses later : List Use) :
    Separated (s.after u later) uses j := by
  rcases hw with hw | hw
  · exact .inr (.inl (SyncState.isFresh_ofState (hu.writing hw hlayout)
      (SyncState.write_after_write hw)))
  · exact .inl hw

/-- **The use that a transition stands before**: a write itself, or the first of the run of reads to
which a read belongs. -/
theorem Separated.exists_arrival (h : Separated s uses j)
    (hfits : ∀ u ∈ uses ++ [j], u.state.Fits u.isWrite) (hj : j.state.layout ≠ .presentSrc)
    (later : List Use) :
    ∃ front u rest, uses ++ [j] = front ++ u :: rest ∧
      (u.isWrite = true ∨ (s.along (u :: rest ++ later) front).needs u = true) ∧
      ((s.along (u :: rest ++ later) front).transition u (rest ++ later)).isNeeded = true ∧
      (SyncState.target u (rest ++ later)).stage.contains j.state.stage = true ∧
      (SyncState.target u (rest ++ later)).access.contains j.state.access = true := by
  have hfitsj := hfits j (List.mem_append_right _ List.mem_cons_self)
  cases hw : j.isWrite with
  | true =>
      have htarget : SyncState.target j later = j.state := by simp [SyncState.target, hw]
      refine ⟨uses, j, [], rfl, .inl hw, ?_, ?_⟩
      · simp [Transition.isNeeded, SyncState.transition, htarget, hfitsj.writing hw hj]
      · rw [List.nil_append, htarget]
        exact ⟨Mask.contains_refl _, Mask.contains_refl _⟩
  | false =>
      have hseparates := h.resolve_left (by rw [hw]; exact Bool.false_ne_true)
      obtain ⟨front, run, rfl, hrun, -, hfresh⟩ :=
        hseparates.exists_run (fun u hu => hfits u (List.mem_append_left _ hu)) hj
      obtain ⟨u, rest, hsplit⟩ : ∃ u rest, run ++ [j] = u :: rest := by
        cases run with
        | nil => exact ⟨j, [], rfl⟩
        | cons u run => exact ⟨u, run ++ [j], rfl⟩
      have humem : u ∈ run ++ [j] := by
        rw [hsplit]
        exact List.mem_cons_self
      have huread : u.isWrite = false ∧ u.state.layout = j.state.layout := by
        rcases List.mem_append.1 humem with hu | hu
        · exact hrun u hu
        · rw [List.mem_singleton.1 hu]
          exact ⟨hw, rfl⟩
      have huses : front ++ run ++ [j] = front ++ u :: rest := by rw [List.append_assoc, hsplit]
      have hufits := hfits u (huses ▸ List.mem_append_right _ List.mem_cons_self)
      have hfreshu := hfresh (u :: rest ++ later)
      rw [← huread.2] at hfreshu
      obtain ⟨hneeds, hneeded⟩ :=
        SyncState.needs_of_isFresh hfreshu huread.1 hufits (rest ++ later)
      have htarget : SyncState.target u (rest ++ later) = mergedState u.state (rest ++ later) := by
        simp [SyncState.target, huread.1]
      refine ⟨front, u, rest, huses, .inr hneeds, hneeded, ?_⟩
      rw [htarget]
      exact mergedState_contains_last hsplit hrun hw

/-- **Between an access and a later one the walk places a chain**, if something separates them. -/
theorem exists_covering_steps (htracks : Tracks i chain s)
    (hfits : ∀ u ∈ uses ++ [j], u.state.Fits u.isWrite)
    (hpresent : i.layout = .presentSrc → ∀ u ∈ uses ++ [j], u.state.layout ≠ .presentSrc)
    (hj : j.state.layout ≠ .presentSrc) (hseparated : Separated s uses j) (resource : Resource)
    (isFirst : Bool) (later : List Use) :
    ∃ more : List Step, more.Sublist (stepsAlong resource later s isFirst (uses ++ [j])) ∧
      (∀ x ∈ more, x.transition.isNeeded = true) ∧
      Covers i j.state (chain ++ more.map Step.transition) := by
  obtain ⟨front, u, rest, hsplit, hneeds, hneeded, hcontains⟩ :=
    hseparated.exists_arrival hfits hj later
  have hmem : ∀ v ∈ front, v ∈ uses ++ [j] := fun v hv => hsplit ▸ List.mem_append_left _ hv
  obtain ⟨more, hsub, hmore, hstart⟩ := htracks.arrive later (fun v hv => hfits v (hmem v hv))
    (fun hi v hv => hpresent hi v (hmem v hv)) hneeds resource isFirst
  refine ⟨_, hsplit ▸ hsub, fun x hx => ?_, ?_⟩
  · rcases List.mem_append.1 hx with hx | hx
    · exact hmore x hx
    · rw [List.mem_singleton.1 hx]
      exact hneeded
  · rw [List.map_append, ← List.append_assoc]
    exact ⟨hstart, _, List.getLast?_concat, hcontains⟩

end Between

end FrameGraph
