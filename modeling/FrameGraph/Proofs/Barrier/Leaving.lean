import FrameGraph.Proofs.Barrier.Coverage

/-!
# Chains beyond the end of a timeline

When the uses of a resource are over, all that is kept of them is one state: that in which a persistent
resource waits for the next frame, or that for which the next resource in the same memory waits.
`Leaves` says what this state still tells about an access, and how far a chain from the access has
come.  The next walk starts from the state and goes on with the chain.

Principal statements: `exists_leaving`, which goes from an access to the end of a timeline, and
`Leaves.exists_covering_steps`, which goes from there to a use in the next walk.
-/

set_option autoImplicit false

namespace FrameGraph

theorem ImageState.srcAccess_contains {s t : ImageState}
    (h : s.access.contains t.srcAccess = true) : s.srcAccess.contains t.srcAccess = true := by
  refine Mask.contains_iff.2 fun k hk => ?_
  have hwrites : Access.writes.has k = true := by
    rw [ImageState.srcAccess, Mask.has_and, Bool.and_eq_true] at hk
    exact hk.2
  rw [ImageState.srcAccess, Mask.has_and, Mask.contains_iff.1 h k hk, hwrites]
  rfl

/-- The writes among the accesses of a state are accesses of it. -/
theorem ImageState.access_contains (s : ImageState) : s.access.contains s.srcAccess = true := by
  refine Mask.contains_iff.2 fun k hk => ?_
  rw [ImageState.srcAccess, Mask.has_and, Bool.and_eq_true] at hk
  exact hk.1

/-! ## What is left -/

/-- A state that stands for the last of some uses: for a write it is the state of the write, for a read
it may also name other reads in the layout. -/
structure StandsFor (left : ImageState) (last : Use) : Prop where
  layout : left.layout = last.state.layout
  stage : left.stage.contains last.state.stage = true
  writing : last.isWrite = true → left = last.state
  reading : last.isWrite = false → left.isWrite = false ∧ left.access ≠ Access.none

/-- What a state tells about an access from which a chain leads to it.  Without a barrier, the state is
that of the access, or that of reads among which it is.  Otherwise the state is at stages that the last
barrier has blocked. -/
inductive Leaves (i : ImageState) : List Transition → ImageState → Prop
  | writing {left : ImageState} (hwrite : i.isWrite = true)
      (hstage : left.stage.contains i.stage = true)
      (haccess : left.access.contains i.srcAccess = true) : Leaves i [] left
  | reading {left : ImageState} (hread : i.isWrite = false) (hstaged : i.stage.isEmpty = false)
      (hstage : left.stage.contains i.stage = true) (hleft : left.isWrite = false)
      (haccess : left.access ≠ Access.none) (hlayout : left.layout = i.layout) : Leaves i [] left
  | linked {left : ImageState} {chain : List Transition} {last : Transition}
      (hchain : StartsFrom i (chain ++ [last]))
      (hmeets : last.target.stage.intersects left.stage = true)
      (hlayout : left.layout = .presentSrc →
        last.target.stage.contains Stage.bottomOfPipe = true) : Leaves i (chain ++ [last]) left

namespace Leaves

variable {i left : ImageState} {chain : List Transition} {last : Use}

/-- A write that is left itself. -/
theorem of_write {i : Use} (hi : i.state.Fits i.isWrite) (hlayout : i.state.layout ≠ .presentSrc)
    (hw : i.isWrite = true) : Leaves i.state [] i.state :=
  .writing (hi.writing hw hlayout) (Mask.contains_refl _) i.state.access_contains

/-- A read that is left with others. -/
theorem of_read {i : Use} (hi : i.state.Fits i.isWrite) (hread : i.isWrite = false)
    (hleft : StandsFor left last) (hlast : last.isWrite = false)
    (hlayout : last.state.layout = i.state.layout)
    (hstage : left.stage.contains i.state.stage = true) : Leaves i.state [] left := by
  obtain ⟨hwrites, haccess⟩ := hleft.reading hlast
  exact .reading (hi.readOnly hread).1 hi.staged hstage hwrites haccess (hleft.layout.trans hlayout)

/-- In the layout for presentation a chain ends at the bottom of the pipe. -/
theorem of_presented {s : SyncState} (h : Tracks i chain s) (hi : i.layout ≠ .presentSrc)
    (hlayout : s.layout = .presentSrc) (hwrite : s.write = some (.ofState left))
    (hbottom : left.stage.contains Stage.bottomOfPipe = true) : Leaves i chain left := by
  cases h with
  | writing hiwrite hs hstage haccess =>
      cases hs.symm.trans hwrite
      exact .writing hiwrite hstage (Mask.contains_trans left.access_contains haccess)
  | reading hread hstaged hs hsame => exact absurd (hsame.symm.trans hlayout) hi
  | linked hchain hmeets hends =>
      exact .linked hchain (Mask.intersects_of_contains (hends hlayout) hbottom rfl)
        fun _ => hends hlayout

/-- A chain that covers the last use ends at its stages. -/
theorem of_covers (h : Covers i last.state chain) (hlast : last.state.stage.isEmpty = false)
    (hleft : StandsFor left last) (hlayout : last.state.layout ≠ .presentSrc) :
    Leaves i chain left := by
  obtain ⟨b, hb, hstage, -⟩ := h.last
  obtain ⟨front, rfl⟩ := List.getLast?_eq_some_iff.1 hb
  refine .linked h.toStartsFrom (Mask.intersects_of_contains hstage hleft.stage hlast) fun heq => ?_
  exact absurd (hleft.layout.symm.trans heq) hlayout

end Leaves

/-- What nothing separates are reads in one layout. -/
theorem reads_of_not_separated {i last : Use} {uses later : List Use} {s : SyncState}
    (hi : i.state.Fits i.isWrite) (hlayout : last.state.layout ≠ .presentSrc)
    (h : ¬ Separated (s.after i later) uses last) :
    ∀ u ∈ i :: (uses ++ [last]), u.isWrite = false ∧ u.state.layout = i.state.layout := by
  have hfresh : ¬(i.isWrite = true ∨ i.state.layout ≠ last.state.layout) := fun hend =>
    h (.inr (.inl (SyncState.isFresh_after hi hlayout hend later)))
  have hiread : i.isWrite = false := Bool.eq_false_iff.2 fun hw => hfresh (.inl hw)
  have hsame : last.state.layout = i.state.layout :=
    Decidable.byContradiction fun hne => hfresh (.inr (Ne.symm hne))
  intro u hu
  rcases List.mem_cons.1 hu with rfl | hu
  · exact ⟨hiread, rfl⟩
  · rcases List.mem_append.1 hu with hu | hu
    · refine ⟨Bool.eq_false_iff.2 fun hw => h (.inr (.inr ⟨u, hu, .inl hw⟩)), ?_⟩
      refine Decidable.byContradiction fun hne => h (.inr (.inr ⟨u, hu, .inr ?_⟩))
      rw [hsame]
      exact hne
    · rw [List.mem_singleton.1 hu]
      exact ⟨Bool.eq_false_iff.2 fun hw => h (.inl hw), hsame⟩

/-- **From a use to the end of the timeline.**  If nothing separates the use from the last one, it must
be seen otherwise that the chain ends in the state that is left. -/
theorem Tracks.exists_leaving {i : ImageState} {chain : List Transition} {u : Use} {later : List Use}
    {s : SyncState} (htracks : Tracks i chain (s.after u later)) (hi : i.layout ≠ .presentSrc)
    (hfits : ∀ v ∈ u :: later, v.state.Fits v.isWrite) {last : Use}
    (hlast : (u :: later).getLast? = some last) {left : ImageState} (hleft : StandsFor left last)
    (hsame : (later = [] ∨
      ∀ v ∈ u :: later, v.isWrite = false ∧ v.state.layout = u.state.layout) → Leaves i chain left)
    (resource : Resource) (isFirst : Bool) :
    ∃ more : List Step, more.Sublist (stepsAlong resource [] (s.after u later) isFirst later) ∧
      (∀ x ∈ more, x.transition.isNeeded = true) ∧
      Leaves i (chain ++ more.map Step.transition) left := by
  have hlfits := hfits last (List.mem_of_getLast? hlast)
  have hnone : ∀ x ∈ ([] : List Step), x.transition.isNeeded = true := fun x hx => by cases hx
  obtain ⟨front, hsplit⟩ := List.getLast?_eq_some_iff.1 hlast
  cases front with
  | nil =>
      obtain ⟨-, rfl⟩ := List.cons.inj hsplit
      refine ⟨[], .slnil, hnone, ?_⟩
      rw [List.map_nil, List.append_nil]
      exact hsame (.inl rfl)
  | cons first between =>
      obtain ⟨rfl, rfl⟩ := List.cons.inj hsplit
      have hrest : ∀ v ∈ between ++ [last], v.state.Fits v.isWrite :=
        fun v hv => hfits v (List.mem_cons_of_mem _ hv)
      by_cases hpresent : last.state.layout = .presentSrc
      · have hlw : last.isWrite = true :=
          eq_true_of_ne_false fun hread => (hlfits.readOnly hread).2 hpresent
        obtain ⟨more, hsub, hmore, hend⟩ := htracks.run [] resource isFirst hrest
          fun heq => absurd heq hi
        refine ⟨more, hsub, hmore, ?_⟩
        rw [along_append] at hend
        rw [hleft.writing hlw]
        refine .of_presented hend hi ?_ (SyncState.write_after_write hlw) (hlfits.presenting hpresent)
        exact (SyncState.after_layout ..).trans hpresent
      · by_cases hseparated : Separated (s.after u (between ++ [last])) between last
        · obtain ⟨more, hsub, hmore, hcovers⟩ := exists_covering_steps htracks hrest
            (fun heq => absurd heq hi) hpresent hseparated resource isFirst []
          exact ⟨more, hsub, hmore, .of_covers hcovers hlfits.staged hleft hpresent⟩
        · have hall := reads_of_not_separated (hfits u List.mem_cons_self) hpresent hseparated
          refine ⟨[], List.nil_sublist _, hnone, ?_⟩
          rw [List.map_nil, List.append_nil]
          exact hsame (.inr hall)

/-- **From an access to the end of the timeline.**  The state that is left must name the stages of an
access that is one of the last reads. -/
theorem exists_leaving {i : Use} {later : List Use}
    (hfits : ∀ u ∈ i :: later, u.state.Fits u.isWrite) (hi : i.state.layout ≠ .presentSrc)
    {last : Use} (hlast : (i :: later).getLast? = some last) {left : ImageState}
    (hleft : StandsFor left last)
    (hreads : (∀ u ∈ i :: later, u.isWrite = false ∧ u.state.layout = i.state.layout) →
      left.stage.contains i.state.stage = true)
    (s : SyncState) (resource : Resource) (isFirst : Bool) :
    ∃ more : List Step, more.Sublist (stepsAlong resource [] (s.after i later) isFirst later) ∧
      (∀ x ∈ more, x.transition.isNeeded = true) ∧
      Leaves i.state (more.map Step.transition) left := by
  have hifits := hfits i List.mem_cons_self
  refine (tracks_after hifits hi s later).exists_leaving hi hfits hlast hleft (fun hsame => ?_)
    resource isFirst
  cases hw : i.isWrite with
  | true =>
      -- A write is the last use itself.
      obtain rfl : later = [] := hsame.resolve_right fun hall => by
        have hread := (hall i List.mem_cons_self).1
        rw [hw] at hread
        cases hread
      obtain rfl : i = last := Option.some.inj hlast
      rw [hleft.writing hw]
      exact .of_write hifits hi hw
  | false =>
      have hall : ∀ u ∈ i :: later, u.isWrite = false ∧ u.state.layout = i.state.layout := by
        rcases hsame with rfl | hall
        · intro u hu
          rw [List.mem_singleton.1 hu]
          exact ⟨hw, rfl⟩
        · exact hall
      obtain ⟨hlread, hlayout⟩ := hall last (List.mem_of_getLast? hlast)
      exact .of_read hifits hw hleft hlread hlayout (hreads hall)

/-! ## The last reads -/

theorem Covers.of_contains {i j k : ImageState} {chain : List Transition} (h : Covers i k chain)
    (hstage : k.stage.contains j.stage = true) (haccess : k.access.contains j.access = true) :
    Covers i j chain := by
  obtain ⟨b, hb, hbstage, hbaccess⟩ := h.last
  exact ⟨h.toStartsFrom, b, hb, Mask.contains_trans hbstage hstage,
    Mask.contains_trans hbaccess haccess⟩

theorem lastAccess_concat (front : Timeline) (last : Use) :
    Timeline.lastAccess (front ++ [last]) =
      some (if last.isWrite then last.state else mergedState last.state front.reverse) := by
  simp [Timeline.lastAccess]

/-- The state in which a timeline leaves a resource stands for the last use. -/
theorem standsFor_lastAccess {timeline : Timeline} {last : Use}
    (hlast : timeline.getLast? = some last) (hfits : ∀ u ∈ timeline, u.state.Fits u.isWrite)
    (hreads : ∀ u ∈ timeline, u.isWrite = false → u.state.access ≠ Access.none) {left : ImageState}
    (hleft : timeline.lastAccess = some left) : StandsFor left last := by
  have hmem := List.mem_of_getLast? hlast
  obtain ⟨front, rfl⟩ := List.getLast?_eq_some_iff.1 hlast
  rw [lastAccess_concat] at hleft
  cases hw : last.isWrite with
  | true =>
      rw [hw, if_pos rfl] at hleft
      cases hleft
      refine ⟨rfl, Mask.contains_refl _, fun _ => rfl, fun hread => ?_⟩
      rw [hw] at hread
      cases hread
  | false =>
      rw [hw, if_neg Bool.false_ne_true] at hleft
      cases hleft
      obtain ⟨hstage, haccess⟩ := mergedState_contains last.state front.reverse
      refine ⟨layout_mergedState .., hstage, fun hwrite => ?_, fun _ => ⟨?_, ?_⟩⟩
      · rw [hw] at hwrite
        cases hwrite
      · refine isWrite_mergedState ((hfits last hmem).readOnly hw).1 fun u hu => ?_
        exact hfits u (List.mem_append_left _ (List.mem_reverse.1 hu))
      · intro hnone
        rw [hnone] at haccess
        refine hreads last hmem hw (Mask.ext_has fun k => ?_)
        cases hk : last.state.access.has k with
        | true => exact (Mask.contains_iff.1 haccess k hk).symm
        | false => simp [Access.none]

/-- A read that is among the last ones is part of the state that they leave. -/
theorem lastAccess_contains {before later : List Use} {i last : Use}
    (hlast : (i :: later).getLast? = some last) {left : ImageState}
    (hleft : Timeline.lastAccess (before ++ i :: later) = some left)
    (hreads : ∀ u ∈ i :: later, u.isWrite = false ∧ u.state.layout = i.state.layout) :
    left.stage.contains i.state.stage = true := by
  obtain ⟨front, hsplit⟩ := List.getLast?_eq_some_iff.1 hlast
  obtain ⟨hlread, hllayout⟩ := hreads last (List.mem_of_getLast? hlast)
  rw [hsplit, ← List.append_assoc, lastAccess_concat, hlread, if_neg Bool.false_ne_true] at hleft
  cases hleft
  cases front with
  | nil =>
      obtain ⟨rfl, -⟩ := List.cons.inj hsplit
      exact (mergedState_contains ..).1
  | cons first between =>
      obtain ⟨rfl, rfl⟩ := List.cons.inj hsplit
      rw [List.reverse_append, List.reverse_cons, List.append_assoc, List.singleton_append]
      refine (mergedState_contains_mem fun u hu => ?_).1
      rcases List.mem_append.1 hu with hu | hu
      · obtain ⟨hread, hlayout⟩ := hreads u (List.mem_cons_of_mem _
          (List.mem_append_left _ (List.mem_reverse.1 hu)))
        exact ⟨hread, hlayout.trans hllayout.symm⟩
      · rw [List.mem_singleton.1 hu]
        exact ⟨(hreads i List.mem_cons_self).1, hllayout.symm⟩

private theorem mem_of_mem_takeWhile {α : Type} {p : α → Bool} {front rest : List α} {x a : α}
    (hx : p x = false) (ha : a ∈ (front ++ x :: rest).takeWhile p) : a ∈ front := by
  induction front with
  | nil =>
      rw [List.nil_append, List.takeWhile_cons_of_neg (by rw [hx]; exact Bool.false_ne_true)] at ha
      cases ha
  | cons b front ih =>
      rw [List.cons_append, List.takeWhile_cons] at ha
      split at ha
      · rcases List.mem_cons.1 ha with rfl | ha
        · exact List.mem_cons_self
        · exact List.mem_cons_of_mem _ (ih ha)
      · cases ha

/-- The barrier before a run of reads serves each of them. -/
theorem target_contains_of_mem {u w : Use} {rest : List Use}
    (hrun : ∀ v ∈ u :: rest, v.isWrite = false ∧ v.state.layout = u.state.layout)
    (hw : w ∈ u :: rest) (later : List Use) :
    (SyncState.target u (rest ++ later)).stage.contains w.state.stage = true ∧
      (SyncState.target u (rest ++ later)).access.contains w.state.access = true := by
  have htarget : SyncState.target u (rest ++ later) = mergedState u.state (rest ++ later) := by
    simp [SyncState.target, (hrun u List.mem_cons_self).1]
  rw [htarget]
  rcases List.mem_cons.1 hw with rfl | hw
  · exact mergedState_contains _ _
  · obtain ⟨xs, ys, rfl⟩ := List.append_of_mem hw
    rw [List.append_assoc, List.cons_append]
    refine mergedState_contains_mem fun v hv => hrun v (List.mem_cons_of_mem _ ?_)
    rcases List.mem_append.1 hv with hv | hv
    · exact List.mem_append_left _ hv
    · rw [List.mem_singleton.1 hv]
      exact List.mem_append_right _ List.mem_cons_self

/-- Whatever contains each of the last reads contains the state that they leave. -/
theorem contains_lastAccess {stages : StageMask} {accesses : AccessMask} {front run : List Use}
    {x last : Use} (hread : last.isWrite = false)
    (hx : x.isWrite = true ∨ x.state.layout ≠ last.state.layout)
    (hrun : ∀ u ∈ run ++ [last],
      stages.contains u.state.stage = true ∧ accesses.contains u.state.access = true)
    {left : ImageState} (hleft : Timeline.lastAccess (front ++ x :: run ++ [last]) = some left) :
    stages.contains left.stage = true ∧ accesses.contains left.access = true := by
  rw [lastAccess_concat, hread, if_neg Bool.false_ne_true] at hleft
  cases hleft
  refine contains_mergedState (hrun last (List.mem_append_right _ List.mem_cons_self)) fun u hu => ?_
  rw [List.reverse_append, List.reverse_cons, List.append_assoc, List.singleton_append] at hu
  refine hrun u (List.mem_append_left _ (List.mem_reverse.1 (mem_of_mem_takeWhile ?_ hu)))
  rcases hx with hw | hne
  · rw [hw]
    rfl
  · simp [hne]

/-- If the last use is one of the reads behind another use, it is the last of them. -/
private theorem exists_init {others run : List Use} {x last : Use} (hread : last.isWrite = false)
    (hx : x.isWrite = true ∨ x.state.layout ≠ last.state.layout)
    (hend : (others ++ x :: run).getLast? = some last) : ∃ init, run = init ++ [last] := by
  rw [List.getLast?_append, List.getLast?_cons] at hend
  cases hrun : run.getLast? with
  | none =>
      rw [hrun] at hend
      obtain rfl : x = last := by simpa using hend
      rcases hx with hw | hne
      · rw [hread] at hw
        cases hw
      · exact absurd rfl hne
  | some l =>
      rw [hrun] at hend
      obtain rfl : l = last := by simpa using hend
      exact List.getLast?_eq_some_iff.1 hrun

/-- **From a write to the reads at the end of the timeline**: the barrier before them serves all of
them. -/
theorem exists_covering_last_reads {before later : List Use} {i last : Use}
    (hfits : ∀ u ∈ i :: later, u.state.Fits u.isWrite) (hi : i.state.layout ≠ .presentSrc)
    (hw : i.isWrite = true) (hlast : (i :: later).getLast? = some last) (hread : last.isWrite = false)
    {left : ImageState} (hleft : Timeline.lastAccess (before ++ i :: later) = some left)
    (s : SyncState) (resource : Resource) (isFirst : Bool) :
    ∃ more : List Step, more.Sublist (stepsAlong resource [] (s.after i later) isFirst later) ∧
      (∀ x ∈ more, x.transition.isNeeded = true) ∧
      Covers i.state left (more.map Step.transition) := by
  have hifits := hfits i List.mem_cons_self
  have hrest : ∀ u ∈ later, u.state.Fits u.isWrite := fun u hu => hfits u (List.mem_cons_of_mem _ hu)
  have hseparates : SeparatesReads (s.after i later) later last.state.layout :=
    .inl (SyncState.isFresh_ofState (hifits.writing hw hi) (SyncState.write_after_write hw))
  have hlayout : last.state.layout ≠ .presentSrc :=
    ((hfits last (List.mem_of_getLast? hlast)).readOnly hread).2
  obtain ⟨front, run, rfl, hrun, hfront, hfresh⟩ := hseparates.exists_run hrest hlayout
  -- Right before the run stands the access itself or something else that is not one of the reads.
  obtain ⟨others, x, hothers, hx⟩ : ∃ others x, before ++ i :: front = others ++ [x] ∧
      (x.isWrite = true ∨ x.state.layout ≠ last.state.layout) := by
    rcases hfront with rfl | ⟨front, v, rfl, hv⟩
    · exact ⟨before, i, rfl, .inl hw⟩
    · exact ⟨before ++ i :: front, v, by simp, hv⟩
  have hall : before ++ i :: (front ++ run) = others ++ x :: run := by
    rw [← List.cons_append, ← List.append_assoc, hothers, List.append_assoc, List.singleton_append]
  have hend : (others ++ x :: run).getLast? = some last := by
    rw [← hall, List.getLast?_append, hlast]
    rfl
  obtain ⟨init, rfl⟩ := exists_init hread hx hend
  have hleft' : Timeline.lastAccess (others ++ x :: init ++ [last]) = some left := by
    rw [← hleft, hall, List.append_assoc, List.cons_append]
  obtain ⟨u, rest, hsplit⟩ : ∃ u rest, init ++ [last] = u :: rest := by
    cases init with
    | nil => exact ⟨last, [], rfl⟩
    | cons u init => exact ⟨u, init ++ [last], rfl⟩
  have hu : u ∈ init ++ [last] := hsplit ▸ List.mem_cons_self
  obtain ⟨huread, hulayout⟩ := hrun u hu
  have hfreshu := hfresh (u :: rest ++ [])
  rw [← hulayout, hsplit] at hfreshu
  obtain ⟨hneeds, hneeded⟩ := SyncState.needs_of_isFresh hfreshu huread
    (hrest u (List.mem_append_right _ hu)) (rest ++ [])
  have htracks := tracks_after hifits hi s (front ++ u :: rest)
  obtain ⟨more, hsub, hmore, hstart⟩ := htracks.arrive [] (fun v hv => hrest v
    (List.mem_append_left _ hv)) (fun heq => absurd heq hi) (.inr hneeds) resource isFirst
  have htarget : (SyncState.target u (rest ++ [])).stage.contains left.stage = true ∧
      (SyncState.target u (rest ++ [])).access.contains left.access = true := by
    refine contains_lastAccess hread hx (fun w hwmem => ?_) hleft'
    refine target_contains_of_mem (fun v hv => ?_) (hsplit ▸ hwmem) []
    obtain ⟨hvread, hvlayout⟩ := hrun v (hsplit ▸ hv)
    exact ⟨hvread, hvlayout.trans hulayout.symm⟩
  rw [List.nil_append] at hstart
  rw [hsplit]
  refine ⟨_, hsub, fun y hy => ?_, ?_⟩
  · rcases List.mem_append.1 hy with hy | hy
    · exact hmore y hy
    · rw [List.mem_singleton.1 hy]
      exact hneeded
  · rw [List.map_append]
    exact ⟨hstart, _, List.getLast?_concat, htarget⟩

/-! ## From there on -/

namespace Leaves

variable {i left : ImageState} {chain : List Transition}

/-- What waits for the state continues the chain. -/
theorem startsFrom (h : Leaves i chain left) {b : Transition}
    (hstage : b.source.stage.contains left.stage = true)
    (haccess : b.source.access.contains left.srcAccess = true) : StartsFrom i (chain ++ [b]) := by
  cases h with
  | writing hwrite hi hiaccess =>
      refine ⟨⟨b, rfl, Mask.contains_trans hstage hi, ?_⟩, List.isChain_singleton _⟩
      exact Mask.contains_trans haccess (ImageState.srcAccess_contains hiaccess)
  | reading hread hstaged hi =>
      refine ⟨⟨b, rfl, Mask.contains_trans hstage hi, ?_⟩, List.isChain_singleton _⟩
      exact Mask.contains_of_isEmpty (ImageState.srcAccess_of_readOnly hread)
  | linked hchain hmeets =>
      refine ⟨?_, ?_⟩
      · obtain ⟨c, hc, hcontains⟩ := hchain.first
        refine ⟨c, ?_, hcontains⟩
        rw [List.head?_append, hc]
        rfl
      · refine List.isChain_append.2 ⟨hchain.linked, List.isChain_singleton _, ?_⟩
        intro c hc d hd
        rw [List.getLast?_concat] at hc
        cases hc
        cases hd
        exact Mask.intersects_mono hmeets hstage

end Leaves

/-! ## The next walk -/

/-- Whoever arrives in a state is waited for at its stages. -/
theorem SyncState.source_arriving (left : ImageState) :
    (arriving left).source.stage.contains left.stage = true ∧
      (arriving left).source.access.contains left.srcAccess = true := by
  cases hw : left.isWrite with
  | true =>
      have hwrite : (arriving left).write = some (.ofState left) := by simp [arriving, hw]
      refine ⟨Mask.contains_trans (source_contains_waits _) (waits_contains_write hwrite), ?_⟩
      rw [source_access hwrite]
      exact Mask.contains_refl _
  | false => 
      refine ⟨?_, Mask.contains_of_isEmpty (ImageState.srcAccess_of_readOnly hw)⟩
      obtain ⟨b, hb, hstage, -⟩ := (startsFrom_arriving hw left).first
      cases hb
      exact hstage

namespace Leaves

variable {i left : ImageState} {chain : List Transition}

/-- A state that leaves something to wait for still speaks of the access when it arrives. -/
theorem tracks (h : Leaves i chain left) (hleft : left.IsAwaited) :
    Tracks i chain (.arriving left) := by
  cases h with
  | writing hwrite hstage haccess =>
      have hw : left.isWrite = true := by
        rw [← ImageState.srcAccess_intersects_writes] at hwrite
        exact Mask.intersects_of_contains_left hwrite haccess
      refine .writing hwrite (w := .ofState left) ?_ hstage (ImageState.srcAccess_contains haccess)
      simp [SyncState.arriving, hw]
  | reading hread hstaged hstage hw haccess hlayout =>
      refine .reading hread hstaged ?_ hlayout
      simpa [SyncState.arriving, hw, haccess] using hstage
  | linked hchain hmeets hbottom =>
      refine .linked hchain (Mask.intersects_mono hmeets ?_) hbottom
      cases hw : left.isWrite with
      | true =>
          refine SyncState.waits_contains_write (w := .ofState left) ?_
          simp [SyncState.arriving, hw]
      | false =>
          have haccess := (hleft.resolve_left (by rw [hw]; exact Bool.false_ne_true)).1
          refine Mask.contains_trans (SyncState.waits_contains_readers _) ?_
          simp [SyncState.arriving, hw, haccess, Mask.contains_refl]

/-- **The first step of the next walk** either needs no transition, or adds the next one of the
chain. -/
theorem enter (h : Leaves i chain left) (hi : i.layout ≠ .presentSrc)
    (hleft : left.IsAwaited ∨ left.layout = .presentSrc) {u : Use} (hu : u.state.Fits u.isWrite)
    (later : List Use) :
    Tracks i chain ((SyncState.arriving left).after u later) ∨
      ((SyncState.arriving left).transition u later).isNeeded = true ∧
        Tracks i (chain ++ [(SyncState.arriving left).transition u later])
          ((SyncState.arriving left).after u later) := by
  obtain ⟨hstage, haccess⟩ := SyncState.source_arriving left
  by_cases hawaited : left.IsAwaited
  · exact ((h.tracks hawaited).step hu (fun heq => absurd heq hi) later).imp_right (·.2)
  · have hpresent := hleft.resolve_left hawaited
    cases hneeded : ((SyncState.arriving left).transition u later).isNeeded with
    | true => exact .inr ⟨rfl, .linked_after hu (h.startsFrom hstage haccess)⟩
    | false =>
        -- The resource stays in the layout for presentation.
        refine .inl ?_
        have hulayout : u.state.layout = .presentSrc := by
          simp only [Transition.isNeeded, SyncState.transition, SyncState.layout_target,
            Bool.or_eq_false_iff, decide_eq_false_iff_not, ne_eq, Decidable.not_not,
            SyncState.source_layout, SyncState.arriving_layout] at hneeded
          exact hneeded.1.1.symm.trans hpresent
        cases h with
        | writing hwrite _ hcontains =>
            rw [← ImageState.srcAccess_intersects_writes] at hwrite
            exact absurd (.inl (Mask.intersects_of_contains_left hwrite hcontains)) hawaited
        | reading hread hstaged hcontains hw hne =>
            exact absurd (.inr ⟨hne, Mask.isEmpty_of_contains hcontains hstaged⟩) hawaited
        | linked hchain hmeets hbottom =>
            have hends := hbottom hpresent
            refine .linked hchain (Mask.intersects_of_contains hends ?_ rfl) fun _ => hends
            exact Mask.contains_trans (SyncState.waits_after_contains ..) (hu.presenting hulayout)

variable {uses : List Use} {resource : Resource}

/-- A chain goes on to a use of the next walk that needs a transition. -/
theorem arrive (h : Leaves i chain left) (hi : i.layout ≠ .presentSrc)
    (hleft : left.IsAwaited ∨ left.layout = .presentSrc) {u : Use} {rest : List Use}
    (later : List Use) (hfits : ∀ v ∈ uses, v.state.Fits v.isWrite)
    (hneeds : u.isWrite = true ∨
      ((SyncState.arriving left).along (u :: rest ++ later) uses).needs u = true)
    (hresource : resource.isImported = false) :
    ∃ more : List Step,
      (more ++ [Step.mk u uses.isEmpty (((SyncState.arriving left).along (u :: rest ++ later)
        uses).transition u (rest ++ later))]).Sublist
        (stepsAlong resource later (.arriving left) true (uses ++ u :: rest)) ∧
      (∀ x ∈ more, x.transition.isNeeded = true) ∧
      StartsFrom i (chain ++ more.map Step.transition ++
        [((SyncState.arriving left).along (u :: rest ++ later) uses).transition u
          (rest ++ later)]) := by
  cases uses with
  | nil =>
      obtain ⟨hstage, haccess⟩ := SyncState.source_arriving left
      refine ⟨[], ?_, fun x hx => (by cases hx), ?_⟩
      · show (stepsAlong resource (u :: rest ++ later) (.arriving left) true [] ++
          [Step.mk u (true && ([] : List Use).isEmpty) _]).Sublist _
        refine step_mem_stepsAlong resource later _ true ?_
        simp [hresource]
      · rw [List.map_nil, List.append_nil]
        exact h.startsFrom hstage haccess
  | cons v uses =>
      have hv := hfits v List.mem_cons_self
      have huses : ∀ w ∈ uses, w.state.Fits w.isWrite := fun w hw => hfits w (List.mem_cons_of_mem _ hw)
      have hkept : ((SyncState.arriving left).needs v || true && !resource.isImported) = true := by
        simp [hresource]
      have hsteps : stepsAlong resource later (.arriving left) true (v :: uses ++ u :: rest) =
          ⟨v, true, (SyncState.arriving left).transition v (uses ++ (u :: rest ++ later))⟩ ::
            stepsAlong resource later ((SyncState.arriving left).after v (uses ++ (u :: rest ++ later)))
              false (uses ++ u :: rest) := by
        rw [List.cons_append, stepsAlong, if_pos hkept, List.append_assoc]
        rfl
      rw [hsteps]
      rcases h.enter hi hleft hv (uses ++ (u :: rest ++ later)) with htracks | ⟨hneeded, htracks⟩
      · obtain ⟨more, hsub, hmore, hstart⟩ := htracks.arrive later huses
          (fun heq => absurd heq hi) hneeds resource false
        exact ⟨more, hsub.cons _, hmore, hstart⟩
      · obtain ⟨more, hsub, hmore, hstart⟩ := htracks.arrive later huses
          (fun heq => absurd heq hi) hneeds resource false
        refine ⟨⟨v, true, (SyncState.arriving left).transition v (uses ++ (u :: rest ++ later))⟩ ::
          more, hsub.cons_cons _, fun x hx => ?_, ?_⟩
        · rcases List.mem_cons.1 hx with rfl | hx
          · exact hneeded
          · exact hmore x hx
        · rw [List.append_assoc chain [_]] at hstart
          exact hstart

/-- **From the state that was left to a use of the next walk**, if something separates them. -/
theorem exists_covering_steps (h : Leaves i chain left) (hi : i.layout ≠ .presentSrc)
    (hleft : left.IsAwaited ∨ left.layout = .presentSrc) {j : Use}
    (hfits : ∀ u ∈ uses ++ [j], u.state.Fits u.isWrite) (hj : j.state.layout ≠ .presentSrc)
    (hseparated : Separated (.arriving left) uses j) (hresource : resource.isImported = false)
    (later : List Use) :
    ∃ more : List Step,
      more.Sublist (stepsAlong resource later (.arriving left) true (uses ++ [j])) ∧
      (∀ x ∈ more, x.transition.isNeeded = true) ∧
      Covers i j.state (chain ++ more.map Step.transition) := by
  obtain ⟨front, u, rest, hsplit, hneeds, hneeded, hcontains⟩ :=
    hseparated.exists_arrival hfits hj later
  obtain ⟨more, hsub, hmore, hstart⟩ := h.arrive hi hleft later
    (fun v hv => hfits v (hsplit ▸ List.mem_append_left _ hv)) hneeds hresource
  refine ⟨_, hsplit ▸ hsub, fun x hx => ?_, ?_⟩
  · rcases List.mem_append.1 hx with hx | hx
    · exact hmore x hx
    · rw [List.mem_singleton.1 hx]
      exact hneeded
  · rw [List.map_append, ← List.append_assoc]
    exact ⟨hstart, _, List.getLast?_concat, hcontains⟩

end Leaves

/-! ## Along the timeline of a plan -/

section Plan

variable {order : List Nat} {passes : List Pass} {registry : Registry} {h : Handle}
  {resource : Resource} {timeline : Timeline}

/-- The uses of a timeline before and behind one of them. -/
theorem OnTimeline.exists_split (hr : OnTimeline order passes registry h resource timeline) {i : Use}
    (hi : i ∈ timeline) :
    ∃ before later, timeline = before ++ i :: later ∧
      (∀ u ∈ before, u.position < i.position) ∧ ∀ u ∈ later, i.position < u.position := by
  obtain ⟨before, later, hsplit⟩ := List.append_of_mem hi
  exact ⟨before, later, hsplit, hr.positions_of_split hsplit⟩

theorem isFirst_of_mem_stepsAlong {later uses : List Use} {s : SyncState} {x : Step}
    (hx : x ∈ stepsAlong resource later s false uses) : x.isFirst = false := by
  induction uses generalizing s with
  | nil => cases hx
  | cons u uses ih =>
      rcases List.mem_append.1 hx with hx | hx
      · split at hx
        · rw [List.mem_singleton.1 hx]
        · cases hx
      · exact ih hx

/-- The steps behind a use. -/
theorem steps_behind (resource : Resource) (before later : List Use) (i : Use) :
    (stepsAlong resource []
      (((SyncState.arriving (arrivalState resource (before ++ i :: later))).along (i :: later)
        before).after i later) false later).Sublist (resource.steps (before ++ i :: later)) := by
  have hpart := steps_part resource (before ++ [i]) later []
  have hfirst : (before ++ [i]).isEmpty = false := by simp
  rw [hfirst, List.append_nil, List.append_assoc, List.singleton_append, along_append] at hpart
  exact hpart

/-- Needed steps behind a position, none of them the first of the walk. -/
structure StepsAfter (resource : Resource) (timeline : Timeline) (position : Nat)
    (more : List Step) : Prop where
  sub : more.Sublist (resource.steps timeline)
  needed : ∀ x ∈ more, x.transition.isNeeded = true
  later : ∀ x ∈ more, x.isFirst = false ∧ position < x.use.position

namespace OnTimeline

variable (hr : OnTimeline order passes registry h resource timeline)

include hr

/-- The needed steps behind a use are behind its position. -/
theorem stepsAfter {before later : List Use} {i : Use} (hsplit : timeline = before ++ i :: later)
    {more : List Step}
    (hsub : more.Sublist (stepsAlong resource []
      (((SyncState.arriving (arrivalState resource timeline)).along (i :: later) before).after i
        later) false later))
    (hneeded : ∀ x ∈ more, x.transition.isNeeded = true) :
    StepsAfter resource timeline i.position more := by
  refine ⟨hsub.trans ?_, hneeded, fun x hx => ?_⟩
  · rw [hsplit]
    exact steps_behind resource before later i
  · refine ⟨isFirst_of_mem_stepsAlong (hsub.subset hx), (hr.positions_of_split hsplit).2 x.use ?_⟩
    exact (use_stepsAlong ..).subset (List.mem_map_of_mem (hsub.subset hx))

/-- From a use to the end of the timeline of a plan. -/
theorem exists_leaving_steps (hd : Declared registry passes) {i last : Use} (hi : i ∈ timeline)
    (hp : presentsAt passes i.pass h = false) (hlast : timeline.getLast? = some last)
    {left : ImageState} (hleft : StandsFor left last)
    (hreads : (∀ u ∈ timeline, i.position ≤ u.position →
      u.isWrite = false ∧ u.state.layout = i.state.layout) →
        left.stage.contains i.state.stage = true) :
    ∃ more, StepsAfter resource timeline i.position more ∧
      Leaves i.state (more.map Step.transition) left := by
  obtain ⟨before, later, hsplit, hbefore, hlater⟩ := hr.exists_split hi
  have hend : (i :: later).getLast? = some last := by
    rw [← hlast, hsplit, List.getLast?_append, List.getLast?_cons, Option.some_or]
  have hmem : ∀ u ∈ i :: later, u ∈ timeline := fun u hu =>
    hsplit ▸ List.mem_append_right _ hu
  have hfrom : ∀ u ∈ timeline, i.position ≤ u.position → u ∈ i :: later := by
    intro u hu hle
    rw [hsplit] at hu
    refine (List.mem_append.1 hu).resolve_left fun hearlier => ?_
    have hlt := hbefore u hearlier
    omega
  obtain ⟨more, hsub, hneeded, hleaves⟩ := exists_leaving (fun u hu => hr.fits hd (hmem u hu))
    (hr.layout_ne_present hi hp) hend hleft
    (fun hall => hreads fun u hu hle => hall u (hfrom u hu hle))
    ((SyncState.arriving (arrivalState resource timeline)).along (i :: later) before) resource false
  exact ⟨more, hr.stepsAfter hsplit hsub hneeded, hleaves⟩

end OnTimeline

end Plan

end FrameGraph
