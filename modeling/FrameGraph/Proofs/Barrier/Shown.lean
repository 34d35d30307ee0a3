import FrameGraph.Proofs.Barrier.Sync
import Mathlib.Data.List.DropRight

/-!
# To whom a write was made visible

A barrier before a read makes the last write visible to the whole run of reads that the read begins.
So the stages and accesses that are remembered with a write are those of the reads since then, of the
ones that are still to come in the last run as of those that are over.

Principal statements: `target_eq` — what the barrier before a use leads to — and `shows_along`, and from it
`needs_along` — a use needs a barrier exactly if it writes, the use before it writes, or the layout
changes.
-/

set_option autoImplicit false

namespace FrameGraph

/-! ## Unions of states -/

theorem ImageState.ext_has {s t : ImageState} (hstage : ∀ i, s.stage.has i = t.stage.has i)
    (haccess : ∀ i, s.access.has i = t.access.has i) (hlayout : s.layout = t.layout) : s = t := by
  obtain ⟨stage, access, layout⟩ := s
  obtain rfl : stage = t.stage := Mask.ext_has hstage
  obtain rfl : access = t.access := Mask.ext_has haccess
  obtain rfl : layout = t.layout := hlayout
  rfl

/-- A state at all stages and with all accesses of another. -/
def ImageState.Contains (s t : ImageState) : Prop :=
  s.stage.contains t.stage = true ∧ s.access.contains t.access = true

instance (s t : ImageState) : Decidable (s.Contains t) := inferInstanceAs (Decidable (_ ∧ _))

/-- The stages and the accesses of some uses together, in a layout. -/
def stateOfUses (layout : Layout) (uses : List Use) : ImageState where
  stage := uses.foldl (fun mask u => mask ||| u.state.stage) Stage.none
  access := uses.foldl (fun mask u => mask ||| u.state.access) Access.none
  layout

theorem Mask.has_foldl_or {family : FlagFamily} {α : Type} (f : α → Mask family) (l : List α)
    (mask : Mask family) (i : Nat) :
    (l.foldl (fun mask a => mask ||| f a) mask).has i = (mask.has i || l.any fun a => (f a).has i) := by
  induction l generalizing mask with
  | nil => rw [List.foldl_nil, List.any_nil, Bool.or_false]
  | cons a rest ih => rw [List.foldl_cons, ih, Mask.has_or, List.any_cons, Bool.or_assoc]

section Unions

variable {layout : Layout} {uses more : List Use}

@[simp] theorem has_stage_stateOfUses (i : Nat) :
    (stateOfUses layout uses).stage.has i = uses.any fun u => u.state.stage.has i := by
  rw [stateOfUses, Mask.has_foldl_or]
  simp [Stage.none]

@[simp] theorem has_access_stateOfUses (i : Nat) :
    (stateOfUses layout uses).access.has i = uses.any fun u => u.state.access.has i := by
  rw [stateOfUses, Mask.has_foldl_or]
  simp [Access.none]

theorem stateOfUses_append (layout : Layout) (uses more : List Use) :
    stateOfUses layout (uses ++ more) =
      (stateOfUses layout uses).union (stateOfUses layout more) :=
  ImageState.ext_has (fun i => by simp [ImageState.union]) (fun i => by simp [ImageState.union]) rfl

theorem stateOfUses_contains {u : Use} (hu : u ∈ uses) :
    (stateOfUses layout uses).Contains u.state := by
  refine ⟨Mask.contains_iff.2 fun i hi => ?_, Mask.contains_iff.2 fun i hi => ?_⟩
  · rw [has_stage_stateOfUses]
    exact List.any_eq_true.2 ⟨u, hu, hi⟩
  · rw [has_access_stateOfUses]
    exact List.any_eq_true.2 ⟨u, hu, hi⟩

/-- No uses contain nothing. -/
theorem not_contains_nil {state : ImageState}
    (hstate : state.stage.isEmpty = false ∨ state.access ≠ Access.none) :
    ¬(stateOfUses layout []).Contains state := by
  rintro ⟨hstage, haccess⟩
  rcases hstate with hstaged | hne
  · have hempty := Mask.isEmpty_of_contains hstage hstaged
    cases hempty
  · refine hne (Mask.ext_has fun i => Bool.eq_iff_iff.2 ⟨fun hi => ?_, fun hi => ?_⟩)
    · exact Mask.contains_iff.1 haccess i hi
    · simp [Access.none] at hi

end Unions

/-- The run of reads in one layout that a use begins. -/
def readRun (u : Use) (later : List Use) : List Use :=
  u :: later.takeWhile fun v => !v.isWrite && v.state.layout = u.state.layout

/-- The state that a read stands for is that of the run which it begins. -/
theorem mergedState_eq (u : Use) (later : List Use) :
    mergedState u.state later = stateOfUses u.state.layout (readRun u later) := by
  generalize hrun : (later.takeWhile fun v => !v.isWrite && v.state.layout = u.state.layout) = run
  have hmerged : mergedState u.state later =
      run.foldl (fun state v => state.union v.state) u.state := by rw [mergedState, hrun]
  have hstage : (run.foldl (fun state v => state.union v.state) u.state).stage =
      run.foldl (fun mask v => mask ||| v.state.stage) u.state.stage :=
    (List.foldl_hom ImageState.stage fun _ _ => rfl).symm
  have haccess : (run.foldl (fun state v => state.union v.state) u.state).access =
      run.foldl (fun mask v => mask ||| v.state.access) u.state.access :=
    (List.foldl_hom ImageState.access fun _ _ => rfl).symm
  refine ImageState.ext_has (fun i => ?_) (fun i => ?_) (layout_mergedState u.state later)
  · rw [hmerged, hstage, Mask.has_foldl_or, has_stage_stateOfUses, readRun, hrun, List.any_cons]
  · rw [hmerged, haccess, Mask.has_foldl_or, has_access_stateOfUses, readRun, hrun, List.any_cons]

/-- What a barrier before a use has to lead to: the state of a write, or all of the run of reads. -/
def requiredState (u : Use) (later : List Use) : ImageState :=
  if u.isWrite then u.state else stateOfUses u.state.layout (readRun u later)

namespace SyncState

variable {s : SyncState} {u : Use} {later : List Use}

theorem target_eq (u : Use) (later : List Use) : target u later = requiredState u later := by
  rw [target, requiredState, mergedState_eq]

/-- The last write was made visible to exactly the stages and the accesses of some reads. -/
def Shows (s : SyncState) (reads : List Use) : Prop :=
  ∀ w, s.write = some w → ∀ layout,
    w.shownAt = (stateOfUses layout reads).stage ∧ w.shownTo = (stateOfUses layout reads).access

/-- A state has nothing to wait for if the reads to which the write was made visible contain it. -/
theorem Shows.isSettledFor_iff {reads : List Use} (h : s.Shows reads) (state : ImageState)
    (layout : Layout) : s.isSettledFor state = true ↔
      s.write = none ∨ (stateOfUses layout reads).Contains state := by
  unfold SyncState.isSettledFor
  cases hw : s.write with
  | none => exact iff_of_true rfl (.inl rfl)
  | some w =>
      obtain ⟨hstage, haccess⟩ := h w hw layout
      rw [Option.all_some, PendingWrite.isShownTo, hstage, haccess, Bool.and_eq_true]
      exact ⟨.inr, fun hcases => hcases.resolve_left (by simp)⟩

theorem Shows.isSettledFor {reads : List Use} (h : s.Shows reads) (hu : u ∈ reads) :
    s.isSettledFor u.state = true :=
  (h.isSettledFor_iff u.state .undefined).2 (.inr (stateOfUses_contains hu))

/-- A write that was made visible to nobody has to be waited for. -/
theorem Shows.isSettledFor_nil (h : s.Shows []) {state : ImageState}
    (hstate : state.stage.isEmpty = false ∨ state.access ≠ Access.none) :
    s.isSettledFor state = s.write.isNone := by
  rw [Bool.eq_iff_iff, h.isSettledFor_iff state .undefined, Option.isNone_iff_eq_none]
  exact or_iff_left (not_contains_nil hstate)

theorem shows_after_write (h : u.isWrite = true) : (s.after u later).Shows [] := by
  intro w hw layout
  rw [write_after_write h] at hw
  obtain rfl := Option.some.inj hw
  exact ⟨rfl, rfl⟩

/-- A read that needs a barrier has the write made visible to its run. -/
theorem Shows.after_needed {reads : List Use} (h : s.Shows reads) (hu : u.isWrite = false)
    (hneeds : s.needs u = true) : (s.after u later).Shows (reads ++ readRun u later) := by
  intro w hw layout
  have hwrite : (s.after u later).write = s.write.map (·.reveal (target u later)) := by
    simp [after, hu, hneeds]
  obtain ⟨w', hw', rfl⟩ := Option.map_eq_some_iff.1 (hwrite.symm.trans hw)
  obtain ⟨hstage, haccess⟩ := h w' hw' layout
  have htarget : target u later = stateOfUses u.state.layout (readRun u later) := by
    rw [target_eq, requiredState, hu]
    rfl
  rw [stateOfUses_append]
  refine ⟨?_, ?_⟩
  · show w'.shownAt ||| _ = _
    rw [hstage, htarget]
    rfl
  · show w'.shownTo ||| _ = _
    rw [haccess, htarget]
    rfl

/-- The first read after a write needs a barrier. -/
theorem Shows.after_first (h : s.Shows []) (hu : u.isWrite = false)
    (hstaged : u.state.stage.isEmpty = false) : (s.after u later).Shows (readRun u later) := by
  cases hneeds : s.needs u with
  | true => exact h.after_needed hu hneeds
  | false =>
      have hsettled : s.isSettledFor u.state = true := by
        rw [Bool.eq_false_iff, ne_eq, needs_read hu, not_or, Bool.not_eq_false] at hneeds
        exact hneeds.2
      rw [h.isSettledFor_nil (.inl hstaged), Option.isNone_iff_eq_none] at hsettled
      intro w hw
      have hwrite : (s.after u later).write = s.write := by simp [after, hu, hneeds]
      rw [hwrite, hsettled] at hw
      cases hw

theorem Shows.after_unneeded {reads : List Use} (h : s.Shows reads) (hu : u.isWrite = false)
    (hneeds : s.needs u = false) : (s.after u later).Shows reads := by
  intro w hw
  have hwrite : (s.after u later).write = s.write := by simp [after, hu, hneeds]
  exact h w (hwrite.symm.trans hw)

end SyncState

/-! ## Along a timeline -/

/-- The reads since the last write. -/
def readsSinceWrite (past : List Use) : List Use := past.rtakeWhile fun u => !u.isWrite

/-- The reads since the last write, and those that are still to come in the last run of reads. -/
def shownReads (past later : List Use) : List Use :=
  match past.getLast? with
  | none => []
  | some last =>
      if last.isWrite then []
      else readsSinceWrite past ++
        later.takeWhile fun v => !v.isWrite && v.state.layout = last.state.layout

theorem shownReads_write {u : Use} (hu : u.isWrite = true) (past later : List Use) :
    shownReads (past ++ [u]) later = [] := by
  simp [shownReads, hu]

theorem shownReads_read {u : Use} (hu : u.isWrite = false) (past later : List Use) :
    shownReads (past ++ [u]) later = readsSinceWrite past ++ readRun u later := by
  simp [shownReads, hu, readsSinceWrite, readRun, List.rtakeWhile_concat_pos]

theorem readsSinceWrite_write {u : Use} (hu : u.isWrite = true) (past : List Use) :
    readsSinceWrite (past ++ [u]) = [] :=
  List.rtakeWhile_concat_neg _ _ _ (by simp [hu])

theorem readsSinceWrite_read {u : Use} (hu : u.isWrite = false) (past : List Use) :
    readsSinceWrite (past ++ [u]) = readsSinceWrite past ++ [u] :=
  List.rtakeWhile_concat_pos _ _ _ (by simp [hu])

/-- A read that goes on with a run. -/
theorem readRun_cons {u v : Use} (hv : v.isWrite = false) (hlayout : v.state.layout = u.state.layout)
    (later : List Use) : readRun u (v :: later) = u :: readRun v later := by
  rw [readRun, List.takeWhile_cons_of_pos (by simp [hv, hlayout]), readRun, hlayout]

theorem readRun_eq_self {u : Use} {later : List Use}
    (hlater : ∀ v ∈ later, v.isWrite = false ∧ v.state.layout = u.state.layout) :
    readRun u later = u :: later := by
  rw [readRun, List.takeWhile_eq_self_iff.2 fun v hv => by simp [hlater v hv]]

theorem readRun_of_ne {u v : Use} (h : v.isWrite = true ∨ v.state.layout ≠ u.state.layout)
    (later : List Use) : readRun u (v :: later) = [u] := by
  rw [readRun, List.takeWhile_cons_of_neg]
  rcases h with hw | hne
  · simp [hw]
  · simp [hne]

theorem shows_arriving (initial : ImageState) : (SyncState.arriving initial).Shows [] := by
  intro w hw layout
  unfold SyncState.arriving at hw
  dsimp only at hw
  split at hw
  · obtain rfl := Option.some.inj hw
    exact ⟨rfl, rfl⟩
  · cases hw

/-- **What was made visible along a timeline**: the last write, to the reads since then and to the rest
of the last run. -/
theorem shows_along (initial : ImageState) (past later : List Use)
    (hfits : ∀ u ∈ past, u.state.Fits u.isWrite) :
    ((SyncState.arriving initial).along later past).Shows (shownReads past later) := by
  induction past using List.reverseRecOn generalizing later with
  | nil => exact shows_arriving initial
  | append_singleton past u ih =>
      have hshows := ih (u :: later) fun v hv => hfits v (List.mem_append_left _ hv)
      have hu := hfits u (List.mem_append_right _ List.mem_cons_self)
      rw [along_concat]
      generalize hs : (SyncState.arriving initial).along (u :: later) past = s at hshows ⊢
      cases hw : u.isWrite with
      | true =>
          rw [shownReads_write hw]
          exact SyncState.shows_after_write hw
      | false =>
          rw [shownReads_read hw]
          cases past using List.reverseRecOn with
          | nil => exact hshows.after_first hw hu.staged
          | append_singleton past v =>
              have hlayout : s.layout = v.state.layout := by
                rw [← hs, along_concat, SyncState.after_layout]
              cases hv : v.isWrite with
              | true =>
                  rw [shownReads_write hv] at hshows
                  rw [readsSinceWrite_write hv]
                  exact hshows.after_first hw hu.staged
              | false =>
                  rw [shownReads_read hv] at hshows
                  rw [readsSinceWrite_read hv]
                  by_cases hsame : u.state.layout = v.state.layout
                  · -- The read goes on with the run.
                    rw [readRun_cons hw hsame, List.append_cons] at hshows
                    have hsettled : s.isSettledFor u.state = true :=
                      hshows.isSettledFor (List.mem_append_right _ List.mem_cons_self)
                    refine hshows.after_unneeded hw (Bool.eq_false_iff.2 fun hneeds => ?_)
                    rw [SyncState.needs_read hw, hlayout, hsettled] at hneeds
                    exact hneeds.elim (fun hne => hne hsame) Bool.noConfusion
                  · rw [readRun_of_ne (.inr hsame)] at hshows
                    refine hshows.after_needed hw ((SyncState.needs_read hw s).2 (.inl ?_))
                    rwa [hlayout]

/-! ## Where barriers are needed -/

/-- What is known behind a use, when another follows. -/
theorem needs_along (initial : ImageState) {past later : List Use} {u v : Use}
    (hfits : ∀ w ∈ past ++ u :: v :: later, w.state.Fits w.isWrite) :
    ((SyncState.arriving initial).along (v :: later) (past ++ [u])).needs v = true ↔
      v.isWrite = true ∨ u.isWrite = true ∨ v.state.layout ≠ u.state.layout := by
  have hu := hfits u (by simp)
  have hv := hfits v (by simp)
  have hshows := shows_along initial (past ++ [u]) (v :: later) fun w hw => hfits w (by
    rcases List.mem_append.1 hw with hw | hw
    · exact List.mem_append_left _ hw
    · rw [List.mem_singleton.1 hw]
      exact List.mem_append_right _ List.mem_cons_self)
  rw [along_concat] at hshows ⊢
  generalize (SyncState.arriving initial).along (u :: v :: later) past = s at hshows ⊢
  cases hvw : v.isWrite with
  | true =>
      rw [SyncState.needs_write hvw]
      refine iff_of_true (.inr (SyncState.isBusy_of_waits ?_)) (.inl rfl)
      exact Mask.isEmpty_of_contains (s.waits_after_contains u (v :: later)) hu.staged
  | false =>
      rw [SyncState.needs_read hvw, SyncState.after_layout]
      cases huw : u.isWrite with
      | true =>
          rw [shownReads_write huw] at hshows
          rw [hshows.isSettledFor_nil (.inl hv.staged), SyncState.write_after_write huw]
          exact iff_of_true (.inr rfl) (.inr (.inl rfl))
      | false =>
          rw [shownReads_read huw] at hshows
          by_cases hsame : v.state.layout = u.state.layout
          · rw [readRun_cons hvw hsame] at hshows
            have hsettled := hshows.isSettledFor (u := v) (by simp [readRun])
            simp [hsame, hsettled]
          · exact iff_of_true (.inl hsame) (.inr (.inr hsame))

end FrameGraph
