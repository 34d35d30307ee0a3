import FrameGraph.Proofs.Barrier.Leaving

/-!
# Chains from one tenant of a memory to another

A resource that takes memory over waits for the state in which the one before left it, and its first use
is what the memory goes on with.  So a chain that ends in this state goes on through the timeline of the
new tenant, to its end or to one of its uses, as long as its first barrier is there.

Principal statements: `Leaves.exists_passing` and `Leaves.exists_arriving`.
-/

set_option autoImplicit false

namespace FrameGraph

/-- The step before the first use of a resource in memory that was left in a state. -/
def Transition.takingOver (left : ImageState) (u : Use) (later : List Use) : Transition :=
  ⟨⟨left.stage, left.access, .undefined⟩, SyncState.target u later⟩

namespace Leaves

variable {i left : ImageState} {chain : List Transition} {u : Use} {later : List Use}

/-- Taking the memory over goes on with the chain. -/
theorem startsFrom_takingOver (h : Leaves i chain left) (u : Use) (later : List Use) :
    StartsFrom i (chain ++ [.takingOver left u later]) :=
  h.startsFrom (Mask.contains_refl _) left.access_contains

/-- Behind the first use the chain has come as far as this use. -/
theorem tracks_takingOver (h : Leaves i chain left) (hu : u.state.Fits u.isWrite) (s : SyncState)
    (later : List Use) :
    Tracks i (chain ++ [.takingOver left u later]) (s.after u later) := by
  have hcontains := SyncState.target_contains u later
  refine .linked (h.startsFrom_takingOver u later) ?_ fun hlayout => ?_
  · exact Mask.intersects_of_contains hcontains (s.waits_after_contains u later) hu.staged
  · rw [SyncState.after_layout] at hlayout
    exact Mask.contains_trans hcontains (hu.presenting hlayout)

/-- The first barrier serves a use if it is the first one, or if all uses up to it are reads in one
layout. -/
theorem target_contains_of_reads {front rest : List Use} {j : Use}
    (hsplit : u :: later = front ++ j :: rest)
    (hreads : front = [] ∨
      ∀ v ∈ front ++ [j], v.isWrite = false ∧ v.state.layout = u.state.layout) :
    (SyncState.target u later).stage.contains j.state.stage = true ∧
      (SyncState.target u later).access.contains j.state.access = true := by
  cases front with
  | nil =>
      obtain ⟨rfl, rfl⟩ := List.cons.inj hsplit
      unfold SyncState.target
      split
      · exact ⟨Mask.contains_refl _, Mask.contains_refl _⟩
      · exact mergedState_contains u.state later
  | cons v front =>
      rw [List.cons_append] at hsplit
      obtain ⟨rfl, rfl⟩ := List.cons.inj hsplit
      have hall : ∀ w ∈ u :: (front ++ [j]), w.isWrite = false ∧ w.state.layout = u.state.layout :=
        hreads.resolve_left (List.cons_ne_nil _ _)
      have hmem : j ∈ u :: (front ++ [j]) :=
        List.mem_cons_of_mem _ (List.mem_append_right _ List.mem_cons_self)
      have hcontains := target_contains_of_mem hall hmem rest
      rw [List.append_assoc, List.singleton_append] at hcontains
      exact hcontains

/-- **From one tenant to the end of the next.** -/
theorem exists_passing (h : Leaves i chain left) (hi : i.layout ≠ .presentSrc)
    (hfits : ∀ v ∈ u :: later, v.state.Fits v.isWrite) {last : Use}
    (hlast : (u :: later).getLast? = some last) {left' : ImageState} (hleft : StandsFor left' last)
    (s : SyncState) (resource : Resource) :
    ∃ more : List Step, more.Sublist (stepsAlong resource [] (s.after u later) false later) ∧
      (∀ x ∈ more, x.transition.isNeeded = true) ∧
      Leaves i (chain ++ .takingOver left u later :: more.map Step.transition) left' := by
  have htracks := h.tracks_takingOver (hfits u List.mem_cons_self) s later
  have hlfits := hfits last (List.mem_of_getLast? hlast)
  obtain ⟨front, hsplit⟩ := List.getLast?_eq_some_iff.1 hlast
  have hends : (later = [] ∨
      ∀ v ∈ u :: later, v.isWrite = false ∧ v.state.layout = u.state.layout) →
        Leaves i (chain ++ [.takingOver left u later]) left' := by
    -- The first barrier serves the last use as well.
    intro hsame
    have hreads : front = [] ∨
        ∀ v ∈ front ++ [last], v.isWrite = false ∧ v.state.layout = u.state.layout := by
      rcases hsame with rfl | hall
      · cases front with
        | nil => exact .inl rfl
        | cons v front => simp at hsplit
      · rw [hsplit] at hall
        exact .inr hall
    obtain ⟨hstage, -⟩ := target_contains_of_reads hsplit hreads
    refine .linked (h.startsFrom_takingOver u later) ?_ fun hlayout => ?_
    · exact Mask.intersects_of_contains hstage hleft.stage hlfits.staged
    · exact Mask.contains_trans hstage (hlfits.presenting (hleft.layout.symm.trans hlayout))
  obtain ⟨more, hsub, hmore, hleaves⟩ :=
    htracks.exists_leaving hi hfits hlast hleft hends resource false
  rw [List.append_assoc, List.singleton_append] at hleaves
  exact ⟨more, hsub, hmore, hleaves⟩

/-- **From one tenant to a use of the next.** -/
theorem exists_arriving (h : Leaves i chain left) (hi : i.layout ≠ .presentSrc)
    {front rest : List Use} {j : Use} (hsplit : u :: later = front ++ j :: rest)
    (hfits : ∀ v ∈ front ++ [j], v.state.Fits v.isWrite) (hj : j.state.layout ≠ .presentSrc)
    (s : SyncState) (resource : Resource) :
    ∃ more : List Step, more.Sublist (stepsAlong resource [] (s.after u later) false later) ∧
      (∀ x ∈ more, x.transition.isNeeded = true ∧ x.use ∈ front ++ [j]) ∧
      Covers i j.state (chain ++ .takingOver left u later :: more.map Step.transition) := by
  have hstart := h.startsFrom_takingOver u later
  have hnone : ∀ x ∈ ([] : List Step), x.transition.isNeeded = true ∧ x.use ∈ front ++ [j] :=
    fun x hx => by cases hx
  cases front with
  | nil =>
      refine ⟨[], List.nil_sublist _, hnone, hstart, _, List.getLast?_concat, ?_⟩
      exact target_contains_of_reads hsplit (.inl rfl)
  | cons v between =>
      rw [List.cons_append] at hsplit
      obtain ⟨rfl, rfl⟩ := List.cons.inj hsplit
      have hu := hfits u List.mem_cons_self
      have hsteps := stepsAlong_append resource [] (between ++ [j]) rest
        (s.after u (between ++ j :: rest)) false
      rw [List.append_assoc, List.singleton_append, List.append_nil] at hsteps
      by_cases hseparated : Separated (s.after u (between ++ j :: rest)) between j
      · obtain ⟨more, hsub, hmore, hcovers⟩ := FrameGraph.exists_covering_steps
          (h.tracks_takingOver hu s _) (fun v hv => hfits v (List.mem_cons_of_mem _ hv))
          (fun heq => absurd heq hi) hj hseparated resource false rest
        rw [List.append_assoc, List.singleton_append] at hcovers
        refine ⟨more, ?_, fun x hx => ⟨hmore x hx, ?_⟩, hcovers⟩
        · rw [hsteps]
          exact hsub.trans (List.sublist_append_left _ _)
        · apply List.mem_cons_of_mem
          exact (use_stepsAlong ..).subset (List.mem_map_of_mem (hsub.subset hx))
      · have hall := reads_of_not_separated hu hj hseparated
        have hfront : u :: (between ++ j :: rest) = (u :: between) ++ j :: rest := rfl
        refine ⟨[], List.nil_sublist _, hnone, hstart, _, List.getLast?_concat, ?_⟩
        exact target_contains_of_reads hfront (.inr hall)

end Leaves

/-! ## Along the timeline of a plan -/

namespace OnTimeline

variable {order : List Nat} {passes : List Pass} {registry : Registry} {h : Handle}
  {resource : Resource} {timeline : Timeline} {i left : ImageState} {chain : List Transition}
  {u : Use} {later : List Use}

/-- The state that is left stands for the last use. -/
theorem exists_standsFor (hr : OnTimeline order passes registry h resource timeline)
    (hd : Declared registry passes) (hleft : timeline.lastAccess = some left) :
    ∃ last, timeline.getLast? = some last ∧ StandsFor left last := by
  have hlast := List.getLast?_eq_some_getLast hr.used
  refine ⟨_, hlast, standsFor_lastAccess hlast (fun v hv => hr.fits hd hv) (fun v hv hread => ?_)
    hleft⟩
  rw [← hr.timeline_eq] at hv
  exact access_ne_none_of_mem_timelineOf hd hv hread

/-- From a use to the state in which the timeline leaves the memory. -/
theorem exists_steps_to_lastAccess (hr : OnTimeline order passes registry h resource timeline)
    (hd : Declared registry passes) (hleft : timeline.lastAccess = some left) {i : Use}
    (hi : i ∈ timeline) (hp : presentsAt passes i.pass h = false) :
    ∃ more, StepsAfter resource timeline i.position more ∧
      Leaves i.state (more.map Step.transition) left := by
  obtain ⟨last, hlast, hstands⟩ := hr.exists_standsFor hd hleft
  refine hr.exists_leaving_steps hd hi hp hlast hstands fun hall => ?_
  obtain ⟨before, later, rfl, -, hlater⟩ := hr.exists_split hi
  have hend : (i :: later).getLast? = some last := by
    rw [← hlast, List.getLast?_append, List.getLast?_cons, Option.some_or]
  refine lastAccess_contains hend hleft fun v hv => hall v (List.mem_append_right _ hv) ?_
  rcases List.mem_cons.1 hv with rfl | hv
  · exact Nat.le_refl _
  · exact Nat.le_of_lt (hlater v hv)

variable (hr : OnTimeline order passes registry h resource (u :: later))
  (hd : Declared registry passes) (hleaves : Leaves i chain left) (hi : i.layout ≠ .presentSrc)

include hr hd hleaves hi

/-- From the tenant before to the state in which the timeline leaves the memory. -/
theorem exists_passing_steps {left' : ImageState}
    (hleft : Timeline.lastAccess (u :: later) = some left') :
    ∃ more, StepsAfter resource (u :: later) u.position more ∧
      Leaves i (chain ++ .takingOver left u later :: more.map Step.transition) left' := by
  obtain ⟨last, hlast, hstands⟩ := hr.exists_standsFor hd hleft
  obtain ⟨more, hsub, hneeded, hpassing⟩ := hleaves.exists_passing hi
    (fun v hv => hr.fits hd hv) hlast hstands
    (.arriving (arrivalState resource (u :: later))) resource
  exact ⟨more, hr.stepsAfter (List.nil_append _).symm hsub hneeded, hpassing⟩

/-- From the tenant before to a use. -/
theorem exists_arriving_steps {j : Use} (hj : j ∈ u :: later)
    (hp : presentsAt passes j.pass h = false) :
    ∃ more, StepsAfter resource (u :: later) u.position more ∧
      (∀ x ∈ more, x.use.position ≤ j.position) ∧
      Covers i j.state (chain ++ .takingOver left u later :: more.map Step.transition) := by
  obtain ⟨front, rest, hsplit, hfront, -⟩ := hr.exists_split hj
  have hfits : ∀ v ∈ front ++ [j], v.state.Fits v.isWrite := by
    intro v hv
    apply hr.fits hd
    rw [hsplit, ← List.singleton_append, ← List.append_assoc]
    exact List.mem_append_left _ hv
  obtain ⟨more, hsub, hmore, hcovers⟩ := hleaves.exists_arriving hi hsplit hfits
    (hr.layout_ne_present hj hp) (.arriving (arrivalState resource (u :: later))) resource
  refine ⟨more, hr.stepsAfter (List.nil_append _).symm hsub fun x hx => (hmore x hx).1,
    fun x hx => ?_, hcovers⟩
  rcases List.mem_append.1 (hmore x hx).2 with hu | hu
  · exact Nat.le_of_lt (hfront _ hu)
  · rw [List.mem_singleton.1 hu]

end OnTimeline

end FrameGraph
