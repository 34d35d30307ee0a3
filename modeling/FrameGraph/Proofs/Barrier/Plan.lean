import FrameGraph.Proofs.Barrier.Placed
import FrameGraph.Proofs.Timeline

/-!
# The planned barriers, resource by resource

The barriers around a pass lie in lists, one for each kind, with the barriers on all resources side
by side.  Here they are told apart again: the barriers on one resource are the steps of the walk along
its timeline, each before its own pass, and the barrier that hands it back, after the last one.  So no
two of them meet, and merging only drops those without effect.

Principal statements: `on_before_compiled` and `on_after_compiled`.
-/

set_option autoImplicit false

namespace FrameGraph

/-! ## The steps of a walk -/

/-- What is known after some uses, when others follow them. -/
def SyncState.along (s : SyncState) (later : List Use) : List Use → SyncState
  | [] => s
  | u :: uses => (s.after u (uses ++ later)).along later uses

/-- The steps before some uses, when others follow them. -/
def stepsAlong (resource : Resource) (later : List Use) (s : SyncState) (isFirst : Bool) :
    List Use → List Step
  | [] => []
  | u :: uses =>
      (if s.needs u || isFirst && !resource.isImported then
        [⟨u, isFirst, s.transition u (uses ++ later)⟩] else []) ++
        stepsAlong resource later (s.after u (uses ++ later)) false uses

theorem walk_eq (resource : Resource) (s : SyncState) (isFirst : Bool) (timeline : Timeline) :
    walk resource s isFirst timeline =
      (stepsAlong resource [] s isFirst timeline, s.along [] timeline) := by
  induction timeline generalizing s isFirst with
  | nil => rfl
  | cons u later ih =>
      simp only [walk, ih, stepsAlong, SyncState.along, List.append_nil]
      split <;> rfl

theorem along_append (s : SyncState) (later uses more : List Use) :
    s.along later (uses ++ more) = (s.along (more ++ later) uses).along later more := by
  induction uses generalizing s with
  | nil => rfl
  | cons u uses ih => simp only [List.cons_append, SyncState.along, ih, List.append_assoc]

theorem along_concat (s : SyncState) (later past : List Use) (u : Use) :
    s.along later (past ++ [u]) = (s.along (u :: later) past).after u later :=
  along_append s later past [u]

theorem stepsAlong_append (resource : Resource) (later uses more : List Use) (s : SyncState)
    (isFirst : Bool) :
    stepsAlong resource later s isFirst (uses ++ more) =
      stepsAlong resource (more ++ later) s isFirst uses ++
        stepsAlong resource later (s.along (more ++ later) uses) (isFirst && uses.isEmpty) more := by
  induction uses generalizing s isFirst with
  | nil => simp [stepsAlong, SyncState.along]
  | cons u uses ih =>
      simp only [List.cons_append, stepsAlong, SyncState.along, ih, List.append_assoc,
        List.isEmpty_cons, Bool.false_and, Bool.and_false]

/-- There is at most one step for each use. -/
theorem use_stepsAlong (resource : Resource) (later uses : List Use) (s : SyncState)
    (isFirst : Bool) : ((stepsAlong resource later s isFirst uses).map Step.use).Sublist uses := by
  induction uses generalizing s isFirst with
  | nil => exact .slnil
  | cons u uses ih =>
      unfold stepsAlong
      split
      · exact (ih _ false).cons_cons u
      · exact (ih _ false).cons u

namespace Resource

/-- The steps along the timeline of a resource. -/
def steps (resource : Resource) (timeline : Timeline) : List Step :=
  stepsAlong resource [] (.arriving (arrivalState resource timeline)) true timeline

theorem use_mem_of_mem_steps {resource : Resource} {timeline : Timeline} {s : Step}
    (hs : s ∈ resource.steps timeline) : s.use ∈ timeline :=
  (use_stepsAlong ..).subset (List.mem_map_of_mem hs)

/-- What is known about a resource behind the end of its timeline. -/
def syncAfter (resource : Resource) (timeline : Timeline) : SyncState :=
  (SyncState.arriving (arrivalState resource timeline)).along [] timeline

end Resource

/-- When a resource is handed back with a barrier. -/
theorem SyncState.handBack?_eq_some_iff {s : SyncState} {final : ImageState} {t : Transition} :
    s.handBack? final = some t ↔
      t = ⟨s.source, final⟩ ∧
        (final.layout ≠ s.layout ∨ final.isWrite = true ∧ s.isBusy = true ∨
          final.isWrite = false ∧ final.access ≠ Access.none ∧ s.isSettledFor final = false) := by
  unfold handBack?
  dsimp only
  rw [Option.ite_none_right_eq_some, Option.some.injEq, eq_comm (b := t), and_comm]
  refine and_congr_right fun _ => ?_
  rw [Bool.or_eq_true, decide_eq_true_eq]
  refine or_congr_right ?_
  cases final.isWrite <;> simp

/-- A resource that needs no barrier to be handed back is in the right layout. -/
theorem SyncState.handBack?_cases (s : SyncState) (final : ImageState) :
    s.handBack? final = some ⟨s.source, final⟩ ∨
      (s.handBack? final = none ∧ final.layout = s.layout) := by
  cases ht : s.handBack? final with
  | some t => exact .inl (congrArg some (handBack?_eq_some_iff.1 ht).1)
  | none =>
      refine .inr ⟨rfl, Decidable.byContradiction fun hne => ?_⟩
      rw [handBack?_eq_some_iff.2 ⟨rfl, .inl hne⟩] at ht
      cases ht

theorem handBack?_of_handover {resource : Resource} {handover : Handover}
    (hhandover : resource.handover? = some handover) (sync : SyncState) :
    handBack? resource sync = sync.handBack? handover.final := by
  rw [handBack?, hhandover]
  rfl

/-- What hands a resource back leads into the state in which it is handed back. -/
theorem handBack?_eq_some {resource : Resource} {sync : SyncState} {t : Transition}
    (h : handBack? resource sync = some t) :
    ∃ handover, resource.handover? = some handover ∧ t = ⟨sync.source, handover.final⟩ := by
  obtain ⟨handover, hhandover, hback⟩ := Option.bind_eq_some_iff.1 h
  exact ⟨handover, hhandover, (SyncState.handBack?_eq_some_iff.1 hback).1⟩

/-- Behind its timeline a resource is in the layout of the last use. -/
theorem layout_syncAfter (resource : Resource) {timeline : Timeline} {last : Use}
    (hlast : timeline.getLast? = some last) :
    (resource.syncAfter timeline).layout = last.state.layout := by
  obtain ⟨front, rfl⟩ := List.getLast?_eq_some_iff.1 hlast
  rw [Resource.syncAfter, along_concat, SyncState.after_layout]

/-- An imported resource enters the frame as it is handed over. -/
theorem arrivalState_imported {resource : Resource} {handover : Handover}
    (hhandover : resource.handover? = some handover) (timeline : Timeline) :
    arrivalState resource timeline = handover.initial := by
  cases hsource : resource.source with
  | imported object handover' =>
      have heq : handover' = handover := by simpa [Resource.handover?, hsource] using hhandover
      rw [arrivalState, hsource, heq]
  | internal persistent => simp [Resource.handover?, hsource] at hhandover

theorem value_planResource (passes : List Pass) (h : Handle) (resource : Resource)
    {timeline : Timeline} {last : Use} (hlast : timeline.getLast? = some last) :
    (planResource passes h resource timeline).value =
      (resource.steps timeline).map (fun s =>
        ⟨s.use.pass, false, barrierFor h resource s.isFirst s.transition⟩) ++
        (handBack? resource (resource.syncAfter timeline)).toList.map
          fun t => ⟨last.pass, true, barrierFor h resource false t⟩ := by
  cases timeline with
  | nil => cases hlast
  | cons first rest =>
      simp only [planResource, hlast, walk_eq]
      rfl

/-! ## The barriers on one resource -/

namespace ResourceBarrier

def resource : ResourceBarrier → Handle
  | .image b => b.resource
  | .buffer b => b.resource

def kind : ResourceBarrier → ResourceKind
  | .image _ => .image
  | .buffer _ => .buffer

/-- Holds if merging keeps the barrier. -/
def isEffective : ResourceBarrier → Bool
  | .image b => Mergeable.isPinned b || Mergeable.hasEffect b
  | .buffer b => Mergeable.isPinned b || Mergeable.hasEffect b

/-- The step that the barrier makes; a buffer is in no layout. -/
def transition : ResourceBarrier → Transition
  | .image b => ⟨b.source, b.target⟩
  | .buffer b => ⟨b.source.toImageState, b.target.toImageState⟩

end ResourceBarrier

@[simp] theorem resource_barrierFor (h : Handle) (resource : Resource) (isFirst : Bool)
    (t : Transition) : (barrierFor h resource isFirst t).resource = h := by
  unfold barrierFor
  cases resource.info <;> rfl

@[simp] theorem kind_barrierFor (h : Handle) (resource : Resource) (isFirst : Bool)
    (t : Transition) : (barrierFor h resource isFirst t).kind = resource.kind := by
  unfold barrierFor Resource.kind
  cases resource.info <;> rfl

namespace Barriers

/-- The barriers on a resource. -/
def on (b : Barriers) (h : Handle) : List ResourceBarrier :=
  (b.images.filter fun x => x.resource = h).map .image ++
    (b.buffers.filter fun x => x.resource = h).map .buffer

/-- The barriers of both kinds. -/
def all (b : Barriers) : List ResourceBarrier :=
  b.images.map ResourceBarrier.image ++ b.buffers.map ResourceBarrier.buffer

theorem on_eq_filter (b : Barriers) (h : Handle) : b.on h = b.all.filter fun x => x.resource = h := by
  rw [all, List.filter_append, List.filter_map, List.filter_map]
  rfl

theorem on_effective (b : Barriers) (h : Handle) :
    b.effective.on h = (b.on h).filter ResourceBarrier.isEffective := by
  simp only [on, effective, List.filter_append, List.filter_map, List.filter_filter]
  congr 3
  · funext x
    exact Bool.and_comm _ _
  · funext x
    exact Bool.and_comm _ _

private theorem map_filter_filterMap {α β : Type} {f : α → Option β} {g : β → α} {p : α → Bool}
    {q : β → Bool} {l : List α} (hf : ∀ a b, f a = some b → g b = a ∧ q b = p a)
    (hp : ∀ a ∈ l, p a = true → f a ≠ none) :
    ((l.filterMap f).filter q).map g = l.filter p := by
  induction l with
  | nil => rfl
  | cons a rest ih =>
      have hrest := ih fun b hb => hp b (List.mem_cons_of_mem _ hb)
      cases ha : f a with
      | none =>
          have hnot : ¬ p a = true := fun h => hp a List.mem_cons_self h ha
          rw [List.filterMap_cons_none ha, hrest, List.filter_cons_of_neg hnot]
      | some b =>
          obtain ⟨hg, hq⟩ := hf a b ha
          rw [List.filterMap_cons_some ha, List.filter_cons, List.filter_cons, hq]
          split
          · rw [List.map_cons, hrest, hg]
          · exact hrest

/-- The barriers of a list on a resource, if they are all of its kind. -/
theorem on_ofList {l : List ResourceBarrier} {h : Handle} {kind : ResourceKind}
    (hkind : ∀ x ∈ l, x.resource = h → x.kind = kind) :
    (Barriers.ofList l).on h = l.filter fun x => x.resource = h := by
  cases kind with
  | image =>
      have hnone : (l.filterMap ResourceBarrier.buffer?).filter (fun x => x.resource = h) = [] := by
        refine List.filter_eq_nil_iff.2 fun b hb hh => ?_
        obtain ⟨x, hx, hxb⟩ := List.mem_filterMap.1 hb
        cases x with
        | image _ => cases hxb
        | buffer b' =>
            cases hxb
            cases hkind _ hx (of_decide_eq_true hh)
      have hall : ((l.filterMap ResourceBarrier.image?).filter fun x => x.resource = h).map
          ResourceBarrier.image = l.filter fun x => x.resource = h := by
        refine map_filter_filterMap ?_ ?_
        · rintro (b | b) b' hb <;> cases hb
          exact ⟨rfl, rfl⟩
        · rintro (b | b) hb hh hnone
          · cases hnone
          · cases hkind _ hb (by simpa using hh)
      simp only [on, ofList, hnone, hall, List.map_nil, List.append_nil]
  | buffer =>
      have hnone : (l.filterMap ResourceBarrier.image?).filter (fun x => x.resource = h) = [] := by
        refine List.filter_eq_nil_iff.2 fun b hb hh => ?_
        obtain ⟨x, hx, hxb⟩ := List.mem_filterMap.1 hb
        cases x with
        | buffer _ => cases hxb
        | image b' =>
            cases hxb
            cases hkind _ hx (of_decide_eq_true hh)
      have hall : ((l.filterMap ResourceBarrier.buffer?).filter fun x => x.resource = h).map
          ResourceBarrier.buffer = l.filter fun x => x.resource = h := by
        refine map_filter_filterMap ?_ ?_
        · rintro (b | b) b' hb <;> cases hb
          exact ⟨rfl, rfl⟩
        · rintro (b | b) hb hh hnone
          · cases hkind _ hb (by simpa using hh)
          · cases hnone
      simp only [on, ofList, hnone, hall, List.map_nil, List.nil_append]

/-- Lists in which no resource has two barriers. -/
theorem separate_of_on {b : Barriers} (h : ∀ k, (b.on k).length ≤ 1) : b.Separate := by
  have hnodup : ∀ {α : Type} (key : α → Handle) (l : List α),
      (∀ k, (l.filter fun x => key x = k).length ≤ 1) → (l.map key).Nodup := by
    intro α key l
    induction l with
    | nil => intro _; exact List.nodup_nil
    | cons x rest ih =>
        intro hl
        refine List.nodup_cons.2 ⟨fun hmem => ?_, ih fun k => ?_⟩
        · obtain ⟨y, hy, hkey⟩ := List.mem_map.1 hmem
          have hone := hl (key x)
          rw [List.filter_cons_of_pos (by simp), List.length_cons] at hone
          have hpos : 0 < (rest.filter fun z => key z = key x).length :=
            List.length_pos_of_mem (List.mem_filter.2 ⟨hy, by simpa using hkey⟩)
          omega
        · have hsub : (rest.filter fun y => key y = k).Sublist
              ((x :: rest).filter fun y => key y = k) :=
            (List.sublist_cons_self x rest).filter _
          exact Nat.le_trans hsub.length_le (hl k)
  constructor
  · refine hnodup _ _ fun k => ?_
    have hk := h k
    rw [on, List.length_append, List.length_map] at hk
    omega
  · refine hnodup _ _ fun k => ?_
    have hk := h k
    rw [on, List.length_append, List.length_map, List.length_map] at hk
    omega

/-- Lists that have no resource in common. -/
theorem apart_of_on {b c : Barriers} (h : ∀ k, b.on k = [] ∨ c.on k = []) : b.Apart c := by
  constructor
  · intro x hx y hy heq
    rcases h x.resource with hb | hc
    · have hmem : ResourceBarrier.image x ∈ b.on x.resource :=
        List.mem_append_left _ (List.mem_map.2 ⟨x, List.mem_filter.2 ⟨hx, by simp⟩, rfl⟩)
      rw [hb] at hmem
      cases hmem
    · have hmem : ResourceBarrier.image y ∈ c.on x.resource :=
        List.mem_append_left _ (List.mem_map.2 ⟨y, List.mem_filter.2 ⟨hy, by simp [heq]⟩, rfl⟩)
      rw [hc] at hmem
      cases hmem
  · intro x hx y hy heq
    rcases h x.resource with hb | hc
    · have hmem : ResourceBarrier.buffer x ∈ b.on x.resource :=
        List.mem_append_right _ (List.mem_map.2 ⟨x, List.mem_filter.2 ⟨hx, by simp⟩, rfl⟩)
      rw [hb] at hmem
      cases hmem
    · have hmem : ResourceBarrier.buffer y ∈ c.on x.resource :=
        List.mem_append_right _ (List.mem_map.2 ⟨y, List.mem_filter.2 ⟨hy, by simp [heq]⟩, rfl⟩)
      rw [hc] at hmem
      cases hmem

end Barriers

/-! ## The barriers placed for one resource -/

theorem value_placeBarriers (passes : List Pass) (registry : Registry)
    (entries : List (Handle × Timeline)) :
    (placeBarriers passes registry entries).value =
      entries.flatMap fun entry =>
        match registry.get? entry.1 with
        | none => []
        | some resource => (planResource passes entry.1 resource entry.2).value := by
  induction entries with
  | nil => rfl
  | cons entry rest ih =>
      obtain ⟨h, timeline⟩ := entry
      rw [List.flatMap_cons, ← ih]
      cases hget : registry.get? h with
      | none => simp [placeBarriers, hget]
      | some resource => simp [placeBarriers, hget]

theorem resource_of_mem_planResource {passes : List Pass} {h : Handle} {resource : Resource}
    {timeline : Timeline} {x : PlacedBarrier}
    (hx : x ∈ (planResource passes h resource timeline).value) :
    x.barrier.resource = h ∧ x.barrier.kind = resource.kind := by
  cases hlast : timeline.getLast? with
  | none =>
      rw [List.getLast?_eq_none_iff] at hlast
      subst hlast
      cases hx
  | some last =>
      rw [value_planResource passes h resource hlast] at hx
      rcases List.mem_append.1 hx with hx | hx
      · obtain ⟨s, -, rfl⟩ := List.mem_map.1 hx
        exact ⟨resource_barrierFor .., kind_barrierFor ..⟩
      · obtain ⟨t, -, rfl⟩ := List.mem_map.1 hx
        exact ⟨resource_barrierFor .., kind_barrierFor ..⟩

/-- In a table without repeated keys, what belongs to a key comes from its entry alone. -/
private theorem filter_flatMap_of_key {α β : Type} {entries : List (Handle × α)}
    (hnd : (entries.map (·.1)).Nodup) {f : Handle × α → List β} {key : β → Handle}
    (hkey : ∀ entry, ∀ b ∈ f entry, key b = entry.1) (h : Handle) :
    (∀ a, (h, a) ∈ entries → (entries.flatMap f).filter (fun b => key b = h) = f (h, a)) ∧
      ((∀ a, (h, a) ∉ entries) → (entries.flatMap f).filter (fun b => key b = h) = []) := by
  induction entries with
  | nil =>
      refine ⟨fun a ha => ?_, fun _ => rfl⟩
      cases ha
  | cons entry rest ih =>
      obtain ⟨k, c⟩ := entry
      obtain ⟨hnew, hrest⟩ := List.nodup_cons.1 hnd
      obtain ⟨ihmem, ihnone⟩ := ih hrest
      rw [List.flatMap_cons, List.filter_append]
      by_cases hk : k = h
      · subst hk
        have hself : (f (k, c)).filter (fun b => key b = k) = f (k, c) :=
          List.filter_eq_self.2 fun b hb => by simpa using hkey (k, c) b hb
        have hother : (rest.flatMap f).filter (fun b => key b = k) = [] :=
          ihnone fun a ha => hnew (List.mem_map.2 ⟨(k, a), ha, rfl⟩)
        rw [hself, hother, List.append_nil]
        refine ⟨fun a ha => ?_, fun h => absurd List.mem_cons_self (h c)⟩
        rcases List.mem_cons.1 ha with heq | ha
        · cases heq
          rfl
        · exact absurd (List.mem_map.2 ⟨(k, a), ha, rfl⟩) hnew
      · have hself : (f (k, c)).filter (fun b => key b = h) = [] := by
          refine List.filter_eq_nil_iff.2 fun b hb hkeyb => hk ?_
          exact (hkey (k, c) b hb).symm.trans (of_decide_eq_true hkeyb)
        rw [hself, List.nil_append]
        refine ⟨fun a ha => ihmem a ?_, fun hnone => ihnone fun a ha => hnone a ?_⟩
        · exact (List.mem_cons.1 ha).resolve_left fun heq => hk (Prod.mk.inj heq).1.symm
        · exact List.mem_cons_of_mem _ ha

section Plan

variable (order : List Nat) (passes : List Pass) (registry : Registry)

/-- The barriers on all resources along an order, before merging. -/
def placedAlong : List PlacedBarrier :=
  (placeBarriers passes registry (UsageTable.along order passes registry).entries).value

/-- The barriers around each pass, before merging. -/
def plannedAlong : List AroundPass :=
  (planBarriers (UsageTable.along order passes registry) passes registry).value

/-- The barriers around each pass of the compiled plan. -/
def compiledAlong : List AroundPass := mergeAlong order (plannedAlong order passes registry)

theorem plannedAlong_eq : plannedAlong order passes registry =
    AroundPass.ofPlaced passes.length (placedAlong order passes registry) := value_planBarriers ..

variable {order passes registry} {h : Handle} {resource : Resource} {timeline : Timeline}

/-- A live resource with its timeline along the order. -/
structure OnTimeline (order : List Nat) (passes : List Pass) (registry : Registry) (h : Handle)
    (resource : Resource) (timeline : Timeline) : Prop where
  live : registry.get? h = some resource
  timeline_eq : timelineOf order passes resource.kind h = timeline
  used : timeline ≠ []

theorem exists_onTimeline
    (ht : (UsageTable.along order passes registry).get? h = some timeline) :
    ∃ resource, OnTimeline order passes registry h resource timeline := by
  obtain ⟨resource, hget, htimeline, hne⟩ := get?_along.1 ht
  exact ⟨resource, hget, htimeline, hne⟩

theorem key_of_mem_placed (entry : Handle × Timeline) (x : PlacedBarrier)
    (hx : x ∈ (match registry.get? entry.1 with
      | none => []
      | some resource => (planResource passes entry.1 resource entry.2).value)) :
    x.barrier.resource = entry.1 := by
  split at hx
  · cases hx
  · exact (resource_of_mem_planResource hx).1

theorem OnTimeline.placed (hr : OnTimeline order passes registry h resource timeline) :
    ((placedAlong order passes registry).filter fun x => x.barrier.resource = h) =
      (planResource passes h resource timeline).value := by
  have hmem : (h, timeline) ∈ (UsageTable.along order passes registry).entries :=
    mem_entries_along.2 ⟨resource, hr.live, hr.timeline_eq, hr.used⟩
  rw [placedAlong, value_placeBarriers,
    (filter_flatMap_of_key (nodup_along order passes registry) key_of_mem_placed h).1 timeline hmem]
  dsimp only
  rw [hr.live]

theorem placed_of_unused
    (hnone : (UsageTable.along order passes registry).get? h = none) :
    ((placedAlong order passes registry).filter fun x => x.barrier.resource = h) = [] := by
  rw [placedAlong, value_placeBarriers]
  refine (filter_flatMap_of_key (nodup_along order passes registry) key_of_mem_placed h).2
    fun timeline hmem => ?_
  rw [(HandleMap.get?_eq_some_iff (nodup_along order passes registry)).2 hmem] at hnone
  cases hnone

/-! ## The planned lists -/

theorem on_barriersAt {placed own : List PlacedBarrier} {kind : ResourceKind}
    (hown : (placed.filter fun x => x.barrier.resource = h) = own)
    (hkind : ∀ x ∈ own, x.barrier.kind = kind) (pass : Nat) (isAfter : Bool) :
    (barriersAt placed pass isAfter).on h =
      (own.filter fun x => x.pass = pass && x.isAfter = isAfter).map (·.barrier) := by
  have hall : ∀ x ∈ (placed.filter fun x => x.pass = pass && x.isAfter = isAfter).map (·.barrier),
      x.resource = h → x.kind = kind := by
    intro b hb hh
    obtain ⟨x, hx, rfl⟩ := List.mem_map.1 hb
    refine hkind x ?_
    rw [← hown]
    exact List.mem_filter.2 ⟨(List.mem_filter.1 hx).1, by simpa using hh⟩
  rw [barriersAt, Barriers.on_ofList hall, List.filter_map, ← hown, List.filter_filter,
    List.filter_filter]
  refine congrArg (List.map _) (List.filter_congr fun x _ => ?_)
  exact Bool.and_comm _ _

theorem aroundPass_planned (pass : Nat) :
    aroundPass (plannedAlong order passes registry) pass =
      if pass < passes.length then
        { before := barriersAt (placedAlong order passes registry) pass false
          after := barriersAt (placedAlong order passes registry) pass true }
      else default := by
  rw [aroundPass, plannedAlong_eq, AroundPass.ofPlaced, List.getD_eq_getElem?_getD, List.getElem?_map]
  split
  · next hlt =>
      rw [List.getElem?_range hlt]
      rfl
  · next hge =>
      rw [List.getElem?_eq_none (by simpa using hge)]
      rfl

namespace OnTimeline

variable (hr : OnTimeline order passes registry h resource timeline)

include hr

theorem lt_of_mem {u : Use} (hu : u ∈ timeline) : u.pass < passes.length := by
  rw [← hr.timeline_eq] at hu
  obtain ⟨-, p, hp, -⟩ := mem_timelineOf.1 hu
  exact (List.getElem?_eq_some_iff.1 hp).1

/-- The barriers before a pass: the step there, if any. -/
theorem on_before_planned (pass : Nat) :
    (aroundPass (plannedAlong order passes registry) pass).before.on h =
      ((resource.steps timeline).filter fun s => s.use.pass = pass).map fun s =>
        barrierFor h resource s.isFirst s.transition := by
  obtain ⟨last, hlast⟩ : ∃ last, timeline.getLast? = some last :=
    ⟨_, List.getLast?_eq_some_getLast hr.used⟩
  rw [aroundPass_planned]
  split
  · dsimp only
    rw [on_barriersAt hr.placed fun x hx => (resource_of_mem_planResource hx).2,
      value_planResource passes h resource hlast, List.filter_append, List.filter_map,
      List.filter_map, List.map_append]
    simp [Function.comp_def]
  · next hge =>
      have hnone : (resource.steps timeline).filter (fun s => s.use.pass = pass) = [] := by
        refine List.filter_eq_nil_iff.2 fun s hs hpass => hge ?_
        rw [← of_decide_eq_true hpass]
        exact hr.lt_of_mem (Resource.use_mem_of_mem_steps hs)
      rw [hnone]
      rfl

/-- The barriers after a pass: that which hands the resource back, if it is the last one. -/
theorem on_after_planned {last : Use} (hlast : timeline.getLast? = some last) (pass : Nat) :
    (aroundPass (plannedAlong order passes registry) pass).after.on h =
      if last.pass = pass then
        (handBack? resource (resource.syncAfter timeline)).toList.map (barrierFor h resource false)
      else [] := by
  rw [aroundPass_planned]
  split
  · dsimp only
    rw [on_barriersAt hr.placed fun x hx => (resource_of_mem_planResource hx).2,
      value_planResource passes h resource hlast, List.filter_append, List.filter_map,
      List.filter_map, List.map_append]
    by_cases hpass : last.pass = pass <;> simp [Function.comp_def, hpass]
  · next hge =>
      have hne : last.pass ≠ pass := by
        rintro rfl
        exact hge (hr.lt_of_mem (List.mem_of_getLast? hlast))
      rw [if_neg hne]
      rfl

end OnTimeline

theorem on_planned_of_unused (hnone : (UsageTable.along order passes registry).get? h = none)
    (pass : Nat) :
    (aroundPass (plannedAlong order passes registry) pass).before.on h = [] ∧
      (aroundPass (plannedAlong order passes registry) pass).after.on h = [] := by
  have hkind : ∀ x ∈ ([] : List PlacedBarrier), x.barrier.kind = .image := fun x hx => by cases hx
  rw [aroundPass_planned]
  split
  · exact ⟨on_barriersAt (placed_of_unused hnone) hkind pass false,
      on_barriersAt (placed_of_unused hnone) hkind pass true⟩
  · exact ⟨rfl, rfl⟩

/-! ## The compiled lists -/

theorem OnTimeline.pairwise_steps (hr : OnTimeline order passes registry h resource timeline)
    (hnd : order.Nodup) :
    (resource.steps timeline).Pairwise fun s t => s.use.pass ≠ t.use.pass := by
  have huses : timeline.Pairwise fun u v => u.pass ≠ v.pass := by
    rw [← hr.timeline_eq]
    exact pairwise_pass hnd
  have hsteps : ((resource.steps timeline).map Step.use).Pairwise fun u v => u.pass ≠ v.pass :=
    huses.sublist (use_stepsAlong ..)
  rw [List.pairwise_map] at hsteps
  exact hsteps

/-- There is at most one step before each pass. -/
theorem OnTimeline.length_steps_le (hr : OnTimeline order passes registry h resource timeline)
    (hnd : order.Nodup) (pass : Nat) :
    ((resource.steps timeline).filter fun s => s.use.pass = pass).length ≤ 1 := by
  have hpairs := (hr.pairwise_steps hnd).filter fun s => s.use.pass = pass
  have hmem : ∀ x ∈ (resource.steps timeline).filter fun s => s.use.pass = pass,
      x.use.pass = pass := fun x hx => of_decide_eq_true (List.mem_filter.1 hx).2
  rcases hsteps : (resource.steps timeline).filter fun s => s.use.pass = pass with
    _ | ⟨s, _ | ⟨t, rest⟩⟩
  · rw [hsteps]
    exact Nat.zero_le 1
  · rw [hsteps]
    exact Nat.le_refl 1
  · rw [hsteps] at hpairs hmem
    have hne := (List.pairwise_cons.1 hpairs).1 t List.mem_cons_self
    rw [hmem s List.mem_cons_self, hmem t (List.mem_cons_of_mem _ List.mem_cons_self)] at hne
    exact absurd rfl hne

/-- The last use comes after every other. -/
theorem OnTimeline.position_le_last (hr : OnTimeline order passes registry h resource timeline)
    {u last : Use} (hlast : timeline.getLast? = some last) (hu : u ∈ timeline) :
    u.position ≤ last.position := by
  have hsorted : timeline.Pairwise fun u v => u.position < v.position := by
    rw [← hr.timeline_eq]
    exact pairwise_position
  obtain ⟨front, rfl⟩ := List.getLast?_eq_some_iff.1 hlast
  rcases List.mem_append.1 hu with hu | hu
  · exact Nat.le_of_lt ((List.pairwise_append.1 hsorted).2.2 u hu last List.mem_cons_self)
  · rw [List.mem_singleton.1 hu]

theorem OnTimeline.getElem?_order (hr : OnTimeline order passes registry h resource timeline)
    {u : Use} (hu : u ∈ timeline) : order[u.position]? = some u.pass := by
  rw [← hr.timeline_eq] at hu
  exact (mem_timelineOf.1 hu).1

/-- No two planned barriers meet. -/
theorem untangled_planned (hnd : order.Nodup) :
    Untangled order (plannedAlong order passes registry) where
  before := by
    intro pass
    refine Barriers.separate_of_on fun k => ?_
    cases ht : (UsageTable.along order passes registry).get? k with
    | none => simp [(on_planned_of_unused ht pass).1]
    | some timeline =>
        obtain ⟨resource, hr⟩ := exists_onTimeline ht
        rw [hr.on_before_planned, List.length_map]
        exact hr.length_steps_le hnd pass
  after := by
    intro pass
    refine Barriers.separate_of_on fun k => ?_
    cases ht : (UsageTable.along order passes registry).get? k with
    | none => simp [(on_planned_of_unused ht pass).2]
    | some timeline =>
        obtain ⟨resource, hr⟩ := exists_onTimeline ht
        rw [hr.on_after_planned (List.getLast?_eq_some_getLast hr.used)]
        split
        · cases handBack? resource (resource.syncAfter timeline) <;> simp
        · simp
  apart := by
    rw [List.isChain_iff_getElem]
    intro i hi
    refine Barriers.apart_of_on fun k => ?_
    cases ht : (UsageTable.along order passes registry).get? k with
    | none => exact .inl (on_planned_of_unused ht _).2
    | some timeline =>
        obtain ⟨resource, hr⟩ := exists_onTimeline ht
        have hlast := List.getLast?_eq_some_getLast hr.used
        rw [hr.on_after_planned hlast, hr.on_before_planned]
        split
        · -- The last use is at this position, so there is none at the next.
          next hpass =>
            refine .inr ?_
            rw [List.map_eq_nil_iff, List.filter_eq_nil_iff]
            intro s hs hnext
            have hs' := Resource.use_mem_of_mem_steps hs
            obtain ⟨hlt, heq⟩ := List.getElem?_eq_some_iff.1 (hr.getElem?_order hs')
            obtain ⟨hlt', heq'⟩ := List.getElem?_eq_some_iff.1
              (hr.getElem?_order (List.mem_of_getLast? hlast))
            have hle := hr.position_le_last hlast hs'
            have hpos := hnd.getElem_inj_iff.1 (heq.trans (of_decide_eq_true hnext))
            have hpos' := hnd.getElem_inj_iff.1 (heq'.trans hpass)
            omega
        · exact .inl rfl

/-- Merging only drops the planned barriers without effect. -/
theorem compiledAlong_eq (hnd : order.Nodup) (passes : List Pass) (registry : Registry) :
    compiledAlong order passes registry =
      effectiveAlong order (plannedAlong order passes registry) :=
  mergeAlong_of_untangled hnd (untangled_planned hnd)

theorem aroundPass_compiled (hnd : order.Nodup) (pass : Nat) :
    aroundPass (compiledAlong order passes registry) pass =
      if pass ∈ order then (aroundPass (plannedAlong order passes registry) pass).effective
      else aroundPass (plannedAlong order passes registry) pass := by
  rw [compiledAlong_eq hnd, aroundPass_effectiveAlong]

/-- Around no pass is there a barrier on a resource that is not used. -/
theorem on_compiled_of_unused (hnd : order.Nodup)
    (hnone : (UsageTable.along order passes registry).get? h = none) (pass : Nat) :
    (aroundPass (compiledAlong order passes registry) pass).before.on h = [] ∧
      (aroundPass (compiledAlong order passes registry) pass).after.on h = [] := by
  obtain ⟨hbefore, hafter⟩ := on_planned_of_unused hnone pass
  rw [aroundPass_compiled hnd]
  split
  · refine ⟨?_, ?_⟩
    · show (aroundPass (plannedAlong order passes registry) pass).before.effective.on h = []
      rw [Barriers.on_effective, hbefore]
      rfl
    · show (aroundPass (plannedAlong order passes registry) pass).after.effective.on h = []
      rw [Barriers.on_effective, hafter]
      rfl
  · exact ⟨hbefore, hafter⟩

namespace OnTimeline

variable (hr : OnTimeline order passes registry h resource timeline) (hnd : order.Nodup)

include hr hnd

/-- **The compiled barriers before a pass are the effective steps there.** -/
theorem on_before_compiled (pass : Nat) :
    (aroundPass (compiledAlong order passes registry) pass).before.on h =
      (((resource.steps timeline).filter fun s => s.use.pass = pass).map fun s =>
        barrierFor h resource s.isFirst s.transition).filter ResourceBarrier.isEffective := by
  rw [aroundPass_compiled hnd]
  split
  · rw [← hr.on_before_planned]
    exact Barriers.on_effective _ h
  · next hmem =>
      have hnone : (resource.steps timeline).filter (fun s => s.use.pass = pass) = [] := by
        refine List.filter_eq_nil_iff.2 fun s hs hpass => hmem ?_
        rw [← of_decide_eq_true hpass]
        exact List.mem_of_getElem? (hr.getElem?_order (Resource.use_mem_of_mem_steps hs))
      rw [hr.on_before_planned, hnone]
      rfl

/-- **The compiled barriers after a pass are what hands the resource back.** -/
theorem on_after_compiled {last : Use} (hlast : timeline.getLast? = some last) (pass : Nat) :
    (aroundPass (compiledAlong order passes registry) pass).after.on h =
      if last.pass = pass then
        ((handBack? resource (resource.syncAfter timeline)).toList.map
          (barrierFor h resource false)).filter ResourceBarrier.isEffective
      else [] := by
  rw [aroundPass_compiled hnd]
  by_cases hpass : last.pass = pass
  · have hmem : pass ∈ order := by
      rw [← hpass]
      exact List.mem_of_getElem? (hr.getElem?_order (List.mem_of_getLast? hlast))
    have hplanned := hr.on_after_planned hlast pass
    rw [if_pos hpass] at hplanned
    rw [if_pos hmem, if_pos hpass, ← hplanned]
    exact Barriers.on_effective _ h
  · have hplanned := hr.on_after_planned hlast pass
    rw [if_neg hpass] at hplanned ⊢
    split
    · change (aroundPass (plannedAlong order passes registry) pass).after.effective.on h = []
      rw [Barriers.on_effective, hplanned]
      rfl
    · exact hplanned

/-- Uses at different positions are made by different passes. -/
theorem pass_eq_iff {u : Use} (hu : u ∈ timeline) {position pass : Nat}
    (hpass : order[position]? = some pass) : u.pass = pass ↔ u.position = position := by
  have hplace := hr.getElem?_order hu
  constructor
  · intro heq
    obtain ⟨hlt, hget⟩ := List.getElem?_eq_some_iff.1 hplace
    obtain ⟨hlt', hget'⟩ := List.getElem?_eq_some_iff.1 hpass
    exact hnd.getElem_inj_iff.1 (hget.trans (heq.trans hget'.symm))
  · intro heq
    rw [heq, hpass] at hplace
    exact (Option.some.inj hplace).symm

/-- Around a pass that does not use the resource there are no barriers on it. -/
theorem on_compiled_of_ne {pass : Nat} (hne : ∀ u ∈ timeline, u.pass ≠ pass) :
    (aroundPass (compiledAlong order passes registry) pass).before.on h = [] ∧
      (aroundPass (compiledAlong order passes registry) pass).after.on h = [] := by
  constructor
  · have hnone : (resource.steps timeline).filter (fun s => s.use.pass = pass) = [] := by
      refine List.filter_eq_nil_iff.2 fun s hs hp => ?_
      exact hne s.use (Resource.use_mem_of_mem_steps hs) (of_decide_eq_true hp)
    rw [hr.on_before_compiled hnd, hnone]
    rfl
  · have hlast := List.getLast?_eq_some_getLast hr.used
    rw [hr.on_after_compiled hnd hlast, if_neg (hne _ (List.mem_of_getLast? hlast))]

theorem on_compiled_of_unused_at {position pass : Nat} (hpass : order[position]? = some pass)
    (hunused : ∀ u ∈ timeline, u.position ≠ position) :
    (aroundPass (compiledAlong order passes registry) pass).before.on h = [] ∧
      (aroundPass (compiledAlong order passes registry) pass).after.on h = [] :=
  hr.on_compiled_of_ne hnd fun u hu heq => hunused u hu ((hr.pass_eq_iff hnd hu hpass).1 heq)

/-- The steps before the pass of a use. -/
theorem steps_at {past later : List Use} {u : Use} (hsplit : timeline = past ++ u :: later) :
    (resource.steps timeline).filter (fun s => s.use.pass = u.pass) =
      if ((SyncState.arriving (arrivalState resource timeline)).along (u :: later) past).needs u ||
          past.isEmpty && !resource.isImported then
        [⟨u, past.isEmpty,
          ((SyncState.arriving (arrivalState resource timeline)).along (u :: later) past).transition
            u later⟩]
      else [] := by
  have hpasses : (past ++ u :: later).Pairwise fun v w => v.pass ≠ w.pass := by
    rw [← hsplit, ← hr.timeline_eq]
    exact pairwise_pass hnd
  obtain ⟨-, htail, hcross⟩ := List.pairwise_append.1 hpasses
  have hnone : ∀ (uses later' : List Use) (s : SyncState) (isFirst : Bool),
      (∀ v ∈ uses, v.pass ≠ u.pass) →
        (stepsAlong resource later' s isFirst uses).filter (fun s => s.use.pass = u.pass) = [] := by
    intro uses later' s isFirst hne
    refine List.filter_eq_nil_iff.2 fun x hx hp => ?_
    exact hne x.use ((use_stepsAlong ..).subset (List.mem_map_of_mem hx)) (of_decide_eq_true hp)
  have hpast := hnone past ((u :: later) ++ []) (.arriving (arrivalState resource timeline)) true
    fun v hv => hcross v hv u List.mem_cons_self
  have hlater := fun s => hnone later [] s false
    fun v hv => ((List.pairwise_cons.1 htail).1 v hv).symm
  rw [Resource.steps]
  conv_lhs => rw [hsplit]
  rw [stepsAlong_append, List.filter_append, ← hsplit, hpast, List.nil_append, stepsAlong,
    List.filter_append, hlater, List.append_nil, List.append_nil, List.append_nil, Bool.true_and]
  split
  · rw [List.filter_cons_of_pos (by simp), List.filter_nil]
  · rfl

end OnTimeline

/-- **Every compiled barrier is on a live resource, and of its kind.** -/
theorem kind_of_mem_compiled (hnd : order.Nodup) {pass : Nat} {x : ResourceBarrier}
    (hx : x ∈ (aroundPass (compiledAlong order passes registry) pass).before.all ∨
      x ∈ (aroundPass (compiledAlong order passes registry) pass).after.all) :
    ∃ resource, registry.get? x.resource = some resource ∧ x.kind = resource.kind := by
  have hon : x ∈ (aroundPass (compiledAlong order passes registry) pass).before.on x.resource ∨
      x ∈ (aroundPass (compiledAlong order passes registry) pass).after.on x.resource := by
    rw [Barriers.on_eq_filter, Barriers.on_eq_filter]
    exact hx.imp (fun h => List.mem_filter.2 ⟨h, by simp⟩) fun h => List.mem_filter.2 ⟨h, by simp⟩
  cases ht : (UsageTable.along order passes registry).get? x.resource with
  | none =>
      obtain ⟨hbefore, hafter⟩ := on_compiled_of_unused hnd ht pass
      rw [hbefore, hafter] at hon
      rcases hon with hon | hon <;> cases hon
  | some timeline =>
      obtain ⟨resource, hr⟩ := exists_onTimeline ht
      refine ⟨resource, hr.live, ?_⟩
      have hlast := List.getLast?_eq_some_getLast hr.used
      rw [hr.on_before_compiled hnd, hr.on_after_compiled hnd hlast] at hon
      rcases hon with hon | hon
      · obtain ⟨s, -, hs⟩ := List.mem_map.1 (List.mem_filter.1 hon).1
        rw [← hs, kind_barrierFor]
      · split at hon
        · obtain ⟨t, -, ht⟩ := List.mem_map.1 (List.mem_filter.1 hon).1
          rw [← ht, kind_barrierFor]
        · cases hon

end Plan

end FrameGraph
