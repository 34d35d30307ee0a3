import FrameGraph.Proofs.Barrier.Placed
import FrameGraph.Proofs.Barrier.Plan
import FrameGraph.Proofs.Timeline.Lifetimes

/-!
# What is planned of a resource

Planning sees the outline of a resource: neither the object behind an imported one nor the lifetime that
an earlier plan has given.  Registries with the same outlines have the same timelines, and the same
barriers are placed for them.

Principal statements: `Registry.SameOutline.along_eq` and `Registry.SameOutline.compiledAlong_eq`.
-/

set_option autoImplicit false

namespace FrameGraph

/-! ## Tables in ascending order -/

theorem Handle.precedes_asymm {h k : Handle} (hk : h.precedes k = true) : k.precedes h = false := by
  cases h <;> cases k <;> simp_all [Handle.precedes]
  omega

namespace SlotTable

variable {α β : Type}

theorem pairwise_toList (m : SlotTable α) :
    m.toList.Pairwise fun a b => a.1.precedes b.1 = true := by
  have hfrom : ∀ (slots : List (Slot α)) (start : Nat),
      (entriesFrom start slots).Pairwise fun a b => a.1.precedes b.1 = true := by
    intro slots
    induction slots with
    | nil => exact fun _ => .nil
    | cons slot rest ih =>
        intro start
        unfold entriesFrom
        split
        · exact ih (start + 1)
        · refine .cons (fun entry hentry => ?_) (ih (start + 1))
          obtain ⟨i, generation, heq, -⟩ := mem_entriesFrom.1 hentry
          rw [heq]
          simp only [Handle.precedes, decide_eq_true_eq]
          omega
  exact hfrom m.slots 0

/-- Tables with the same look-ups list the same, since the slots are in ascending order. -/
theorem map_toList_congr {m m' : SlotTable α} {f : α → β}
    (h : ∀ k, (m.get? k).map f = (m'.get? k).map f) :
    m.toList.map (fun entry => (entry.1, f entry.2)) =
      m'.toList.map fun entry => (entry.1, f entry.2) := by
  have hmem : ∀ (m : SlotTable α) (k : Handle) (b : β),
      (k, b) ∈ m.toList.map (fun entry => (entry.1, f entry.2)) ↔ (m.get? k).map f = some b := by
    intro m k b
    rw [List.mem_map, Option.map_eq_some_iff]
    constructor
    · rintro ⟨⟨k, a⟩, hentry, heq⟩
      cases heq
      exact ⟨a, mem_toList.1 hentry, rfl⟩
    · rintro ⟨a, hget, rfl⟩
      exact ⟨(k, a), mem_toList.2 hget, rfl⟩
  have hsorted : ∀ m : SlotTable α, (m.toList.map fun entry => (entry.1, f entry.2)).Pairwise
      fun a b => a.1.precedes b.1 = true := fun m => List.pairwise_map.2 m.pairwise_toList
  have hnd : ∀ m : SlotTable α, (m.toList.map fun entry => (entry.1, f entry.2)).Nodup := by
    intro m
    refine List.Nodup.of_map (·.1) ?_
    rw [List.map_map]
    exact m.nodup_handles
  refine List.Perm.eq_of_pairwise (fun a b _ _ hab hba => ?_) (hsorted m) (hsorted m') ?_
  · rw [Handle.precedes_asymm hab] at hba
    cases hba
  · rw [List.perm_ext_iff_of_nodup (hnd m) (hnd m')]
    rintro ⟨k, b⟩
    rw [hmem, hmem, h]

end SlotTable

/-! ## Resources as they are planned -/

/-- The source without the object. -/
def Source.outline : Source → Source
  | .imported _ handover => .imported (.buffer 0) handover
  | .internal persistent => .internal persistent

namespace Resource

/-- What matters of a resource when barriers are planned: neither its object nor its lifetime. -/
def outline (r : Resource) : Resource := { r with source := r.source.outline, lifetime := none }

theorem kind_of_outline {a b : Resource} (h : a.outline = b.outline) : a.kind = b.kind := by
  show a.outline.kind = b.outline.kind
  rw [h]

theorem handover?_outline (r : Resource) : r.outline.handover? = r.handover? := by
  obtain ⟨_, _, source, _, _⟩ := r
  cases source <;> rfl

theorem isPersistent_outline (r : Resource) : r.outline.isPersistent = r.isPersistent := by
  obtain ⟨_, _, source, _, _⟩ := r
  cases source <;> rfl

theorem isTransient_outline (r : Resource) : r.outline.isTransient = r.isTransient := by
  obtain ⟨_, _, source, _, _⟩ := r
  cases source <;> rfl

/-- Resources of the same outline are handed over in the same way. -/
theorem handover?_of_outline {a b : Resource} (h : a.outline = b.outline) :
    a.handover? = b.handover? := by
  rw [← handover?_outline a, h, handover?_outline]

theorem isPersistent_of_outline {a b : Resource} (h : a.outline = b.outline) :
    a.isPersistent = b.isPersistent := by
  rw [← isPersistent_outline a, h, isPersistent_outline]

theorem isTransient_of_outline {a b : Resource} (h : a.outline = b.outline) :
    a.isTransient = b.isTransient := by
  rw [← isTransient_outline a, h, isTransient_outline]

theorem isImported_outline (r : Resource) : r.outline.isImported = r.isImported := by
  obtain ⟨_, _, source, _, _⟩ := r
  cases source <;> rfl

theorem isImported_of_outline {a b : Resource} (h : a.outline = b.outline) :
    a.isImported = b.isImported := by
  rw [← isImported_outline a, h, isImported_outline]

theorem isOutput_of_outline {a b : Resource} (h : a.outline = b.outline) : a.isOutput = b.isOutput := by
  show a.outline.isOutput = b.outline.isOutput
  rw [h]

theorem name_of_outline {a b : Resource} (h : a.outline = b.outline) : a.name = b.name := by
  show a.outline.name = b.outline.name
  rw [h]

end Resource

section Outline

variable {a b : Resource} (h : a.outline = b.outline)

theorem arrivalState_outline (r : Resource) (timeline : Timeline) :
    arrivalState r.outline timeline = arrivalState r timeline := by
  obtain ⟨_, _, source, _, _⟩ := r
  cases source <;> rfl

theorem barrierFor_outline (k : Handle) (r : Resource) (isFirst : Bool) (t : Transition) :
    barrierFor k r.outline isFirst t = barrierFor k r isFirst t := by
  unfold barrierFor
  rw [Resource.isPersistent_outline, Resource.isTransient_outline]
  rfl

include h

theorem arrivalState_of_outline (timeline : Timeline) :
    arrivalState a timeline = arrivalState b timeline := by
  rw [← arrivalState_outline a, h, arrivalState_outline]

theorem barrierFor_of_outline (k : Handle) : barrierFor k a = barrierFor k b := by
  funext isFirst t
  rw [← barrierFor_outline k a, h, barrierFor_outline]

theorem handBack?_of_outline : handBack? a = handBack? b := by
  funext sync
  rw [handBack?, handBack?, Resource.handover?_of_outline h]

theorem stepsAlong_of_outline (later : List Use) (s : SyncState) (isFirst : Bool)
    (uses : List Use) : stepsAlong a later s isFirst uses = stepsAlong b later s isFirst uses := by
  induction uses generalizing s isFirst with
  | nil => rfl
  | cons u uses ih => rw [stepsAlong, stepsAlong, ih, Resource.isImported_of_outline h]

namespace Resource

theorem steps_of_outline : a.steps = b.steps := by
  funext timeline
  rw [steps, steps, arrivalState_of_outline h, stepsAlong_of_outline h]

theorem syncAfter_of_outline : a.syncAfter = b.syncAfter := by
  funext timeline
  rw [syncAfter, syncAfter, arrivalState_of_outline h]

end Resource

end Outline

/-- Of a resource the planner sees the outline. -/
theorem value_planResource_congr (passes : List Pass) (h : Handle) {a b : Resource}
    (houtline : a.outline = b.outline) (timeline : Timeline) :
    (planResource passes h a timeline).value = (planResource passes h b timeline).value := by
  cases hlast : timeline.getLast? with
  | none =>
      rw [List.getLast?_eq_none_iff] at hlast
      subst hlast
      rfl
  | some last =>
      rw [value_planResource passes h a hlast, value_planResource passes h b hlast,
        Resource.steps_of_outline houtline, Resource.syncAfter_of_outline houtline,
        handBack?_of_outline houtline, barrierFor_of_outline houtline]

/-! ## Registries with the same outlines -/

/-- The row of a resource in the table of timelines, if it is used at all. -/
def tableRow? (order : List Nat) (passes : List Pass) (entry : Handle × ResourceKind) :
    Option (Handle × Timeline) :=
  match timelineOf order passes entry.2 entry.1 with
  | [] => none
  | timeline => some (entry.1, timeline)

namespace Registry

/-- Each handle names resources of the same outline in both registries. -/
def SameOutline (r r' : Registry) : Prop :=
  ∀ h, (r.get? h).map Resource.outline = (r'.get? h).map Resource.outline

theorem SameOutline.refl (r : Registry) : r.SameOutline r := fun _ => rfl

theorem SameOutline.symm {r r' : Registry} (h : r.SameOutline r') : r'.SameOutline r :=
  fun k => (h k).symm

theorem SameOutline.trans {r r' r'' : Registry} (h : r.SameOutline r') (h' : r'.SameOutline r'') :
    r.SameOutline r'' := fun k => (h k).trans (h' k)

theorem SameOutline.exists_live {r r' : Registry} (h : r.SameOutline r') {k : Handle}
    {resource' : Resource} (hget : r'.get? k = some resource') :
    ∃ resource, r.get? k = some resource ∧ resource.outline = resource'.outline := by
  have hk := h k
  rw [hget] at hk
  exact Option.map_eq_some_iff.1 hk

namespace SameOutline

variable {r r' : Registry}

theorem map_eq (h : r.SameOutline r') {β : Type} {f : Resource → β}
    (hf : ∀ a b : Resource, a.outline = b.outline → f a = f b) (k : Handle) :
    (r.get? k).map f = (r'.get? k).map f := by
  cases hget : r'.get? k with
  | none =>
      have hk := h k
      rw [hget, Option.map_none, Option.map_eq_none_iff] at hk
      rw [hk]
  | some resource' =>
      obtain ⟨resource, hresource, houtline⟩ := h.exists_live hget
      rw [hresource, Option.map_some, Option.map_some, hf _ _ houtline]

/-- The same resources are used. -/
theorem along_eq (h : r.SameOutline r') (order : List Nat) (passes : List Pass) :
    UsageTable.along order passes r = UsageTable.along order passes r' := by
  have htable : ∀ registry : Registry, UsageTable.along order passes registry =
      ⟨(registry.toList.map fun entry => (entry.1, entry.2.kind)).filterMap
        (tableRow? order passes)⟩ := by
    intro registry
    rw [List.filterMap_map]
    rfl
  have hlist : r.toList.map (fun entry => (entry.1, entry.2.kind)) =
      r'.toList.map fun entry => (entry.1, entry.2.kind) :=
    SlotTable.map_toList_congr (h.map_eq fun _ _ => Resource.kind_of_outline)
  rw [htable, htable, hlist]

/-- The same barriers are placed. -/
theorem value_placeBarriers (h : r.SameOutline r') (passes : List Pass)
    (entries : List (Handle × Timeline)) :
    (placeBarriers passes r entries).value = (placeBarriers passes r' entries).value := by
  rw [FrameGraph.value_placeBarriers, FrameGraph.value_placeBarriers]
  refine List.flatMap_congr fun entry _ => ?_
  have hplaced := h.map_eq (fun a b houtline =>
    value_planResource_congr passes entry.1 houtline entry.2) entry.1
  cases hget : r.get? entry.1 <;> cases hget' : r'.get? entry.1 <;> simp_all

/-- The same barriers are compiled. -/
theorem compiledAlong_eq (h : r.SameOutline r') (order : List Nat) (passes : List Pass) :
    compiledAlong order passes r = compiledAlong order passes r' := by
  rw [compiledAlong, compiledAlong, plannedAlong_eq, plannedAlong_eq, placedAlong, placedAlong,
    h.along_eq, h.value_placeBarriers]

end SameOutline

/-! ## What keeps the outlines -/

/-- A new object changes nothing of a resource that does not depend on the object. -/
theorem map_updateObject {β : Type} {f : Resource → β}
    (hf : ∀ (resource : Resource) (current object : DeviceObject) (handover : Handover),
      resource.source = .imported current handover →
        f { resource with source := .imported object handover } = f resource)
    (r : Registry) (name : String) (object : DeviceObject) (k : Handle) :
    ((r.updateObject name object).value.2.get? k).map f = (r.get? k).map f := by
  unfold updateObject
  split
  · rfl
  · split
    · next h resource hh hn =>
        have hget := get?_of_named? hh hn
        split
        · next current handover hsource =>
            split
            · show Option.map f ((r.set h _).get? k) = _
              rw [get?_set]
              split
              · next hk =>
                  have hk' : r.get? k = some resource := hk ▸ hget
                  rw [hk', Option.map_some, Option.map_some, Option.map_some,
                    hf resource current object handover hsource]
              · rfl
            · rfl
        · rfl
    · rfl

/-- Neither does an operation that keeps the plan. -/
theorem map_perform {β : Type} {f : Resource → β}
    (hf : ∀ (resource : Resource) (current object : DeviceObject) (handover : Handover),
      resource.source = .imported current handover →
        f { resource with source := .imported object handover } = f resource)
    {op : Operation} (h : Graph.keepsPlan op = true) (r : Registry) (k : Handle) :
    ((r.perform op).value.2.get? k).map f = (r.get? k).map f := by
  cases op with
  | updateImage name image view => exact map_updateObject hf r name _ k
  | updateBuffer name buffer => exact map_updateObject hf r name _ k
  | _ => cases h

theorem sameOutline_setLifetimes (r : Registry) (lifetimeOf : Handle → Option Lifetime) :
    r.SameOutline (r.setLifetimes lifetimeOf) := by
  intro h
  have hmap : (r.setLifetimes lifetimeOf).get? h =
      (r.get? h).map fun resource => { resource with lifetime := lifetimeOf h } :=
    SlotTable.get?_mapValues _ r.table h
  rw [hmap, Option.map_map]
  rfl

theorem sameOutline_withLifetimes (r : Registry) (order : List Nat) (passes : List Pass) :
    r.SameOutline (r.withLifetimes order passes) := by
  rw [withLifetimes_eq]
  exact r.sameOutline_setLifetimes _

/-- An operation that keeps the plan keeps the outlines. -/
theorem sameOutline_perform {op : Operation} (h : Graph.keepsPlan op = true) (r : Registry) :
    r.SameOutline (r.perform op).value.2 := by
  intro k
  refine (map_perform (fun resource current object handover hsource => ?_) h r k).symm
  simp [Resource.outline, Source.outline, hsource]

end Registry

end FrameGraph
