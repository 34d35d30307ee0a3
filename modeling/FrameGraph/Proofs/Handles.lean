import FrameGraph.Proofs.Declarations

/-!
# Names and handles

Resources are registered, altered and cleared away in any order.  At any time names and live handles are
in bijection.  A handle names what it was given for until the next `clear`, and from then on nothing,
since the slot behind it has moved on to a later generation.  An operation that is rejected changes
nothing.

Principal statements: `Registry.WellFormed.get?_perform` — what becomes of a live resource — and
`Registry.Issued.act`, and `Registry.names_and_handles` for all runs.
-/

set_option autoImplicit false

namespace FrameGraph

/-! ## The generations of the slots -/

namespace SlotTable

variable {α : Type} {m m' : SlotTable α} {h : Handle}

/-- The slots are still there, at the same or at later generations. -/
def Ages (m m' : SlotTable α) : Prop :=
  ∀ (i : Nat) (slot : Slot α), m.slots[i]? = some slot →
    ∃ slot', m'.slots[i]? = some slot' ∧ slot.generation ≤ slot'.generation

theorem Ages.refl (m : SlotTable α) : m.Ages m := fun _ slot hslot => ⟨slot, hslot, Nat.le_refl _⟩

/-- A slot is replaced by one of a generation that is not earlier. -/
theorem ages_setSlot {index : Nat} {old new : Slot α} (hold : m.slots[index]? = some old)
    (hle : old.generation ≤ new.generation) (vacant : List Nat) :
    m.Ages ⟨m.slots.set index new, vacant⟩ := by
  intro i slot hslot
  have hlt : index < m.slots.length := (List.getElem?_eq_some_iff.1 hold).1
  by_cases hi : index = i
  · subst hi
    rw [hold] at hslot
    cases hslot
    exact ⟨new, List.getElem?_set_self hlt, hle⟩
  · exact ⟨slot, by rw [List.getElem?_set, if_neg hi]; exact hslot, Nat.le_refl _⟩

theorem ages_insert (hm : m.WellFormed) (a : α) : m.Ages (m.insert a).2 := by
  rcases hm.insert_cases a with ⟨-, hinsert⟩ | ⟨index, rest, g, -, hslot, hinsert⟩
  · rw [hinsert]
    intro i slot hslot
    have hlt : i < m.slots.length := (List.getElem?_eq_some_iff.1 hslot).1
    exact ⟨slot, by rw [push, List.getElem?_append_left hlt]; exact hslot, Nat.le_refl _⟩
  · rw [hinsert]
    exact ages_setSlot hslot (Nat.le_refl g) rest

theorem ages_set (m : SlotTable α) (h : Handle) (a : α) : m.Ages (m.set h a) := by
  cases h with
  | null => exact .refl m
  | slot index generation =>
      cases hget : m.get? (.slot index generation) with
      | none => simpa only [set, hget] using Ages.refl m
      | some b =>
          simp only [set, hget]
          refine ages_setSlot (get?_slot_eq_some_iff.1 hget) ?_ m.vacant
          exact Nat.le_refl generation

theorem generation_le_vacated (slot : Slot α) : slot.generation ≤ slot.vacated.generation := by
  unfold Slot.vacated
  split
  · exact Nat.le_refl _
  · exact Nat.le_succ _

theorem ages_clear (m : SlotTable α) : m.Ages m.clear := by
  intro i slot hslot
  exact ⟨slot.vacated, by simp [clear, hslot], generation_le_vacated slot⟩

/-- The slot of the handle has moved on to a later generation. -/
def Outdated (m : SlotTable α) : Handle → Prop
  | .null => False
  | .slot index generation => ∃ slot, m.slots[index]? = some slot ∧ generation < slot.generation

theorem Outdated.of_ages (hout : m.Outdated h) (hages : m.Ages m') : m'.Outdated h := by
  cases h with
  | null => exact hout
  | slot index generation =>
      obtain ⟨slot, hslot, hlt⟩ := hout
      obtain ⟨slot', hslot', hle⟩ := hages index slot hslot
      exact ⟨slot', hslot', Nat.lt_of_lt_of_le hlt hle⟩

/-- An outdated handle names nothing. -/
theorem Outdated.get?_eq_none (hout : m.Outdated h) : m.get? h = none := by
  cases h with
  | null => rfl
  | slot index generation =>
      obtain ⟨slot, hslot, hlt⟩ := hout
      simp [get?, hslot, Nat.ne_of_gt hlt]

/-- What was live before a `clear` is outdated after it. -/
theorem outdated_clear {a : α} (hget : m.get? h = some a) : m.clear.Outdated h := by
  cases h with
  | null => cases hget
  | slot index generation =>
      have hslot := get?_slot_eq_some_iff.1 hget
      exact ⟨⟨generation + 1, none⟩, by simp [clear, hslot, Slot.vacated], Nat.lt_succ_self _⟩

/-- The handle of an inserted value is not the null handle, and its slot has not moved on from it. -/
theorem insert_fresh (hm : m.WellFormed) (a : α) :
    (m.insert a).1 ≠ .null ∧ ¬ m.Outdated (m.insert a).1 := by
  rcases hm.insert_cases a with ⟨-, hinsert⟩ | ⟨index, rest, g, -, hslot, hinsert⟩
  · rw [hinsert]
    refine ⟨Handle.noConfusion, ?_⟩
    rintro ⟨slot, hslot, -⟩
    simp at hslot
  · rw [hinsert]
    refine ⟨Handle.noConfusion, ?_⟩
    rintro ⟨slot, hslot', hlt⟩
    rw [hslot] at hslot'
    cases hslot'
    exact Nat.lt_irrefl g hlt

end SlotTable

/-! ## What operations do to resources -/

namespace Resource

/-- Holds if the resource comes with the null object. -/
def hasNullObject (x : Resource) : Bool := x.importedObject?.any DeviceObject.isNull

/-- Holds if the object can take the place of that of the resource: it is not null, and the resource is
imported and of the same kind. -/
def accepts (x : Resource) (object : DeviceObject) : Bool :=
  !object.isNull && x.isImported && x.kind = object.kind

/-- The resource with another object behind it. -/
def withObject (x : Resource) (object : DeviceObject) : Resource :=
  match x.source with
  | .imported _ handover => { x with source := .imported object handover }
  | .internal _ => x

end Resource

namespace Registry

namespace Operation

/-- The resource that a registration adds. -/
def addition? : Operation → Option Resource
  | .importImage name image view info initial final =>
      some (.imported name (.image info) (.image image view) ⟨initial, final⟩)
  | .importBuffer name buffer info initial final =>
      some (.imported name (.buffer info) (.buffer buffer)
        ⟨initial.toImageState, final.toImageState⟩)
  | .createImage name info persistent => some (.internal name (.image info) persistent)
  | .createBuffer name info persistent => some (.internal name (.buffer info) persistent)
  | .markOutput _ | .updateImage _ _ _ | .updateBuffer _ _ => none

/-- The name and the object of an update. -/
def replacement? : Operation → Option (String × DeviceObject)
  | .updateImage name image view => some (name, .image image view)
  | .updateBuffer name buffer => some (name, .buffer buffer)
  | _ => none

/-- What an operation makes of a resource that is there: one of the given name is marked as an output,
or gets the object of an update. -/
def revise (op : Operation) (x : Resource) : Resource :=
  match op with
  | .markOutput name => if x.name = name then { x with isOutput := true } else x
  | _ =>
      match op.replacement? with
      | some (name, object) =>
          if x.name = name ∧ x.accepts object then x.withObject object else x
      | none => x

theorem revise_of_addition {op : Operation} {x : Resource} (hop : op.addition? = some x)
    (y : Resource) : op.revise y = y := by
  cases op <;> first | rfl | cases hop

theorem revise_of_replacement {op : Operation} {name : String} {object : DeviceObject}
    (hop : op.replacement? = some (name, object)) (y : Resource) :
    op.revise y = if y.name = name ∧ y.accepts object then y.withObject object else y := by
  cases op <;> cases hop <;> rfl

end Operation

section Outcomes

variable {r : Registry} {op : Operation} {x : Resource} {name : String} {object : DeviceObject}

/-- A resource with the null object, or under a taken name, is rejected. -/
theorem value_perform_of_addition (hop : op.addition? = some x) :
    (r.perform op).value =
      if x.hasNullObject then (.handle .null, r)
      else (.handle (r.register x).value.1, (r.register x).value.2) := by
  have himport : ∀ name info object handover,
      (r.importResource name info object handover).value =
        if (Resource.imported name info object handover).hasNullObject then (.null, r)
        else (r.register (.imported name info object handover)).value := by
    intro name info object handover
    unfold importResource
    cases hnull : object.isNull <;>
      simp [hnull, Resource.hasNullObject, Resource.imported, Resource.importedObject?]
  cases op with
  | importImage =>
      cases hop
      simp only [perform, perform.answerHandle, Logged.value_map, himport]
      split <;> rfl
  | importBuffer =>
      cases hop
      simp only [perform, perform.answerHandle, Logged.value_map, himport]
      split <;> rfl
  | createImage | createBuffer => cases hop; rfl
  | _ => cases hop

theorem value_perform_of_replacement (hop : op.replacement? = some (name, object)) :
    (r.perform op).value =
      (.accepted (r.updateObject name object).value.1, (r.updateObject name object).value.2) := by
  cases op <;> cases hop <;> rfl

variable (hr : r.WellFormed)

include hr

theorem WellFormed.value_markOutput {h : Handle} (hget : r.get? h = some x) :
    (r.markOutput x.name).value = (true, r.set h { x with isOutput := true }) := by
  simp [markOutput, hr.handle?_eq hget, hr.named?_eq hget]

/-- An update is accepted by an imported resource of the same kind. -/
theorem WellFormed.value_updateObject {h : Handle} (hget : r.get? h = some x)
    (haccepts : x.accepts object = true) :
    (r.updateObject x.name object).value = (true, r.set h (x.withObject object)) := by
  simp only [Resource.accepts, Bool.and_eq_true, Bool.not_eq_true', decide_eq_true_eq] at haccepts
  obtain ⟨⟨hnull, himported⟩, hkind⟩ := haccepts
  cases hsource : x.source with
  | internal persistent => simp [Resource.isImported, hsource] at himported
  | imported current handover =>
      have hcurrent : current.kind = object.kind := by
        rw [(hr.coherent h x hget current handover hsource).1, hkind]
      simp [updateObject, hnull, hr.handle?_eq hget, hr.named?_eq hget, hsource, hcurrent,
        Resource.withObject]

/-- Any other update is rejected. -/
theorem WellFormed.value_updateObject_of_not
    (hnot : ∀ h x, r.get? h = some x → x.name = name → x.accepts object = false) :
    (r.updateObject name object).value = (false, r) := by
  cases hnull : object.isNull with
  | true => simp [updateObject, hnull]
  | false =>
      cases hfound : r.handle? name with
      | none => simp [updateObject, hnull, hfound]
      | some h =>
          obtain ⟨x, hget, rfl⟩ := (hr.indexed name h).1 hfound
          have hreject := hnot h x hget rfl
          cases hsource : x.source with
          | internal persistent =>
              simp [updateObject, hnull, hfound, hr.named?_eq hget, hsource]
          | imported current handover =>
              have hkind : ¬ current.kind = object.kind := by
                rw [(hr.coherent h x hget current handover hsource).1]
                simpa [Resource.accepts, hnull, Resource.isImported, hsource] using hreject
              simp [updateObject, hnull, hfound, hr.named?_eq hget, hsource, hkind]

end Outcomes

/-! ## Alterations -/

/-- What an operation that alters a resource does: if a live one suits, it is accepted and changes this
one alone; otherwise it is rejected and changes nothing. -/
inductive Alters (r : Registry) (op : Operation) (suits : Resource → Prop)
    (change : Resource → Resource) : Prop
  | accepted (h : Handle) (x : Resource) : r.get? h = some x → suits x →
      (r.perform op).value.1 = .accepted true →
      (∀ k, (r.perform op).value.2.get? k = if k = h then some (change x) else r.get? k) →
      r.Alters op suits change
  | rejected : (∀ h x, r.get? h = some x → ¬ suits x) → (r.perform op).value = (.accepted false, r) →
      r.Alters op suits change

/-- If only one resource can suit, all of them can be taken to be changed. -/
theorem Alters.get?_eq_map {r : Registry} {op : Operation} {suits : Resource → Prop}
    {change f : Resource → Resource} (ha : r.Alters op suits change)
    (hsuits : ∀ x, suits x → f x = change x) (hnot : ∀ x, ¬ suits x → f x = x)
    (honce : ∀ h k x y, r.get? h = some x → r.get? k = some y → suits x → suits y → h = k)
    (k : Handle) : (r.perform op).value.2.get? k = (r.get? k).map f := by
  cases hk : r.get? k with
  | none =>
      cases ha with
      | accepted h x hget _ _ hget' =>
          have hne : k ≠ h := by
            rintro rfl
            rw [hget] at hk
            cases hk
          rw [hget', if_neg hne, hk]
          rfl
      | rejected _ hvalue => rw [hvalue, hk]; rfl
  | some z =>
      cases ha with
      | accepted h x hget hx _ hget' =>
          rw [hget']
          split
          · next heq =>
              rw [heq, hget, Option.some.injEq] at hk
              rw [Option.map_some, ← hk, hsuits x hx]
          · next hne =>
              have hz : ¬ suits z := fun hz => hne (honce k h z x hk hget hz hx)
              rw [hk, Option.map_some, hnot z hz]
      | rejected hnone hvalue => rw [hvalue, hk, Option.map_some, hnot z (hnone k z hk)]

theorem ages_markOutput (r : Registry) (name : String) :
    r.table.Ages (r.markOutput name).value.2.table := by
  unfold markOutput
  split
  · apply SlotTable.ages_set
  · exact .refl _

theorem ages_updateObject (r : Registry) (name : String) (object : DeviceObject) :
    r.table.Ages (r.updateObject name object).value.2.table := by
  unfold updateObject
  split
  · exact .refl _
  · split
    · split
      · split
        · apply SlotTable.ages_set
        · exact .refl _
      · exact .refl _
    · exact .refl _

section Performed

variable {r : Registry} {op : Operation} {x : Resource} (hr : r.WellFormed)

include hr

theorem WellFormed.alters_markOutput (name : String) :
    r.Alters (.markOutput name) (fun x => x.name = name) fun x => { x with isOutput := true } := by
  cases hfound : r.handle? name with
  | none =>
      refine .rejected (fun h x hget => hr.name_ne_of_free hfound hget) ?_
      simp [perform, perform.answerAccepted, markOutput, hfound]
  | some h =>
      obtain ⟨x, hget, rfl⟩ := (hr.indexed name h).1 hfound
      have hvalue := hr.value_markOutput hget
      refine .accepted h x hget rfl (by simp [perform, perform.answerAccepted, hvalue]) fun k => ?_
      simp only [perform, perform.answerAccepted, Logged.value_map, hvalue]
      rw [get?_set]
      by_cases hk : h = k
      · simp [← hk, hget]
      · simp [hk, Ne.symm hk]

theorem WellFormed.alters_updateObject {name : String} {object : DeviceObject}
    (hop : op.replacement? = some (name, object)) :
    r.Alters op (fun x => x.name = name ∧ x.accepts object = true) (·.withObject object) := by
  by_cases hsuits : ∃ h x, r.get? h = some x ∧ x.name = name ∧ x.accepts object = true
  · obtain ⟨h, x, hget, rfl, haccepts⟩ := hsuits
    have hvalue := hr.value_updateObject hget haccepts
    refine .accepted h x hget ⟨rfl, haccepts⟩ ?_ fun k => ?_
    · rw [value_perform_of_replacement hop, hvalue]
    · rw [value_perform_of_replacement hop, hvalue, get?_set]
      by_cases hk : h = k
      · simp [← hk, hget]
      · simp [hk, Ne.symm hk]
  · refine .rejected (fun h x hget hx => hsuits ⟨h, x, hget, hx⟩) ?_
    rw [value_perform_of_replacement hop, hr.value_updateObject_of_not]
    intro h x hget hname
    exact eq_false_of_ne_true fun haccepts => hsuits ⟨h, x, hget, hname, haccepts⟩

/-- An operation that adds nothing alters the resource of its name, or nothing. -/
theorem WellFormed.get?_perform_of_none (hop : op.addition? = none) (k : Handle) :
    (r.perform op).value.2.get? k = (r.get? k).map op.revise := by
  cases hrep : op.replacement? with
  | some replacement =>
      obtain ⟨name, object⟩ := replacement
      refine (hr.alters_updateObject hrep).get?_eq_map (fun x hx => ?_) (fun x hx => ?_)
        (fun h k x y hx hy hsx hsy => hr.names h k x y hx hy (hsx.1.trans hsy.1.symm)) k
      · rw [Operation.revise_of_replacement hrep, if_pos hx]
      · rw [Operation.revise_of_replacement hrep, if_neg hx]
  | none =>
      cases op with
      | markOutput name =>
          refine (hr.alters_markOutput name).get?_eq_map (fun x hx => if_pos hx) (fun x hx => if_neg hx)
            (fun h k x y hx hy hsx hsy => hr.names h k x y hx hy (hsx.trans hsy.symm)) k
      | updateImage | updateBuffer => cases hrep
      | _ => cases hop

/-- **What becomes of a live resource**: no operation takes it away, and only those that name it alter
it. -/
theorem WellFormed.get?_perform {h : Handle} (hget : r.get? h = some x) (op : Operation) :
    (r.perform op).value.2.get? h = some (op.revise x) := by
  cases hop : op.addition? with
  | none => rw [hr.get?_perform_of_none hop, hget]; rfl
  | some y =>
      rw [value_perform_of_addition hop, Operation.revise_of_addition hop]
      split
      · exact hget
      · cases hfree : r.handle? y.name with
        | some k => rw [register_of_taken hfree]; exact hget
        | none => rw [register_of_free hfree]; exact hr.get?_add_of_live y hget

/-- No operation takes a slot back to an earlier generation. -/
theorem WellFormed.ages_perform (op : Operation) : r.table.Ages (r.perform op).value.2.table := by
  cases hop : op.addition? with
  | some y =>
      rw [value_perform_of_addition hop]
      split
      · exact .refl _
      · cases hfree : r.handle? y.name with
        | some k => rw [register_of_taken hfree]; exact .refl _
        | none => rw [register_of_free hfree]; exact SlotTable.ages_insert hr.table y
  | none =>
      cases op with
      | markOutput name => exact ages_markOutput r name
      | updateImage name image view => exact ages_updateObject r name (.image image view)
      | updateBuffer name buffer => exact ages_updateObject r name (.buffer buffer)
      | _ => cases hop

end Performed

/-! ## Handles that were handed out -/

/-- Performs an operation, or removes every resource. -/
inductive Action where
  | perform (op : Operation)
  | clear
  deriving Repr

/-- The registry after an action. -/
def act (r : Registry) : Action → Registry
  | .perform op => (r.perform op).value.2
  | .clear => r.clear

/-- The registry after some actions. -/
def run (r : Registry) (actions : List Action) : Registry := actions.foldl act r

/-- The handle was handed out: it names a resource, or its slot has moved on. -/
def Issued (r : Registry) (h : Handle) : Prop :=
  (∃ x, r.get? h = some x) ∨ r.table.Outdated h

section Issued

variable {r : Registry} {h : Handle} {x : Resource} (hr : r.WellFormed)

include hr

theorem WellFormed.act (action : Action) : (r.act action).WellFormed := by
  cases action with
  | perform op => exact (hr.evolves_perform op).wellFormed
  | clear => exact hr.clear

theorem WellFormed.run (actions : List Action) : (r.run actions).WellFormed := by
  induction actions generalizing r with
  | nil => exact hr
  | cons action rest ih => exact ih (hr.act action)

theorem WellFormed.outdated_act (hout : r.table.Outdated h) (action : Action) :
    (r.act action).table.Outdated h := by
  cases action with
  | perform op => exact hout.of_ages (hr.ages_perform op)
  | clear => exact hout.of_ages (SlotTable.ages_clear r.table)

/-- An outdated handle stays outdated. -/
theorem WellFormed.outdated_run (hout : r.table.Outdated h) (actions : List Action) :
    (r.run actions).table.Outdated h := by
  induction actions generalizing r with
  | nil => exact hout
  | cons action rest ih => exact ih (hr.act action) (hr.outdated_act hout action)

/-- **A handle that was handed out is never handed out anew**: it goes on naming its resource, or its
slot has moved on for good. -/
theorem WellFormed.issued_act (hissued : r.Issued h) (action : Action) : (r.act action).Issued h := by
  obtain ⟨x, hget⟩ | hout := hissued
  · cases action with
    | perform op => exact .inl ⟨op.revise x, hr.get?_perform hget op⟩
    | clear => exact .inr (SlotTable.outdated_clear hget)
  · exact .inr (hr.outdated_act hout action)

theorem WellFormed.issued_run (hissued : r.Issued h) (actions : List Action) :
    (r.run actions).Issued h := by
  induction actions generalizing r with
  | nil => exact hissued
  | cons action rest ih => exact ih (hr.act action) (hr.issued_act hissued action)

/-- Until the next `clear` a live handle names its resource, as the operations have altered it. -/
theorem WellFormed.get?_run (hget : r.get? h = some x) (operations : List Operation) :
    (r.run (operations.map .perform)).get? h =
      some (operations.foldl (fun y op => op.revise y) x) := by
  induction operations generalizing r x with
  | nil => exact hget
  | cons op rest ih => exact ih (hr.act (.perform op)) (hr.get?_perform hget op)

/-- After a `clear` it names nothing, ever. -/
theorem WellFormed.get?_run_clear (hissued : r.Issued h) (earlier later : List Action) :
    (r.run (earlier ++ .clear :: later)).get? h = none := by
  have hrun : r.run (earlier ++ .clear :: later) = ((r.run earlier).clear).run later := by
    rw [Registry.run, List.foldl_append]
    rfl
  have hr' := hr.run earlier
  have hout : (r.run earlier).clear.table.Outdated h := by
    obtain ⟨x, hget⟩ | hout := hr.issued_run hissued earlier
    · exact SlotTable.outdated_clear hget
    · exact hr'.outdated_act hout .clear
  rw [hrun]
  exact (hr'.clear.outdated_run hout later).get?_eq_none

end Issued

/-! ## Runs of operations -/

/-- What a registration does: a resource with the null object, or under a taken name, is rejected, and
nothing changes.  Any other resource gets a handle that was never handed out before; this names the
resource until the next `clear`, and nothing from then on. -/
inductive Adds (r : Registry) (op : Operation) (x : Resource) : Prop
  | rejected :
      (x.hasNullObject = true ∨ ∃ h y, r.get? h = some y ∧ y.name = x.name) →
      (r.perform op).value = (.handle .null, r) → r.Adds op x
  | accepted (h : Handle) :
      x.hasNullObject = false → (∀ k y, r.get? k = some y → y.name ≠ x.name) →
      (r.perform op).value.1 = .handle h → h ≠ .null → ¬ r.Issued h →
      (∀ operations : List Operation, ((r.perform op).value.2.run (operations.map .perform)).get? h =
        some (operations.foldl (fun y op => op.revise y) x)) →
      (∀ earlier later : List Action,
        ((r.perform op).value.2.run (earlier ++ .clear :: later)).get? h = none) →
      r.Adds op x

/-- **A registration adds its resource under a handle of its own, or nothing.** -/
theorem WellFormed.adds {r : Registry} (hr : r.WellFormed) {op : Operation} {x : Resource}
    (hop : op.addition? = some x) : r.Adds op x := by
  have hvalue := value_perform_of_addition (r := r) hop
  cases hnull : x.hasNullObject with
  | true => exact .rejected (.inl hnull) (by rw [hvalue, if_pos hnull])
  | false =>
      rw [hnull] at hvalue
      cases hfree : r.handle? x.name with
      | some k =>
          obtain ⟨y, hget, hname⟩ := (hr.indexed x.name k).1 hfree
          refine .rejected (.inr ⟨k, y, hget, hname⟩) ?_
          rw [hvalue, register_of_taken hfree]
          rfl
      | none =>
          rw [register_of_free hfree] at hvalue
          obtain ⟨hne, hnot⟩ := SlotTable.insert_fresh hr.table x
          have hnew : (r.perform op).value.2.get? (r.add x).1 = some x := by
            rw [hvalue]
            exact SlotTable.get?_insert r.table x
          have hr' := (hr.evolves_perform op).wellFormed
          refine .accepted (r.add x).1 hnull (fun k y hget => hr.name_ne_of_free hfree hget)
            (by rw [hvalue]; rfl) hne ?_ (hr'.get?_run hnew) (hr'.get?_run_clear (.inl ⟨x, hnew⟩))
          rintro (⟨y, hget⟩ | hout)
          · rw [hr.get?_add_fresh] at hget
            cases hget
          · exact hnot hout

/-- **Names and handles are in bijection, and stay so.**  After any run of operations and `clear`s: a
name leads to a handle exactly if that names a resource of the name, and no two handles name resources
of one name.  A registration adds its resource under a handle of its own, which names it until the next
`clear` and nothing afterwards; marking and updating alter the resource of their name alone; and what is
rejected changes nothing. -/
theorem names_and_handles (actions : List Action) :
    let r := empty.run actions
    (∀ name h, r.handle? name = some h ↔ ∃ x, r.get? h = some x ∧ x.name = name) ∧
      (∀ h k x y, r.get? h = some x → r.get? k = some y → h ≠ k → x.name ≠ y.name) ∧
      (∀ op x, op.addition? = some x → r.Adds op x) ∧
      (∀ op name object, op.replacement? = some (name, object) →
        r.Alters op (fun x => x.name = name ∧ x.accepts object = true) (·.withObject object)) ∧
      ∀ name, r.Alters (.markOutput name) (fun x => x.name = name)
        fun x => { x with isOutput := true } := by
  intro r
  have hr : r.WellFormed := wellFormed_empty.run actions
  refine ⟨hr.indexed, fun h k x y hx hy hne hname => ?_,
    fun op x hop => hr.adds hop, fun op name object hop => hr.alters_updateObject hop,
    hr.alters_markOutput⟩
  exact hne (hr.names h k x y hx hy hname)

end Registry

end FrameGraph
