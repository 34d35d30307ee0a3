import Mathlib.Data.List.Perm.Basic
import FrameGraph.Proofs.Memory.Device
import FrameGraph.Proofs.Timeline

/-!
# The ledger of a device

Whoever works with a device keeps a list of what is held on it: memory, images and buffers.  The ledger
is in order if exactly that is there, and if nothing that was given up is held again.  A request adds
to the list what the device hands out, which was never handed out before; an order takes one thing off
it.

Principal statements: `Turnover.allocate`, `Turnover.create`, `Turnover.destroy`, `Turnover.free` and
`Turnover.foldl`, for orders one after another.
-/

set_option autoImplicit false

namespace FrameGraph

/-! ## Handles that were handed out -/

namespace SlotTable

variable {α : Type} {m : SlotTable α} {h k : Handle} {a : α}

/-- The handles of the values. -/
def handles (m : SlotTable α) : List Handle := m.toList.map (·.1)

theorem mem_handles : h ∈ m.handles ↔ m.contains h = true := by
  rw [handles, List.mem_map, contains, Option.isSome_iff_exists]
  constructor
  · rintro ⟨⟨_, a⟩, hmem, rfl⟩
    exact ⟨a, mem_toList.1 hmem⟩
  · rintro ⟨a, ha⟩
    exact ⟨(h, a), mem_toList.2 ha, rfl⟩

/-- The handle was handed out: its slot is filled at this generation, or a later one has begun. -/
def Issued (m : SlotTable α) : Handle → Prop
  | .null => False
  | .slot index generation => ∃ slot, m.slots[index]? = some slot ∧
      (generation < slot.generation ∨ generation = slot.generation ∧ slot.content.isSome = true)

theorem issued_of_contains (h : m.contains k = true) : m.Issued k := by
  cases k with
  | null => cases h
  | slot index generation =>
      unfold contains get? at h
      dsimp only at h
      split at h
      · cases h
      · next slot hslot =>
          split at h
          · next hgeneration => exact ⟨slot, hslot, .inr ⟨hgeneration.symm, h⟩⟩
          · cases h

/-- A handle that was handed out is not handed out again. -/
theorem WellFormed.not_issued_insert (hm : m.WellFormed) (a : α) : ¬ m.Issued (m.insert a).1 := by
  rcases hm.insert_cases a with ⟨-, hinsert⟩ | ⟨index, rest, g, -, hslot, hinsert⟩
  · rw [hinsert]
    rintro ⟨slot, hslot, -⟩
    rw [List.getElem?_eq_none (Nat.le_refl _)] at hslot
    cases hslot
  · rw [hinsert]
    rintro ⟨slot, hslot', hissued⟩
    obtain rfl : ⟨g, none⟩ = slot := Option.some.inj (hslot.symm.trans hslot')
    rcases hissued with hlater | ⟨-, hfilled⟩
    · exact absurd hlater (Nat.lt_irrefl g)
    · cases hfilled

/-- What was handed out stays so. -/
theorem WellFormed.issued_insert (hm : m.WellFormed) (a : α) (hk : m.Issued k) :
    (m.insert a).2.Issued k := by
  cases k with
  | null => exact hk
  | slot i generation =>
      obtain ⟨slot, hold, hissued⟩ := hk
      have hlt : i < m.slots.length := (List.getElem?_eq_some_iff.1 hold).1
      rcases hm.insert_cases a with ⟨-, hinsert⟩ | ⟨index, rest, g, -, hslot, hinsert⟩
      · rw [hinsert]
        exact ⟨slot, (List.getElem?_append_left hlt).trans hold, hissued⟩
      · rw [hinsert]
        by_cases hi : index = i
        · subst hi
          obtain rfl : ⟨g, none⟩ = slot := Option.some.inj (hslot.symm.trans hold)
          refine ⟨⟨g, some a⟩, List.getElem?_set_self hlt, ?_⟩
          rcases hissued with hlater | ⟨-, hfilled⟩
          · exact .inl hlater
          · cases hfilled
        · exact ⟨slot, (List.getElem?_set_ne hi).trans hold, hissued⟩

theorem issued_remove (m : SlotTable α) (h : Handle) (hk : m.Issued k) : (m.remove h).Issued k := by
  cases h with
  | null => exact hk
  | slot index generation =>
      cases hget : m.get? (.slot index generation) with
      | none => simpa only [remove, hget] using hk
      | some b =>
          simp only [remove, hget]
          cases k with
          | null => exact hk
          | slot i g =>
              obtain ⟨slot, hold, hissued⟩ := hk
              by_cases hi : index = i
              · subst hi
                have hlt : index < m.slots.length := (List.getElem?_eq_some_iff.1 hold).1
                simp only [get?, hold] at hget
                split at hget
                · next hgeneration =>
                    refine ⟨⟨generation + 1, none⟩, List.getElem?_set_self hlt, .inl ?_⟩
                    show g < generation + 1
                    omega
                · cases hget
              · exact ⟨slot, (List.getElem?_set_ne hi).trans hold, hissued⟩

/-- Inserting a value adds its handle. -/
theorem WellFormed.handles_insert (hm : m.WellFormed) (a : α) :
    (m.insert a).2.handles.Perm ((m.insert a).1 :: m.handles) := by
  obtain ⟨hnone, -⟩ := hm.get?_insert a .null
  have hnew : (m.insert a).1 ∉ m.handles := by
    rw [mem_handles, contains, hnone]
    exact Bool.false_ne_true
  refine (List.perm_ext_iff_of_nodup (nodup_handles _)
    (List.nodup_cons.2 ⟨hnew, nodup_handles m⟩)).2 fun k => ?_
  show k ∈ (m.insert a).2.handles ↔ k ∈ (m.insert a).1 :: m.handles
  rw [List.mem_cons, mem_handles, mem_handles, contains, contains, (hm.get?_insert a k).2]
  by_cases hk : (m.insert a).1 = k
  · simp [hk]
  · simp [hk, Ne.symm hk]

/-- Removing a value takes its handle away. -/
theorem handles_remove (h : m.contains k = true) : m.handles.Perm (k :: (m.remove k).handles) := by
  have hgone : k ∉ (m.remove k).handles := by
    rw [mem_handles, contains, get?_remove, if_pos rfl]
    exact Bool.false_ne_true
  refine (List.perm_ext_iff_of_nodup (nodup_handles m)
    (List.nodup_cons.2 ⟨hgone, nodup_handles _⟩)).2 fun i => ?_
  show i ∈ m.handles ↔ i ∈ k :: (m.remove k).handles
  rw [List.mem_cons, mem_handles, mem_handles, contains, contains, get?_remove]
  by_cases hi : k = i
  · subst hi
    simpa [contains] using h
  · simp [hi, Ne.symm hi]

end SlotTable

/-! ## The ledger -/

/-- The order to give an object up. -/
def DeviceObject.disposal : DeviceObject → Disposal
  | .image i _ => .image i
  | .buffer b => .buffer b

namespace Device

/-- Everything that is there on the device, as it would be given up. -/
def live (d : Device) : List Disposal :=
  d.memory.handles.map .memory ++
    ((d.images.map (·.1)).map .image ++ (d.buffers.map (·.1)).map .buffer)

section OneMore

variable {more less : Device}

theorem live_perm_memory {memory : Handle}
    (hmemory : more.memory.handles.Perm (memory :: less.memory.handles))
    (himages : more.images = less.images) (hbuffers : more.buffers = less.buffers) :
    more.live.Perm (.memory memory :: less.live) := by
  unfold live
  rw [himages, hbuffers]
  exact (hmemory.map Disposal.memory).append_right _

theorem live_perm_image {image : Nat}
    (himages : (more.images.map (·.1)).Perm (image :: less.images.map (·.1)))
    (hmemory : more.memory = less.memory) (hbuffers : more.buffers = less.buffers) :
    more.live.Perm (.image image :: less.live) := by
  unfold live
  rw [hmemory, hbuffers]
  have hobjects := (himages.map Disposal.image).append_right
    ((less.buffers.map (·.1)).map Disposal.buffer)
  exact (hobjects.append_left _).trans List.perm_middle

theorem live_perm_buffer {buffer : Nat}
    (hbuffers : (more.buffers.map (·.1)).Perm (buffer :: less.buffers.map (·.1)))
    (hmemory : more.memory = less.memory) (himages : more.images = less.images) :
    more.live.Perm (.buffer buffer :: less.live) := by
  unfold live
  rw [hmemory, himages]
  have hobjects := ((hbuffers.map Disposal.buffer).append_left
    ((less.images.map (·.1)).map Disposal.image)).trans List.perm_middle
  exact (hobjects.append_left _).trans List.perm_middle

end OneMore

private theorem perm_append_entry (entries : List (Nat × Handle)) (entry : Nat × Handle) :
    ((entries ++ [entry]).map (·.1)).Perm (entry.1 :: entries.map (·.1)) := by
  rw [List.map_append]
  exact List.perm_append_comm

/-- A number that stands once among entries goes with its entry. -/
private theorem perm_filter_ne {entries : List (Nat × Handle)} {i : Nat}
    (hnodup : (entries.map (·.1)).Nodup) (hmem : i ∈ entries.map (·.1)) :
    (entries.map (·.1)).Perm (i :: (entries.filter fun entry => entry.1 ≠ i).map (·.1)) := by
  have herase : (entries.filter fun entry => entry.1 ≠ i).map (·.1) =
      (entries.map (·.1)).erase i := by
    rw [hnodup.erase_eq_filter, List.filter_map]
    refine congrArg _ (List.filter_congr fun entry _ => ?_)
    by_cases hi : entry.1 = i <;> simp [hi]
  rw [herase]
  exact List.perm_cons_erase hmem

/-- The device has handed this out at some time. -/
def Issued (d : Device) : Disposal → Prop
  | .image image => image ≤ d.lastObject
  | .buffer buffer => buffer ≤ d.lastObject
  | .memory memory => d.memory.Issued memory

/-- Counting on, a device forgets nothing that it has handed out. -/
theorem Issued.of_le {d d' : Device} (hmemory : d'.memory = d.memory)
    (hlast : d.lastObject ≤ d'.lastObject) {x : Disposal} (hx : d.Issued x) : d'.Issued x := by
  cases x with
  | image image => exact Nat.le_trans hx hlast
  | buffer buffer => exact Nat.le_trans hx hlast
  | memory memory =>
      show d'.memory.Issued memory
      rw [hmemory]
      exact hx

/-- What is held is what is there; nothing is held twice, or given up twice, or both; and all of it
was handed out by the device. -/
structure Ledger (d : Device) (held : List Disposal) : Prop where
  device : d.WellFormed
  live : d.live.Perm held
  nodup : (d.disposals ++ held).Nodup
  issued : ∀ x ∈ d.disposals ++ held, d.Issued x

theorem ledger_fresh (policy : DevicePolicy) : Ledger { policy } [] where
  device := wellFormed_fresh policy
  live := .refl _
  nodup := List.nodup_nil
  issued := fun x hx => by cases hx

/-- From one state of the ledger to a later one.  What was given up in between, and what is held now,
was held before or is newer. -/
structure Turnover (d : Device) (held : List Disposal) (d' : Device) (held' : List Disposal) :
    Prop where
  ledger : d'.Ledger held'
  issued : ∀ x, d.Issued x → d'.Issued x
  disposed : ∃ gone, d'.disposals = d.disposals ++ gone ∧
    ∀ x ∈ gone ++ held', x ∈ held ∨ ¬ d.Issued x

variable {d d' : Device} {held held' : List Disposal}

theorem Ledger.perm (h : d.Ledger held) (hperm : held.Perm held') : d.Ledger held' where
  device := h.device
  live := h.live.trans hperm
  nodup := (hperm.append_left _).nodup_iff.1 h.nodup
  issued := fun x hx => h.issued x ((hperm.append_left _).mem_iff.2 hx)

namespace Turnover

/-- Nothing is done, but what is held is listed in another order. -/
theorem regroup (h : d.Ledger held) (hperm : held.Perm held') : Turnover d held d held' where
  ledger := h.perm hperm
  issued := fun _ hx => hx
  disposed := ⟨[], (List.append_nil _).symm, fun _ hx => .inl (hperm.mem_iff.2 hx)⟩

theorem refl (h : d.Ledger held) : Turnover d held d held := regroup h (.refl held)

theorem trans {d'' : Device} {held'' : List Disposal} (h : Turnover d held d' held')
    (h' : Turnover d' held' d'' held'') : Turnover d held d'' held'' := by
  obtain ⟨gone, hgone, horigin⟩ := h.disposed
  obtain ⟨gone', hgone', horigin'⟩ := h'.disposed
  refine ⟨h'.ledger, fun x hx => h'.issued x (h.issued x hx), gone ++ gone', ?_, fun x hx => ?_⟩
  · rw [hgone', hgone, List.append_assoc]
  · rw [List.append_assoc, List.mem_append] at hx
    rcases hx with hx | hx
    · exact horigin x (List.mem_append_left _ hx)
    · rcases horigin' x hx with hheld | hnew
      · exact horigin x (List.mem_append_right _ hheld)
      · exact .inr fun hissued => hnew (h.issued x hissued)

theorem regroup_right (h : Turnover d held d' held') {held'' : List Disposal}
    (hperm : held'.Perm held'') : Turnover d held d' held'' :=
  h.trans (regroup h.ledger hperm)

/-- Commands do not matter to the ledger. -/
theorem withCommands (h : Turnover d held d' held') (commands : List Command) :
    Turnover d held { d' with commands } held' where
  ledger :=
    ⟨⟨h.ledger.device.table, h.ledger.device.images, h.ledger.device.buffers⟩, h.ledger.live,
      h.ledger.nodup, fun x hx => (h.ledger.issued x hx).of_le rfl (Nat.le_refl _)⟩
  issued := fun x hx => (h.issued x hx).of_le rfl (Nat.le_refl _)
  disposed := h.disposed

/-! ## Requests -/

/-- What is noted down does not matter to the ledger. -/
theorem note (h : Turnover d held d' held') (call : DeviceCall) :
    Turnover d held (d'.note call) held' where
  ledger :=
    ⟨h.ledger.device.note call, h.ledger.live, h.ledger.nodup,
      fun x hx => (h.ledger.issued x hx).of_le rfl (Nat.le_refl _)⟩
  issued := fun x hx => (h.issued x hx).of_le rfl (Nat.le_refl _)
  disposed := h.disposed

/-- The device hands out something new. -/
theorem handOut (h : d.Ledger held) {x : Disposal} (hdevice : d'.WellFormed)
    (hlive : d'.live.Perm (x :: d.live)) (hdisposals : d'.disposals = d.disposals)
    (hnew : ¬ d.Issued x) (hissued : d'.Issued x) (hkept : ∀ y, d.Issued y → d'.Issued y) :
    Turnover d held d' (x :: held) where
  ledger := by
    have hperm : (d'.disposals ++ x :: held).Perm (x :: (d.disposals ++ held)) := by
      rw [hdisposals]
      exact List.perm_middle
    refine ⟨hdevice, hlive.trans (h.live.cons x), ?_, fun y hy => ?_⟩
    · exact hperm.nodup_iff.2 (List.nodup_cons.2 ⟨fun hx => hnew (h.issued x hx), h.nodup⟩)
    · rcases List.mem_cons.1 (hperm.mem_iff.1 hy) with rfl | hy
      · exact hissued
      · exact hkept y (h.issued y hy)
  issued := hkept
  disposed := by
    refine ⟨[], by rw [hdisposals, List.append_nil], fun y hy => ?_⟩
    rcases List.mem_cons.1 hy with rfl | hy
    · exact .inr hnew
    · exact .inl hy

/-- What the answer to a request adds to what is held: nothing, if the request was refused. -/
def answered {α : Type} (things : α → List Disposal) : Except DeviceError α → List Disposal
  | .error _ => []
  | .ok a => things a

/-- **A request for memory** is refused, or the memory is held from now on. -/
theorem allocate (h : d.Ledger held) {requirements : Requirements} {name : String}
    {granted : Except DeviceError Handle}
    (hok : d.allocate requirements name = .ok (granted, d')) :
    Turnover d held d' (answered (fun memory => [.memory memory]) granted ++ held) := by
  have hallocated := h.device.allocate hok
  obtain ⟨error, rfl, rfl⟩ | ⟨rfl, rfl⟩ := allocate_cases hok
  · exact (refl h).note _
  · have hnew := h.device.table.not_issued_insert requirements.size
    refine handOut h hallocated.1 ?_ rfl hnew ?_ fun y hy => ?_
    · exact live_perm_memory (h.device.table.handles_insert requirements.size) rfl rfl
    · exact SlotTable.issued_of_contains (hallocated.2.2 _ rfl).2
    · cases y with
      | image image => exact hy
      | buffer buffer => exact hy
      | memory memory => exact h.device.table.issued_insert requirements.size hy

/-- **A request for an object** is refused, or the object is held from now on. -/
theorem create (h : d.Ledger held) (memory : Handle) (kind : ResourceKind) (name : String) :
    Turnover d held (d.create memory kind name).2
      (answered (fun object => [object.disposal]) (d.create memory kind name).1 ++ held) := by
  have hcreated := (h.device.create memory kind name).1
  rw [create_eq] at hcreated ⊢
  obtain ⟨error, hrefused⟩ | hgranted := d.tryCreate_cases memory kind name
  · rw [hrefused]
    exact (refl h).note _
  · have hnew : ¬ d.lastObject + 1 ≤ d.lastObject := Nat.not_succ_le_self _
    cases kind with
    | image =>
        rw [hgranted] at hcreated ⊢
        refine handOut h hcreated ?_ rfl hnew (Nat.le_succ _) fun y hy => ?_
        · exact live_perm_image (perm_append_entry ..) rfl rfl
        · refine Issued.of_le ?_ ?_ hy
          · rfl
          · exact Nat.le_add_right d.lastObject 2
    | buffer =>
        rw [hgranted] at hcreated ⊢
        refine handOut h hcreated ?_ rfl hnew (Nat.le_refl _) fun y hy => ?_
        · exact live_perm_buffer (perm_append_entry ..) rfl rfl
        · refine Issued.of_le ?_ ?_ hy
          · rfl
          · exact Nat.le_succ d.lastObject

/-! ## Orders -/

/-- Something that is held is given up. -/
theorem giveUp {x : Disposal} (h : d.Ledger (x :: held)) (hdevice : d'.WellFormed)
    (hlive : d.live.Perm (x :: d'.live)) (hdisposals : d'.disposals = d.disposals ++ [x])
    (hkept : ∀ y, d.Issued y → d'.Issued y) : Turnover d (x :: held) d' held where
  ledger := by
    have hsplit : d'.disposals ++ held = d.disposals ++ x :: held := by
      rw [hdisposals, List.append_assoc]
      rfl
    refine ⟨hdevice, (hlive.symm.trans h.live).cons_inv, ?_, ?_⟩
    · rw [hsplit]
      exact h.nodup
    · rw [hsplit]
      exact fun y hy => hkept y (h.issued y hy)
  issued := hkept
  disposed := ⟨[x], hdisposals, fun _ hy => .inl hy⟩

/-- **An order to destroy an object** that is held. -/
theorem destroy {object : DeviceObject} (h : d.Ledger (object.disposal :: held)) :
    Turnover d (object.disposal :: held) (d.destroy object) held := by
  have hnodup : d.live.Nodup := h.live.nodup_iff.2 (List.nodup_append.1 h.nodup).2.1
  have hmem : object.disposal ∈ d.live := h.live.mem_iff.2 List.mem_cons_self
  obtain ⟨himages, hbuffers, -⟩ := List.nodup_append.1 (List.nodup_append.1 hnodup).2.1
  cases object with
  | image image view =>
      have hthere : image ∈ d.images.map (·.1) := by
        simpa [live, DeviceObject.disposal] using hmem
      refine giveUp h (h.device.destroy (.image image view)) ?_ rfl fun y hy => ?_
      · exact live_perm_image (perm_filter_ne (himages.of_map _) hthere) rfl rfl
      · exact hy.of_le rfl (Nat.le_refl _)
  | buffer buffer =>
      have hthere : buffer ∈ d.buffers.map (·.1) := by
        simpa [live, DeviceObject.disposal] using hmem
      refine giveUp h (h.device.destroy (.buffer buffer)) ?_ rfl fun y hy => ?_
      · exact live_perm_buffer (perm_filter_ne (hbuffers.of_map _) hthere) rfl rfl
      · exact hy.of_le rfl (Nat.le_refl _)

/-- **An order to free memory** that is held. -/
theorem free {memory : Handle} (h : d.Ledger (.memory memory :: held)) :
    Turnover d (.memory memory :: held) (d.free memory) held := by
  have hmem : Disposal.memory memory ∈ d.live := h.live.mem_iff.2 List.mem_cons_self
  have hcontains : d.memory.contains memory = true := by
    rw [← SlotTable.mem_handles]
    simpa [live] using hmem
  refine giveUp h (h.device.free memory) ?_ rfl fun y hy => ?_
  · exact live_perm_memory (SlotTable.handles_remove hcontains) rfl rfl
  · cases y with
    | image image => exact hy
    | buffer buffer => exact hy
    | memory other => exact SlotTable.issued_remove d.memory memory hy

/-- **Orders one after another**, each of which gives up what it stands for. -/
theorem foldl {α : Type} {things : α → List Disposal} {order : Device → α → Device}
    (horder : ∀ a d held, d.Ledger (things a ++ held) →
      Turnover d (things a ++ held) (order d a) held) :
    ∀ {l : List α} {d : Device}, d.Ledger (l.flatMap things ++ held) →
      Turnover d (l.flatMap things ++ held) (l.foldl order d) held := by
  intro l
  induction l with
  | nil => exact fun h => refl h
  | cons a rest ih =>
      intro d h
      rw [List.flatMap_cons, List.append_assoc] at h ⊢
      have hfirst := horder a d _ h
      exact hfirst.trans (ih hfirst.ledger)

end Turnover

end Device

end FrameGraph
