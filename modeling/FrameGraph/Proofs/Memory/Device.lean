import FrameGraph.Device
import FrameGraph.Proofs.Declarations

/-!
# What a device keeps

A device answers requests and follows orders.  Requests only add to what it keeps: objects stay where
they are, and memory stays allocated.  An order to destroy an object concerns no object of another
number, and an order to free memory no other memory.

Principal statements: `WellFormed.allocate`, `WellFormed.create`, `memoryOf?_destroy` and
`WellFormed.free`.
-/

set_option autoImplicit false

namespace FrameGraph

/-- The number by which the device knows an object. -/
def DeviceObject.number : DeviceObject → Nat
  | .image i _ => i
  | .buffer b => b

theorem DeviceObject.of_image? {object : DeviceObject} {image : Nat}
    (h : object.image? = some image) : object.kind = .image ∧ object.number = image := by
  cases object with
  | image i view =>
      cases h
      exact ⟨rfl, rfl⟩
  | buffer b => cases h

namespace Device

variable {d d' : Device}

/-- The memory in which a live object lies. -/
def memoryOf? (d : Device) : DeviceObject → Option Handle
  | .image image _ => d.imageMemory? image
  | .buffer buffer => d.bufferMemory? buffer

/-- The table of memory is in order, and no object has a number that is still to come. -/
structure WellFormed (d : Device) : Prop where
  table : d.memory.WellFormed
  images : ∀ entry ∈ d.images, entry.1 ≤ d.lastObject
  buffers : ∀ entry ∈ d.buffers, entry.1 ≤ d.lastObject

theorem wellFormed_fresh (policy : DevicePolicy) : WellFormed { policy } where
  table := SlotTable.wellFormed_empty
  images := fun entry hentry => by cases hentry
  buffers := fun entry hentry => by cases hentry

private theorem mem_of_lookup {entries : List (Nat × Handle)} {i : Nat} {m : Handle}
    (h : entries.lookup i = some m) : (i, m) ∈ entries := by
  induction entries with
  | nil => cases h
  | cons entry rest ih =>
      obtain ⟨j, n⟩ := entry
      rw [List.lookup_cons] at h
      split at h
      · next hij =>
          cases h
          rw [beq_iff_eq.1 hij]
          exact List.mem_cons_self
      · exact List.mem_cons_of_mem _ (ih h)

theorem WellFormed.number_le (hd : d.WellFormed) {object : DeviceObject} {m : Handle}
    (h : d.memoryOf? object = some m) : object.number ≤ d.lastObject := by
  cases object with
  | image image view => exact hd.images (image, m) (mem_of_lookup h)
  | buffer buffer => exact hd.buffers (buffer, m) (mem_of_lookup h)

/-- What the second device keeps of the first: all objects and all memory, and it counts on. -/
structure Grows (d d' : Device) : Prop where
  memoryOf : ∀ object m, d.memoryOf? object = some m → d'.memoryOf? object = some m
  memory : ∀ m, d.memory.contains m = true → d'.memory.contains m = true
  lastObject : d.lastObject ≤ d'.lastObject
  commands : d'.commands = d.commands

theorem Grows.refl (d : Device) : d.Grows d := ⟨fun _ _ h => h, fun _ h => h, Nat.le_refl _, rfl⟩

theorem Grows.trans {d'' : Device} (h : d.Grows d') (h' : d'.Grows d'') : d.Grows d'' :=
  ⟨fun object m hm => h'.memoryOf object m (h.memoryOf object m hm),
    fun m hm => h'.memory m (h.memory m hm), Nat.le_trans h.lastObject h'.lastObject,
    h'.commands.trans h.commands⟩

/-! ## Requests -/

/-- What is noted down concerns neither objects nor memory. -/
theorem WellFormed.note (hd : d.WellFormed) (call : DeviceCall) : (d.note call).WellFormed :=
  ⟨hd.table, hd.images, hd.buffers⟩

theorem Grows.note (h : d.Grows d') (call : DeviceCall) : d.Grows (d'.note call) :=
  ⟨h.memoryOf, h.memory, h.lastObject, h.commands⟩

/-- Memory is refused or handed out. -/
theorem tryAllocate_cases {requirements : Requirements} {name : String}
    {granted : Except DeviceError Handle}
    (hok : d.tryAllocate requirements name = .ok (granted, d')) :
    (∃ error, granted = .error error ∧ d' = d) ∨
      (granted = .ok (d.grant requirements.size).1 ∧ d' = (d.grant requirements.size).2) := by
  unfold tryAllocate at hok
  split at hok
  · cases hok
    exact .inl ⟨_, rfl, rfl⟩
  · obtain ⟨inUse, -, hok⟩ := bind_eq_ok_iff.1 hok
    split at hok
    · cases hok
      exact .inr ⟨rfl, rfl⟩
    · obtain ⟨needed, -, hok⟩ := bind_eq_ok_iff.1 hok
      split at hok
      · cases hok
        exact .inl ⟨_, rfl, rfl⟩
      · cases hok
        exact .inr ⟨rfl, rfl⟩

/-- An allocation is refused or grants memory, and is noted down with the answer. -/
theorem allocate_cases {requirements : Requirements} {name : String}
    {granted : Except DeviceError Handle}
    (hok : d.allocate requirements name = .ok (granted, d')) :
    (∃ error, granted = .error error ∧ d' = d.note (.allocate requirements name granted)) ∨
      (granted = .ok (d.grant requirements.size).1 ∧
        d' = (d.grant requirements.size).2.note (.allocate requirements name granted)) := by
  obtain ⟨⟨answer, middle⟩, htry, hok⟩ := bind_eq_ok_iff.1 hok
  cases hok
  obtain ⟨error, rfl, rfl⟩ | ⟨rfl, rfl⟩ := tryAllocate_cases htry
  · exact .inl ⟨error, rfl, rfl⟩
  · exact .inr ⟨rfl, rfl⟩

/-- **Granted memory is fresh**, and an allocation disturbs nothing. -/
theorem WellFormed.allocate (hd : d.WellFormed) {requirements : Requirements} {name : String}
    {granted : Except DeviceError Handle}
    (hok : d.allocate requirements name = .ok (granted, d')) :
    d'.WellFormed ∧ d.Grows d' ∧
      ∀ m, granted = .ok m → d.memory.contains m = false ∧ d'.memory.contains m = true := by
  obtain ⟨error, rfl, rfl⟩ | ⟨rfl, rfl⟩ := allocate_cases hok
  · exact ⟨hd.note _, (Grows.refl d).note _, fun m hm => by cases hm⟩
  · have hinsert := hd.table.get?_insert requirements.size
    refine ⟨⟨hd.table.insert _, hd.images, hd.buffers⟩,
      ⟨fun _ _ h => h, fun m hm => ?_, Nat.le_refl _, rfl⟩, fun m hm => ?_⟩
    · show ((d.memory.insert requirements.size).2.get? m).isSome = true
      rw [(hinsert m).2]
      split
      · rfl
      · exact hm
    · obtain rfl : (d.memory.insert requirements.size).1 = m := Except.ok.inj hm
      refine ⟨?_, ?_⟩
      · rw [SlotTable.contains, (hinsert .null).1]
        rfl
      · show ((d.memory.insert requirements.size).2.get? _).isSome = true
        rw [(hinsert _).2, if_pos rfl]
        rfl

private theorem lookup_append_of_some {entries more : List (Nat × Handle)} {i : Nat} {m : Handle}
    (h : entries.lookup i = some m) : (entries ++ more).lookup i = some m := by
  rw [List.lookup_append, h]
  rfl

private theorem lookup_concat_fresh {entries : List (Nat × Handle)} {i bound : Nat}
    (hbound : ∀ entry ∈ entries, entry.1 ≤ bound) (hi : bound < i) (m : Handle) :
    (entries ++ [(i, m)]).lookup i = some m := by
  have hnone : entries.lookup i = none := by
    rw [List.lookup_eq_none_iff]
    intro entry hentry
    have hle := hbound entry hentry
    simp only [bne_iff_ne, ne_eq]
    omega
  rw [List.lookup_append, hnone, List.lookup_cons_self]
  rfl

private theorem le_of_mem_concat {entries : List (Nat × Handle)} {bound bound' i : Nat}
    (hbound : ∀ entry ∈ entries, entry.1 ≤ bound) (hle : bound ≤ bound') (hi : i ≤ bound')
    (m : Handle) : ∀ entry ∈ entries ++ [(i, m)], entry.1 ≤ bound' := by
  intro entry hentry
  rcases List.mem_append.1 hentry with h | h
  · exact Nat.le_trans (hbound entry h) hle
  · rw [List.mem_singleton.1 h]
    exact hi

/-- An object is refused, or made with the next number. -/
theorem tryCreate_cases (d : Device) (memory : Handle) (kind : ResourceKind) (name : String) :
    (∃ error, d.tryCreate memory kind name = (.error error, d)) ∨
      d.tryCreate memory kind name =
        match kind with
        | .image =>
            (.ok (.image (d.lastObject + 1) (d.lastObject + 2)),
              { d with
                lastObject := d.lastObject + 2
                images := d.images ++ [(d.lastObject + 1, memory)] })
        | .buffer =>
            (.ok (.buffer (d.lastObject + 1)),
              { d with
                lastObject := d.lastObject + 1
                buffers := d.buffers ++ [(d.lastObject + 1, memory)] }) := by
  unfold tryCreate
  split
  · exact .inl ⟨_, rfl⟩
  · split
    · exact .inl ⟨_, rfl⟩
    · exact .inr rfl

/-- An object is created as it is made, and the request is noted down with the answer. -/
theorem create_eq (d : Device) (memory : Handle) (kind : ResourceKind) (name : String) :
    d.create memory kind name =
      ((d.tryCreate memory kind name).1, (d.tryCreate memory kind name).2.note
        (.create memory kind name (d.tryCreate memory kind name).1)) := rfl

/-- **A created object has a new number and lies in the memory that was asked for**; creating it
disturbs nothing. -/
theorem WellFormed.create (hd : d.WellFormed) (memory : Handle) (kind : ResourceKind)
    (name : String) :
    (d.create memory kind name).2.WellFormed ∧ d.Grows (d.create memory kind name).2 ∧
      ∀ object, (d.create memory kind name).1 = .ok object →
        (d.create memory kind name).2.memoryOf? object = some memory ∧
          d.lastObject < object.number := by
  rw [create_eq]
  obtain ⟨error, hrefused⟩ | hmade := d.tryCreate_cases memory kind name
  · rw [hrefused]
    exact ⟨hd.note _, (Grows.refl d).note _, fun object h => by cases h⟩
  · rw [hmade]
    have hone : d.lastObject ≤ d.lastObject + 1 := Nat.le_succ _
    have htwo : d.lastObject ≤ d.lastObject + 2 := Nat.le_add_right _ _
    have hnew : d.lastObject < d.lastObject + 1 := Nat.lt_succ_self _
    cases kind with
    | image =>
        dsimp only
        refine ⟨⟨hd.table, le_of_mem_concat hd.images htwo (Nat.le_succ _) memory,
          fun e he => Nat.le_trans (hd.buffers e he) htwo⟩, ⟨?_, fun _ h => h, htwo, rfl⟩, ?_⟩
        · intro object m hm
          cases object with
          | image image view => exact lookup_append_of_some hm
          | buffer buffer => exact hm
        · intro object hobject
          cases hobject
          exact ⟨lookup_concat_fresh hd.images hnew memory, hnew⟩
    | buffer =>
        dsimp only
        refine ⟨⟨hd.table, fun e he => Nat.le_trans (hd.images e he) hone,
          le_of_mem_concat hd.buffers hone (Nat.le_refl _) memory⟩,
          ⟨?_, fun _ h => h, hone, rfl⟩, ?_⟩
        · intro object m hm
          cases object with
          | image image view => exact hm
          | buffer buffer => exact lookup_append_of_some hm
        · intro object hobject
          cases hobject
          exact ⟨lookup_concat_fresh hd.buffers hnew memory, hnew⟩

/-- A request for an object leaves everything else as it is. -/
theorem create_congr {α : Type} {φ : Device → α}
    (hφ : ∀ (d : Device) lastObject images buffers calls,
      φ { d with lastObject, images, buffers, calls } = φ d)
    (d : Device) (memory : Handle) (kind : ResourceKind) (name : String) :
    φ (d.create memory kind name).2 = φ d := by
  rw [create_eq]
  obtain ⟨error, hrefused⟩ | hmade := d.tryCreate_cases memory kind name
  · rw [hrefused]
    exact hφ d ..
  · rw [hmade]
    cases kind with
    | image => exact hφ d ..
    | buffer => exact hφ d ..

@[simp] theorem memory_create (d : Device) (memory : Handle) (kind : ResourceKind) (name : String) :
    (d.create memory kind name).2.memory = d.memory :=
  create_congr (fun _ _ _ _ _ => rfl) d memory kind name

@[simp] theorem allocationsEver_create (d : Device) (memory : Handle) (kind : ResourceKind)
    (name : String) : (d.create memory kind name).2.allocationsEver = d.allocationsEver :=
  create_congr (fun _ _ _ _ _ => rfl) d memory kind name

@[simp] theorem policy_create (d : Device) (memory : Handle) (kind : ResourceKind) (name : String) :
    (d.create memory kind name).2.policy = d.policy :=
  create_congr (fun _ _ _ _ _ => rfl) d memory kind name

/-! ## Orders -/

theorem WellFormed.destroy (hd : d.WellFormed) (object : DeviceObject) :
    (d.destroy object).WellFormed := by
  cases object with
  | image image view =>
      exact ⟨hd.table, fun e he => hd.images e (List.mem_filter.1 he).1, hd.buffers⟩
  | buffer buffer =>
      exact ⟨hd.table, hd.images, fun e he => hd.buffers e (List.mem_filter.1 he).1⟩

private theorem lookup_filter_of_ne {entries : List (Nat × Handle)} {i j : Nat} (h : j ≠ i) :
    (entries.filter fun entry => entry.1 ≠ i).lookup j = entries.lookup j := by
  induction entries with
  | nil => rfl
  | cons entry rest ih =>
      obtain ⟨k, m⟩ := entry
      rw [List.filter_cons]
      split
      · rw [List.lookup_cons, List.lookup_cons, ih]
      · next hk =>
          have hk' : k = i := by simpa using hk
          have hne : (j == k) = false := by
            rw [hk']
            simpa using h
          rw [List.lookup_cons, hne]
          exact ih

/-- Destroying an object concerns no object of another number. -/
theorem memoryOf?_destroy (d : Device) {object other : DeviceObject}
    (h : other.number ≠ object.number) :
    (d.destroy object).memoryOf? other = d.memoryOf? other := by
  cases object with
  | image image view =>
      cases other with
      | image image' view' => exact lookup_filter_of_ne h
      | buffer buffer' => rfl
  | buffer buffer =>
      cases other with
      | image image' view' => rfl
      | buffer buffer' => exact lookup_filter_of_ne h

@[simp] theorem memory_destroy (d : Device) (object : DeviceObject) :
    (d.destroy object).memory = d.memory := by
  cases object <;> rfl

@[simp] theorem commands_destroy (d : Device) (object : DeviceObject) :
    (d.destroy object).commands = d.commands := by
  cases object <;> rfl

theorem WellFormed.free (hd : d.WellFormed) (memory : Handle) : (d.free memory).WellFormed :=
  ⟨hd.table.remove memory, hd.images, hd.buffers⟩

@[simp] theorem memoryOf?_free (d : Device) (memory : Handle) (object : DeviceObject) :
    (d.free memory).memoryOf? object = d.memoryOf? object := by
  cases object <;> rfl

/-- Freeing memory concerns no other memory. -/
theorem contains_free (d : Device) {memory other : Handle} (h : memory ≠ other) :
    (d.free memory).memory.contains other = d.memory.contains other := by
  show ((d.memory.remove memory).get? other).isSome = _
  rw [SlotTable.get?_remove, if_neg h]
  rfl

@[simp] theorem commands_free (d : Device) (memory : Handle) :
    (d.free memory).commands = d.commands := rfl

/-! ## Many orders -/

/-- What destroying objects leaves as it is: all objects of other numbers, and everything else. -/
theorem destroyAll (objects : List DeviceObject) (d : Device) :
    (d.WellFormed → (objects.foldl destroy d).WellFormed) ∧
      (objects.foldl destroy d).memory = d.memory ∧
      (objects.foldl destroy d).commands = d.commands ∧
      ∀ other, other.number ∉ objects.map DeviceObject.number →
        (objects.foldl destroy d).memoryOf? other = d.memoryOf? other := by
  induction objects generalizing d with
  | nil => exact ⟨fun hd => hd, rfl, rfl, fun _ _ => rfl⟩
  | cons object rest ih =>
      obtain ⟨hwell, hmemory, hcommands, hothers⟩ := ih (d.destroy object)
      refine ⟨fun hd => hwell (hd.destroy object), ?_, ?_, fun other hother => ?_⟩
      · rw [List.foldl_cons, hmemory, memory_destroy]
      · rw [List.foldl_cons, hcommands, commands_destroy]
      · rw [List.map_cons, List.mem_cons, not_or] at hother
        rw [List.foldl_cons, hothers other hother.2, memoryOf?_destroy d hother.1]

end Device

end FrameGraph
