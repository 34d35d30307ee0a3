import FrameGraph.Proofs.Memory.Device
import FrameGraph.Pool

/-!
# How a pool serves requests

While a frame is resolved, resources move into the blocks of the frame one after another.
`Occupancy` says what is known about those that have moved in so far: a free block was left by all of
them before the current position, and in a reserved one only the last of them may still be there.  So
two resources that share a block are never there at the same time.

Principal statements: `create_cases`, which says everything that a request does, `Occupancy.vacate`,
`Occupancy.update` and `Occupancy.place`, and `Keeps.create`: the blocks of other frames stay as they
are.
-/

set_option autoImplicit false

namespace FrameGraph

namespace Pool

/-! ## What a request does -/

@[simp] theorem live_retire (p : Pool) (frame position : Nat) :
    (p.retire frame position).live = p.live := by
  unfold retire
  split <;> rfl

@[simp] theorem shareMemory_retire (p : Pool) (frame position : Nat) :
    (p.retire frame position).shareMemory = p.shareMemory := by
  unfold retire
  split <;> rfl

theorem updateBlock_updateBlock (p : Pool) (index : Nat) (f g : MemoryBlock → MemoryBlock) :
    (p.updateBlock index f).updateBlock index g = p.updateBlock index fun b => g (f b) :=
  congrArg (fun blocks => { p with blocks }) (List.modify_modify_eq ..)

theorem getElem?_updateBlock (p : Pool) (index i : Nat) (f : MemoryBlock → MemoryBlock) :
    (p.updateBlock index f).blocks[i]? =
      if index = i then (p.blocks[i]?).map f else p.blocks[i]? := by
  rw [updateBlock, List.getElem?_modify]
  split
  · rfl
  · exact Option.map_id_apply

theorem getElem?_addBlock (p : Pool) (memory : Handle) (requirements : Requirements)
    (lifetime : Lifetime) (frame : Nat) :
    (p.addBlock memory requirements lifetime frame).blocks[p.blocks.length]? =
      some ⟨memory, requirements.size, max requirements.alignment 1, requirements.memoryTypes, lifetime,
        frame, false, none⟩ := by
  simp [addBlock]

/-- The pool and the device once there is a block for a request: a free one, or one of fresh
memory. -/
inductive Prepared (p : Pool) (d : Device) (request : TransientRequest) : Pool → Device → Prop
  | reused : p.Prepared d request (p.retire request.frame request.lifetime.first) d
  | added {requirements : Requirements} {memory : Handle} {middle : Device} :
      d.allocate requirements request.name = .ok (.ok memory, middle) →
        p.Prepared d request
          ((p.retire request.frame request.lifetime.first).addBlock memory requirements
            request.lifetime request.frame) middle

theorem Prepared.live {p base : Pool} {d middle : Device} {request : TransientRequest}
    (h : p.Prepared d request base middle) : base.live = p.live := by
  cases h with
  | reused => exact live_retire p request.frame request.lifetime.first
  | added hallocate => exact live_retire p request.frame request.lifetime.first

theorem Prepared.shareMemory {p base : Pool} {d middle : Device} {request : TransientRequest}
    (h : p.Prepared d request base middle) : base.shareMemory = p.shareMemory := by
  cases h with
  | reused => exact shareMemory_retire p request.frame request.lifetime.first
  | added hallocate => exact shareMemory_retire p request.frame request.lifetime.first

/-- The block that is chosen for a request, with the pool and the device that have it: the best fit, or
one of fresh memory if no block fits. -/
inductive Chosen (p : Pool) (d : Device) (request : TransientRequest) (requirements : Requirements) :
    Pool → Device → Nat → MemoryBlock → Prop
  | reused {index : Nat} {block : MemoryBlock} :
      (p.retire request.frame request.lifetime.first).bestFit? request.frame requirements =
          some (block, index) →
        p.Chosen d request requirements (p.retire request.frame request.lifetime.first) d index block
  | added {memory : Handle} {middle : Device} :
      (p.retire request.frame request.lifetime.first).bestFit? request.frame requirements = none →
        d.allocate requirements request.name = .ok (.ok memory, middle) →
          p.Chosen d request requirements
            ((p.retire request.frame request.lifetime.first).addBlock memory requirements
              request.lifetime request.frame)
            middle (p.retire request.frame request.lifetime.first).blocks.length
            ⟨memory, requirements.size, max requirements.alignment 1, requirements.memoryTypes,
              request.lifetime, request.frame, false, none⟩

namespace Chosen

variable {p base : Pool} {d middle : Device} {request : TransientRequest} {requirements : Requirements}
  {index : Nat} {block : MemoryBlock} (h : p.Chosen d request requirements base middle index block)

include h

theorem prepared : p.Prepared d request base middle := by
  cases h with
  | reused hfit => exact .reused
  | added hnone hallocate => exact .added hallocate

theorem get? : base.blocks[index]? = some block := by
  cases h with
  | reused hfit => exact (bestFit?_free hfit).1
  | added hnone hallocate => exact getElem?_addBlock ..

theorem free : block.reserved = false := by
  cases h with
  | reused hfit => exact (bestFit?_free hfit).2.1
  | added hnone hallocate => rfl

theorem frame : block.frame = request.frame := by
  cases h with
  | reused hfit => exact (bestFit?_free hfit).2.2.1
  | added hnone hallocate => rfl

end Chosen

/-- A block is chosen and reserved, or none fits and the device refuses memory. -/
theorem acquire_choices {p p' : Pool} {d d' : Device} {requirements : Requirements}
    {request : TransientRequest} {acquired : Option (Handle × Nat)}
    (hok : (p.acquire d requirements request).result = .ok (acquired, p', d')) :
    (acquired = none ∧ p' = p.retire request.frame request.lifetime.first ∧
        p'.bestFit? request.frame requirements = none ∧
        ∃ error, d.allocate requirements request.name = .ok (.error error, d')) ∨
      ∃ (base : Pool) (index : Nat) (block : MemoryBlock),
        p.Chosen d request requirements base d' index block ∧
          acquired = some (block.memory, index) ∧ p' = base.reserve index request.lifetime := by
  unfold acquire at hok
  dsimp only at hok
  split at hok
  · next block index hfit =>
      obtain ⟨-, -, hpure⟩ := Outcome.result_bind_eq_ok_iff.1 hok
      cases hpure
      exact .inr ⟨_, index, block, .reused hfit, rfl, rfl⟩
  · next hnone =>
      obtain ⟨⟨granted, device⟩, hallocate, hok⟩ := Outcome.result_bind_eq_ok_iff.1 hok
      cases granted with
      | error error =>
          obtain ⟨-, -, hpure⟩ := Outcome.result_bind_eq_ok_iff.1 hok
          cases hpure
          exact .inl ⟨rfl, rfl, hnone, error, hallocate⟩
      | ok memory =>
          cases hok
          exact .inr ⟨_, _, _, .added hnone hallocate, rfl, rfl⟩

/-- Reserving a block and moving in is one change. -/
theorem moveIn_reserve (p : Pool) (index : Nat) (object : DeviceObject)
    (request : TransientRequest) :
    ((p.reserve index request.lifetime).moveIn index object request).2 =
      { p.updateBlock index fun b =>
          { b with
            reserved := true
            lifetime := request.lifetime
            tenant := some request.handle } with
        live := p.live ++ [⟨object, request.frame⟩] } := by
  have htwice := updateBlock_updateBlock p index
    (fun b => { b with reserved := true, lifetime := request.lifetime })
    (fun b => { b with tenant := some request.handle })
  unfold moveIn reserve
  dsimp only
  rw [htwice]
  rfl

/-- Who moves into a reserved block is told who held it before. -/
theorem previous_moveIn_reserve {p : Pool} {index : Nat} {block : MemoryBlock}
    (hget : p.blocks[index]? = some block) (object : DeviceObject) (request : TransientRequest) :
    ((p.reserve index request.lifetime).moveIn index object request).1 = block.tenant := by
  unfold moveIn reserve
  dsimp only
  rw [getElem?_updateBlock, if_pos rfl, hget]
  rfl

/-- What becomes of a request once a block is chosen for it: the device refuses the resource and the
block is free again, or the resource moves in. -/
def Settled (base : Pool) (middle : Device) (request : TransientRequest) (index : Nat)
    (block : MemoryBlock) (created : Option Placement) (p' : Pool) : Prop :=
  (created = none ∧
      (∃ error, (middle.create block.memory request.info.kind request.name).1 = .error error) ∧
      p' = base.updateBlock index fun b =>
        { b with reserved := false, lifetime := request.lifetime }) ∨
    ∃ object,
      (middle.create block.memory request.info.kind request.name).1 = .ok object ∧
        created = some ⟨object, block.tenant⟩ ∧
        p' =
          { base.updateBlock index fun b =>
              { b with
                reserved := true
                lifetime := request.lifetime
                tenant := some request.handle } with
            live := base.live ++ [⟨object, request.frame⟩] }

/-- A request that was served or refused: what it requires, which block was chosen for it, and what
became of the block. -/
theorem create_choices {p p' : Pool} {d d' : Device} {request : TransientRequest}
    {created : Option Placement} (hok : (p.create d request).result = .ok (created, p', d')) :
    ∃ requirements, d.requirements request.info = .ok requirements ∧
      ((created = none ∧ p' = p.retire request.frame request.lifetime.first ∧
          p'.bestFit? request.frame requirements = none ∧
          ∃ error, d.allocate requirements request.name = .ok (.error error, d')) ∨
        ∃ (base : Pool) (middle : Device) (index : Nat) (block : MemoryBlock),
          p.Chosen d request requirements base middle index block ∧
          d' = (middle.create block.memory request.info.kind request.name).2 ∧
          base.Settled middle request index block created p') := by
  obtain ⟨requirements, hrequires, hok⟩ := Outcome.result_bind_eq_ok_iff.1 hok
  obtain ⟨⟨acquired, reserved, middle⟩, hacquire, hok⟩ := Outcome.result_bind_eq_ok_iff.1 hok
  refine ⟨requirements, hrequires, ?_⟩
  obtain ⟨rfl, rfl, hnone, error, hallocate⟩ | ⟨base, index, block, hchosen, rfl, rfl⟩ :=
    acquire_choices hacquire
  · cases hok
    exact .inl ⟨rfl, rfl, hnone, error, hallocate⟩
  · refine .inr ⟨base, middle, index, block, hchosen, ?_⟩
    dsimp only at hok
    split at hok
    · next error herror =>
        obtain ⟨-, -, hpure⟩ := Outcome.result_bind_eq_ok_iff.1 hok
        cases hpure
        exact ⟨rfl, .inl ⟨rfl, ⟨error, herror⟩, updateBlock_updateBlock base index _ _⟩⟩
    · next object hobject =>
        have hmoved := moveIn_reserve base index object request
        have hprevious := previous_moveIn_reserve hchosen.get? object request
        split at hok
        · next hvacant =>
            cases hok
            rw [hvacant] at hprevious
            exact ⟨rfl, .inr ⟨object, hobject, by rw [hprevious], hmoved⟩⟩
        · next former hformer =>
            obtain ⟨-, -, hpure⟩ := Outcome.result_bind_eq_ok_iff.1 hok
            cases hpure
            rw [hformer] at hprevious
            exact ⟨rfl, .inr ⟨object, hobject, by rw [hprevious], hmoved⟩⟩

/-- What a request does, without what makes the block the right one. -/
theorem create_cases {p p' : Pool} {d d' : Device} {request : TransientRequest}
    {created : Option Placement} (hok : (p.create d request).result = .ok (created, p', d')) :
    (created = none ∧ p' = p.retire request.frame request.lifetime.first ∧
        ∃ requirements error, d.allocate requirements request.name = .ok (.error error, d')) ∨
      ∃ (base : Pool) (middle : Device) (index : Nat) (block : MemoryBlock),
        p.Prepared d request base middle ∧
        base.blocks[index]? = some block ∧ block.reserved = false ∧ block.frame = request.frame ∧
        d' = (middle.create block.memory request.info.kind request.name).2 ∧
        base.Settled middle request index block created p' := by
  obtain ⟨requirements, -, ⟨rfl, rfl, -, error, hallocate⟩ |
    ⟨base, middle, index, block, hchosen, hdevice, hsettled⟩⟩ := create_choices hok
  · exact .inl ⟨rfl, rfl, requirements, error, hallocate⟩
  · exact .inr ⟨base, middle, index, block, hchosen.prepared, hchosen.get?, hchosen.free,
      hchosen.frame, hdevice, hsettled⟩

end Pool

/-! ## Blocks -/

/-- What never changes about a block: its memory, and the frame that it belongs to. -/
def MemoryBlock.place (b : MemoryBlock) : Handle × Nat := (b.memory, b.frame)

namespace Pool

variable {p : Pool} {frame position : Nat}

/-- What becomes of a block when others are freed. -/
theorem mem_retire {b' : MemoryBlock} (h : b' ∈ (p.retire frame position).blocks) :
    b' ∈ p.blocks ∨
      p.shareMemory = true ∧ ∃ b ∈ p.blocks, b.frame = frame ∧ b.reserved = true ∧
        b.lifetime.last < position ∧ b' = { b with reserved := false } := by
  unfold retire at h
  split at h
  · next hshare =>
      obtain ⟨b, hb, rfl⟩ := List.mem_map.1 h
      split
      · next hended =>
          simp only [Bool.and_eq_true, decide_eq_true_eq] at hended
          exact .inr ⟨hshare, b, hb, hended.1.2, hended.1.1, hended.2, rfl⟩
      · exact .inl hb
  · exact .inl h

/-- Freeing blocks changes nothing else about them. -/
theorem map_retire {α : Type} {φ : MemoryBlock → α}
    (hφ : ∀ b, φ { b with reserved := false } = φ b) (p : Pool) (frame position : Nat) :
    (p.retire frame position).blocks.map φ = p.blocks.map φ := by
  unfold retire
  split
  · rw [List.map_map]
    refine List.map_congr_left fun b _ => ?_
    dsimp only [Function.comp]
    split
    · exact hφ b
    · rfl
  · rfl

theorem places_retire (p : Pool) (frame position : Nat) :
    (p.retire frame position).blocks.map MemoryBlock.place = p.blocks.map MemoryBlock.place :=
  map_retire (fun _ => rfl) p frame position

theorem map_updateBlock {α : Type} {φ : MemoryBlock → α} {f : MemoryBlock → MemoryBlock}
    (hf : ∀ b, φ (f b) = φ b) (p : Pool) (index : Nat) :
    (p.updateBlock index f).blocks.map φ = p.blocks.map φ := by
  refine List.ext_getElem? fun i => ?_
  rw [List.getElem?_map, List.getElem?_map, getElem?_updateBlock]
  split
  · rw [Option.map_map]
    exact congrArg (Option.map · p.blocks[i]?) (funext hf)
  · rfl

theorem places_updateBlock {f : MemoryBlock → MemoryBlock} (hf : ∀ b, (f b).place = b.place)
    (p : Pool) (index : Nat) :
    (p.updateBlock index f).blocks.map MemoryBlock.place = p.blocks.map MemoryBlock.place :=
  map_updateBlock hf p index

/-- Pools with the same places have the same memory. -/
theorem memories_of_places {p' : Pool}
    (hplaces : p'.blocks.map MemoryBlock.place = p.blocks.map MemoryBlock.place) :
    p'.blocks.map (·.memory) = p.blocks.map (·.memory) := by
  have hfst := congrArg (List.map Prod.fst) hplaces
  rw [List.map_map, List.map_map] at hfst
  exact hfst

theorem exists_of_places {p' : Pool}
    (hplaces : p'.blocks.map MemoryBlock.place = p.blocks.map MemoryBlock.place) {b : MemoryBlock}
    (hb : b ∈ p.blocks) : ∃ b' ∈ p'.blocks, b'.place = b.place := by
  have hmem : b.place ∈ p'.blocks.map MemoryBlock.place := hplaces ▸ List.mem_map_of_mem hb
  exact List.mem_map.1 hmem

theorem mem_updateBlock {f : MemoryBlock → MemoryBlock} {index : Nat} {b' : MemoryBlock}
    (h : b' ∈ (p.updateBlock index f).blocks) :
    b' ∈ p.blocks ∨ ∃ b, p.blocks[index]? = some b ∧ b' = f b := by
  obtain ⟨i, hi⟩ := List.mem_iff_getElem?.1 h
  rw [getElem?_updateBlock] at hi
  split at hi
  · next heq =>
      obtain ⟨b, hb, rfl⟩ := Option.map_eq_some_iff.1 hi
      exact .inr ⟨b, heq ▸ hb, rfl⟩
  · exact .inl (List.mem_of_getElem? hi)

/-! ## Who was where in a frame -/

end Pool

/-- The stay of a resource in a block: when, and in which memory. -/
structure Stay where
  lifetime : Lifetime
  memory : Handle

namespace Pool

/-- What is known about the resources that have moved into the blocks of a frame up to a position. -/
structure Occupancy (p : Pool) (frame position : Nat) (stays : List Stay) : Prop where
  vacant : ∀ b ∈ p.blocks, b.frame = frame → b.reserved = false →
    ∀ x ∈ stays, x.memory = b.memory → p.shareMemory = true ∧ x.lifetime.last < position
  taken : ∀ b ∈ p.blocks, b.frame = frame → b.reserved = true →
    ∀ x ∈ stays, x.memory = b.memory →
      x.lifetime.last = b.lifetime.last ∨ p.shareMemory = true ∧ x.lifetime.last < position
  known : ∀ x ∈ stays, ∃ b ∈ p.blocks, b.place = (x.memory, frame)
  apart : stays.Pairwise fun x y =>
    x.memory = y.memory → p.shareMemory = true ∧ x.lifetime.last < y.lifetime.first

namespace Occupancy

variable {p : Pool} {frame position : Nat} {stays : List Stay}

/-- Before anything has moved in, nothing is known. -/
theorem start (p : Pool) (frame position : Nat) : p.Occupancy frame position [] where
  vacant := fun _ _ _ _ x hx => by cases hx
  taken := fun _ _ _ _ x hx => by cases hx
  known := fun x hx => by cases hx
  apart := .nil

/-- What has ended before a position has ended before every later one. -/
theorem later (h : p.Occupancy frame position stays) {position' : Nat}
    (hle : position ≤ position') : p.Occupancy frame position' stays where
  vacant := fun b hb hf hr x hx hm => by
    obtain ⟨hshare, hlt⟩ := h.vacant b hb hf hr x hx hm
    exact ⟨hshare, Nat.lt_of_lt_of_le hlt hle⟩
  taken := fun b hb hf hr x hx hm => by
    rcases h.taken b hb hf hr x hx hm with heq | ⟨hshare, hlt⟩
    · exact .inl heq
    · exact .inr ⟨hshare, Nat.lt_of_lt_of_le hlt hle⟩
  known := h.known
  apart := h.apart

/-- A block is known by its place. -/
theorem known_of_places {p' : Pool} (h : p.Occupancy frame position stays)
    (hplaces : p'.blocks.map MemoryBlock.place = p.blocks.map MemoryBlock.place) :
    ∀ x ∈ stays, ∃ b ∈ p'.blocks, b.place = (x.memory, frame) := by
  intro x hx
  obtain ⟨b, hb, hplace⟩ := h.known x hx
  obtain ⟨b', hb', hplace'⟩ := exists_of_places hplaces hb
  exact ⟨b', hb', hplace'.trans hplace⟩

/-- The blocks that are freed at a position were left before it. -/
theorem vacate (h : p.Occupancy frame position stays) :
    (p.retire frame position).Occupancy frame position stays where
  vacant := fun b' hb' hf hr x hx hm => by
    rw [shareMemory_retire]
    rcases mem_retire hb' with hb | ⟨hshare, b, hb, hbf, hbr, hended, rfl⟩
    · exact h.vacant b' hb hf hr x hx hm
    · rcases h.taken b hb hbf hbr x hx hm with heq | hleft
      · exact ⟨hshare, heq ▸ hended⟩
      · exact hleft
  taken := fun b' hb' hf hr x hx hm => by
    rw [shareMemory_retire]
    rcases mem_retire hb' with hb | ⟨-, b, -, -, -, -, rfl⟩
    · exact h.taken b' hb hf hr x hx hm
    · cases hr
  known := h.known_of_places (places_retire p frame position)
  apart := by
    rw [shareMemory_retire]
    exact h.apart

/-- Nothing has been in fresh memory before. -/
theorem addBlock (h : p.Occupancy frame position stays) {memory : Handle}
    (hfresh : ∀ b ∈ p.blocks, b.memory ≠ memory) (requirements : Requirements)
    (lifetime : Lifetime) (owner : Nat) :
    (p.addBlock memory requirements lifetime owner).Occupancy frame position stays := by
  have hnone : ∀ x ∈ stays, x.memory ≠ memory := by
    intro x hx heq
    obtain ⟨b, hb, hplace⟩ := h.known x hx
    exact hfresh b hb ((congrArg Prod.fst hplace).trans heq)
  refine ⟨fun b hb hf hr x hx hm => ?_, fun b hb hf hr x hx hm => ?_, fun x hx => ?_, h.apart⟩
  · rcases List.mem_append.1 hb with hb | hb
    · exact h.vacant b hb hf hr x hx hm
    · rw [List.mem_singleton.1 hb] at hm
      exact absurd hm (hnone x hx)
  · rcases List.mem_append.1 hb with hb | hb
    · exact h.taken b hb hf hr x hx hm
    · rw [List.mem_singleton.1 hb] at hm
      exact absurd hm (hnone x hx)
  · obtain ⟨b, hb, hplace⟩ := h.known x hx
    exact ⟨b, List.mem_append_left _ hb, hplace⟩

/-- What becomes of a free block does not matter to those who have left it. -/
theorem update (h : p.Occupancy frame position stays) {index : Nat} {block : MemoryBlock}
    (hget : p.blocks[index]? = some block) (hfree : block.reserved = false)
    {f : MemoryBlock → MemoryBlock} (hf : ∀ b, (f b).place = b.place) :
    (p.updateBlock index f).Occupancy frame position stays := by
  have hleft : ∀ b, p.blocks[index]? = some b → b.frame = frame → ∀ x ∈ stays,
      x.memory = b.memory → p.shareMemory = true ∧ x.lifetime.last < position := by
    intro b hb hbf x hx hm
    cases hget.symm.trans hb
    exact h.vacant block (List.mem_of_getElem? hget) hbf hfree x hx hm
  have hframe : ∀ b, (f b).frame = b.frame := fun b => congrArg Prod.snd (hf b)
  have hmemory : ∀ b, (f b).memory = b.memory := fun b => congrArg Prod.fst (hf b)
  refine ⟨fun b' hb' hbf hr x hx hm => ?_, fun b' hb' hbf hr x hx hm => ?_,
    h.known_of_places (places_updateBlock hf p index), h.apart⟩
  · rcases mem_updateBlock hb' with hb | ⟨b, hb, rfl⟩
    · exact h.vacant b' hb hbf hr x hx hm
    · exact hleft b hb ((hframe b).symm.trans hbf) x hx (hm.trans (hmemory b))
  · rcases mem_updateBlock hb' with hb | ⟨b, hb, rfl⟩
    · exact h.taken b' hb hbf hr x hx hm
    · exact .inr (hleft b hb ((hframe b).symm.trans hbf) x hx (hm.trans (hmemory b)))

/-- **A resource moves into a free block**: everybody who was there before has left. -/
theorem place (h : p.Occupancy frame position stays) {index : Nat} {block : MemoryBlock}
    (hget : p.blocks[index]? = some block) (hfree : block.reserved = false)
    (hframe : block.frame = frame) (hnd : (p.blocks.map (·.memory)).Nodup)
    {f : MemoryBlock → MemoryBlock} (hf : ∀ b, (f b).place = b.place) {lifetime : Lifetime}
    (hfirst : lifetime.first = position)
    (hreserved : (f block).reserved = true ∧ (f block).lifetime = lifetime) :
    (p.updateBlock index f).Occupancy frame position (stays ++ [⟨lifetime, block.memory⟩]) := by
  have hupdate := h.update hget hfree hf
  have hmem : block ∈ p.blocks := List.mem_of_getElem? hget
  have hmemories := memories_of_places (places_updateBlock hf p index)
  have hget' : (p.updateBlock index f).blocks[index]? = some (f block) := by
    rw [getElem?_updateBlock, if_pos rfl, hget, Option.map_some]
  -- No other block has this memory.
  have honly : ∀ b ∈ (p.updateBlock index f).blocks, b.memory = block.memory → b = f block := by
    intro b hb hm
    refine List.inj_on_of_nodup_map (hmemories ▸ hnd) hb (List.mem_of_getElem? hget') ?_
    exact hm.trans (congrArg Prod.fst (hf block)).symm
  refine ⟨fun b hb hbf hr x hx hm => ?_, fun b hb hbf hr x hx hm => ?_, fun x hx => ?_, ?_⟩
  · rcases List.mem_append.1 hx with hx | hx
    · exact hupdate.vacant b hb hbf hr x hx hm
    · rw [List.mem_singleton.1 hx] at hm
      rw [honly b hb hm.symm, hreserved.1] at hr
      cases hr
  · rcases List.mem_append.1 hx with hx | hx
    · exact hupdate.taken b hb hbf hr x hx hm
    · rw [List.mem_singleton.1 hx] at hm ⊢
      rw [honly b hb hm.symm, hreserved.2]
      exact .inl rfl
  · rcases List.mem_append.1 hx with hx | hx
    · exact hupdate.known x hx
    · rw [List.mem_singleton.1 hx]
      refine ⟨f block, List.mem_of_getElem? hget', (hf block).trans ?_⟩
      rw [MemoryBlock.place, hframe]
  · refine List.pairwise_append.2 ⟨h.apart, List.pairwise_singleton .., fun x hx y hy hm => ?_⟩
    rw [List.mem_singleton.1 hy] at hm ⊢
    obtain ⟨hshare, hlt⟩ := h.vacant block hmem hframe hfree x hx hm
    exact ⟨hshare, hfirst ▸ hlt⟩

end Occupancy

/-! ## Other frames -/

/-- The second pool has the same live resources and the same blocks for a frame as the first. -/
structure Keeps (frame : Nat) (p p' : Pool) : Prop where
  live : p'.live.filter (fun x => x.frame = frame) = p.live.filter fun x => x.frame = frame
  blocks : ∀ (i : Nat) (b : MemoryBlock), b.frame = frame →
    (p'.blocks[i]? = some b ↔ p.blocks[i]? = some b)

namespace Keeps

variable {frame : Nat} {p p' p'' : Pool}

theorem refl (frame : Nat) (p : Pool) : Keeps frame p p := ⟨rfl, fun _ _ _ => .rfl⟩

theorem trans (h : Keeps frame p p') (h' : Keeps frame p' p'') : Keeps frame p p'' :=
  ⟨h'.live.trans h.live, fun i b hb => (h'.blocks i b hb).trans (h.blocks i b hb)⟩

theorem mem_live_iff (h : Keeps frame p p') {x : LiveObject} (hx : x.frame = frame) :
    x ∈ p'.live ↔ x ∈ p.live := by
  have hmem : x ∈ p'.live.filter (fun x => x.frame = frame) ↔
      x ∈ p.live.filter fun x => x.frame = frame := by rw [h.live]
  simpa [List.mem_filter, hx] using hmem

/-- Blocks that are changed one by one, none of them a block of the frame. -/
theorem of_map {h : MemoryBlock → MemoryBlock} {blocks : List MemoryBlock}
    (hframe : ∀ b, (h b).frame = b.frame) (hother : ∀ b, b.frame = frame → h b = b) (i : Nat)
    (b : MemoryBlock) (hb : b.frame = frame) :
    (blocks.map h)[i]? = some b ↔ blocks[i]? = some b := by
  rw [List.getElem?_map]
  constructor
  · intro hget
    obtain ⟨b', hb', rfl⟩ := Option.map_eq_some_iff.1 hget
    rw [hother b' ((hframe b').symm.trans hb)]
    exact hb'
  · intro hget
    rw [hget, Option.map_some, hother b hb]

theorem retire {other : Nat} (hne : other ≠ frame) (p : Pool) (position : Nat) :
    Keeps frame p (p.retire other position) := by
  refine ⟨by rw [live_retire], fun i b hb => ?_⟩
  unfold Pool.retire
  split
  · refine of_map (fun b => ?_) (fun b hb => ?_) i b hb
    · split <;> rfl
    · rw [if_neg]
      simp [hb, Ne.symm hne]
  · exact .rfl

theorem addBlock {other : Nat} (hne : other ≠ frame) (p : Pool) (memory : Handle)
    (requirements : Requirements) (lifetime : Lifetime) :
    Keeps frame p (p.addBlock memory requirements lifetime other) := by
  refine ⟨rfl, fun i b hb => ?_⟩
  unfold Pool.addBlock
  rcases Nat.lt_trichotomy i p.blocks.length with hlt | rfl | hgt
  · rw [List.getElem?_append_left hlt]
  · rw [List.getElem?_concat_length, List.getElem?_eq_none (Nat.le_refl _)]
    constructor
    · intro hnew
      rw [← Option.some.inj hnew] at hb
      exact absurd hb hne
    · intro hnone
      cases hnone
  · rw [List.getElem?_eq_none (by simp; omega), List.getElem?_eq_none (Nat.le_of_lt hgt)]

theorem updateBlock {index : Nat} {block : MemoryBlock} (hget : p.blocks[index]? = some block)
    (hne : block.frame ≠ frame) {f : MemoryBlock → MemoryBlock}
    (hf : ∀ b, (f b).place = b.place) : Keeps frame p (p.updateBlock index f) := by
  refine ⟨rfl, fun i b hb => ?_⟩
  rw [getElem?_updateBlock]
  by_cases hi : index = i
  · subst hi
    rw [if_pos rfl, hget, Option.map_some]
    have hframe : (f block).frame = block.frame := congrArg Prod.snd (hf block)
    constructor
    · intro hnew
      rw [← Option.some.inj hnew] at hb
      exact absurd (hframe.symm.trans hb) hne
    · intro hold
      rw [← Option.some.inj hold] at hb
      exact absurd hb hne
  · rw [if_neg hi]

theorem prepare {d middle : Device} {request : TransientRequest} (hne : request.frame ≠ frame)
    (h : p.Prepared d request p' middle) : Keeps frame p p' := by
  have hretire := retire hne p request.lifetime.first
  cases h with
  | reused => exact hretire
  | added hallocate => exact hretire.trans (addBlock hne _ _ _ request.lifetime)

/-- A request for one frame leaves the others alone. -/
theorem create {d d' : Device} {request : TransientRequest} {created : Option Placement}
    (hne : request.frame ≠ frame) (hok : (p.create d request).result = .ok (created, p', d')) :
    Keeps frame p p' := by
  obtain ⟨-, rfl, -⟩ | ⟨base, middle, index, block, hprepared, hget, -, hframe, -, hresult⟩ :=
    create_cases hok
  · exact retire hne p request.lifetime.first
  · have hkeeps := prepare hne hprepared
    have hother : block.frame ≠ frame := hframe ▸ hne
    obtain ⟨-, -, rfl⟩ | ⟨object, -, -, rfl⟩ := hresult
    · exact hkeeps.trans (updateBlock hget hother fun _ => rfl)
    · have hupdate := updateBlock hget hother (f := fun b =>
        { b with reserved := true, lifetime := request.lifetime, tenant := some request.handle })
        fun _ => rfl
      refine hkeeps.trans ⟨?_, hupdate.blocks⟩
      rw [List.filter_append, List.filter_cons_of_neg (by simpa using hne), List.filter_nil,
        List.append_nil]

/-- So does the beginning of another frame. -/
theorem recycle {other : Nat} (hne : other ≠ frame) (p : Pool) (d : Device) :
    Keeps frame p (p.recycle d other).1 := by
  unfold Pool.recycle
  rw [List.partition_eq_filter_filter]
  refine ⟨?_, fun i b hb => ?_⟩
  · show (p.live.filter _).filter _ = _
    rw [List.filter_filter]
    refine List.filter_congr fun x _ => ?_
    by_cases hx : x.frame = frame
    · simp [hx, Ne.symm hne]
    · simp [hx]
  · refine of_map (fun b => ?_) (fun b hb => ?_) i b hb
    · split <;> rfl
    · rw [if_neg]
      rw [hb]
      exact Ne.symm hne

end Keeps

end Pool

end FrameGraph
