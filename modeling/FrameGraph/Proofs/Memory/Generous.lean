import FrameGraph.Proofs.Frame.Faults
import FrameGraph.Proofs.Memory.Bays
import FrameGraph.Proofs.Memory.Holdings

/-!
# Devices that refuse nothing

On a device that refuses nothing, every transient resource is created, and the requests of a frame are
demands on the bays that its blocks are to it.  So whether memory is allocated is decided by the bays
alone.

Principal statements: `Pool.exists_places` and `Pool.Places.serves`.
-/

set_option autoImplicit false

namespace FrameGraph

/-! ## Nothing is refused -/

/-- The device refuses nothing: it has no budget, and neither allocating nor creating fails. -/
structure DevicePolicy.IsGenerous (policy : DevicePolicy) : Prop where
  budget : policy.budget = none
  refuses : ∀ n request, policy.refuses n request = false

namespace Device

variable {d d' : Device} (hgenerous : d.policy.IsGenerous)

include hgenerous

theorem exists_granted {requirements : Requirements} {name : String}
    {granted : Except DeviceError Handle}
    (hok : d.allocate requirements name = .ok (granted, d')) : ∃ memory, granted = .ok memory := by
  obtain ⟨⟨answer, middle⟩, htry, hok⟩ := bind_eq_ok_iff.1 hok
  cases hok
  unfold tryAllocate refusesNext at htry
  rw [hgenerous.refuses, if_neg Bool.false_ne_true] at htry
  obtain ⟨inUse, -, htry⟩ := bind_eq_ok_iff.1 htry
  simp only [hgenerous.budget] at htry
  cases htry
  exact ⟨_, rfl⟩

theorem exists_created {memory : Handle} (hmemory : d.memory.contains memory = true)
    (kind : ResourceKind) (name : String) :
    ∃ object, (d.create memory kind name).1 = .ok object := by
  rw [create_eq]
  unfold tryCreate refusesNext
  rw [hgenerous.refuses, if_neg Bool.false_ne_true, hmemory, Bool.not_true,
    if_neg Bool.false_ne_true]
  cases kind with
  | image => exact ⟨_, rfl⟩
  | buffer => exact ⟨_, rfl⟩

end Device

/-- Creating a backing does not fail. -/
theorem exists_backing_of_generous {d d' : Device} (hgenerous : d.policy.IsGenerous)
    (hd : d.WellFormed) {resource : Resource} {created : Except DeviceError Backing}
    (hok : makeBacking d resource = .ok (created, d')) : ∃ backing, created = .ok backing := by
  obtain ⟨requirements, -, ⟨error, hallocate, -⟩ | ⟨memory, middle, hallocate, hcreated⟩⟩ :=
    makeBacking_cases hok
  · obtain ⟨memory, hgranted⟩ := Device.exists_granted hgenerous hallocate
    cases hgranted
  · obtain ⟨-, -, hgranted⟩ := hd.allocate hallocate
    have hpolicy : middle.policy = d.policy := by
      have hends := Device.ends_allocate rfl requirements resource.name (d := d)
      rw [hallocate] at hends
      exact hends
    obtain ⟨object, hobject⟩ := Device.exists_created (hpolicy ▸ hgenerous) (hgranted memory rfl).2
      resource.kind resource.name
    obtain ⟨error, herror, -⟩ | ⟨found, -, rfl, -⟩ := hcreated
    · cases hobject.symm.trans herror
    · exact ⟨_, rfl⟩

/-! ## A list with one element changed -/

section Lists

variable {α : Type} {f : α → α} {l l' : List α} {a b : α} {i : Nat}

theorem exists_split_of_getElem? (hget : l[i]? = some a) (hothers : ∀ j ≠ i, l'[j]? = (l[j]?).map f)
    (hhere : l'[i]? = some b) :
    ∃ before after, l = before ++ a :: after ∧ before.length = i ∧
      l' = before.map f ++ b :: after.map f := by
  obtain ⟨hlt, ha⟩ := List.getElem?_eq_some_iff.1 hget
  have hl' : l' = (l.map f).set i b := by
    refine List.ext_getElem? fun j => ?_
    by_cases hj : j = i
    · subst hj
      rw [hhere, List.getElem?_set_self (by simpa using hlt)]
    · rw [List.getElem?_set_ne (Ne.symm hj), List.getElem?_map, hothers j hj]
  have hsplit : ∃ before after, l = before ++ l[i] :: after ∧ before.length = i ∧
      l.set i a = before ++ a :: after := List.exists_of_set hlt
  rw [ha] at hsplit
  obtain ⟨before, after, rfl, rfl, -⟩ := hsplit
  exact ⟨before, after, rfl, rfl, by rw [hl']; simp⟩

theorem eq_concat_of_getElem? (hothers : ∀ j ≠ l.length, l'[j]? = (l[j]?).map f)
    (hhere : l'[l.length]? = some b) : l' = l.map f ++ [b] := by
  refine List.ext_getElem? fun j => ?_
  by_cases hj : j = l.length
  · subst hj
    rw [hhere, List.getElem?_append_right (by simp)]
    simp
  · rw [hothers j hj, ← List.getElem?_map]
    rcases Nat.lt_or_gt_of_ne hj with hlt | hgt
    · rw [List.getElem?_append_left (by simpa using hlt)]
    · have hlength : (l.map f ++ [b]).length ≤ j := by
        rw [List.length_append, List.length_map]
        exact hgt
      rw [List.getElem?_eq_none hlength, List.getElem?_eq_none (by simpa using hgt.le)]

end Lists

theorem IsBestFit.isBest {before after : List MemoryBlock} {block : MemoryBlock}
    {P : MemoryBlock → Prop}
    (h : IsBestFit (before ++ block :: after) P before.length block) :
    IsBest MemoryBlock.size P before block after := by
  refine ⟨h.fits, fun x hx hfits => ?_, fun x hx hfits => ?_⟩
  · obtain ⟨i, hi⟩ := List.mem_iff_getElem?.1 hx
    obtain ⟨hlt, -⟩ := List.getElem?_eq_some_iff.1 hi
    have hget : (before ++ block :: after)[i]? = some x := by
      rw [List.getElem?_append_left hlt, hi]
    rcases h.least i x hget hfits with hsize | ⟨-, hle⟩
    · exact hsize
    · omega
  · obtain ⟨i, hi⟩ := List.mem_iff_getElem?.1 (List.mem_append_right before
      (List.mem_cons_of_mem block hx))
    have hle := h.least i x hi hfits
    omega

/-! ## Bays -/

/-- What a request sees of a block. -/
def MemoryBlock.bay (b : MemoryBlock) : Bay :=
  ⟨b.size, b.alignment, b.memoryTypes, if b.reserved then some b.lifetime else none⟩

/-- A block that a resource has moved into. -/
def MemoryBlock.takenBy (b : MemoryBlock) (request : TransientRequest) : MemoryBlock :=
  { b with
    reserved := true
    lifetime := request.lifetime
    tenant := some request.handle }

/-- A block of fresh memory that a resource has moved into. -/
def MemoryBlock.freshFor (memory : Handle) (requirements : Requirements)
    (request : TransientRequest) : MemoryBlock :=
  ⟨memory, requirements.size, max requirements.alignment 1, requirements.memoryTypes,
    request.lifetime, request.frame, true, some request.handle⟩

/-- What the requests of a frame see of a list of blocks. -/
def baysOf (frame : Nat) (blocks : List MemoryBlock) : List Bay :=
  (blocks.filter fun b => b.frame = frame).map MemoryBlock.bay

theorem baysOf_append (frame : Nat) (blocks more : List MemoryBlock) :
    baysOf frame (blocks ++ more) = baysOf frame blocks ++ baysOf frame more := by
  simp only [baysOf, List.filter_append, List.map_append]

theorem baysOf_cons {frame : Nat} {b : MemoryBlock} (hframe : b.frame = frame)
    (blocks : List MemoryBlock) : baysOf frame (b :: blocks) = b.bay :: baysOf frame blocks := by
  simp [baysOf, hframe]

theorem mem_baysOf {frame : Nat} {blocks : List MemoryBlock} {x : Bay} :
    x ∈ baysOf frame blocks ↔ ∃ b ∈ blocks, b.frame = frame ∧ b.bay = x := by
  simp [baysOf, and_assoc]

namespace Pool

variable {p p' : Pool} {d d' : Device} {request : TransientRequest} {requirements : Requirements}
  {placement : Placement} {created : Option Placement} {b : MemoryBlock}

/-- The blocks of a frame as its requests see them. -/
def bays (p : Pool) (frame : Nat) : List Bay := baysOf frame p.blocks

theorem bay_released {frame : Nat} (hframe : b.frame = frame) (p : Pool) (position : Nat) :
    (p.released frame position b).bay = b.bay.released p.shareMemory position := by
  unfold released MemoryBlock.bay Bay.released
  cases hreserved : b.reserved with
  | false => simp
  | true =>
      simp only [hframe, Option.filter_some, decide_true, Bool.and_true, Bool.true_and, if_true]

theorem baysOf_map_released (p : Pool) (frame position : Nat) (blocks : List MemoryBlock) :
    baysOf frame (blocks.map (p.released frame position)) =
      (baysOf frame blocks).map (Bay.released p.shareMemory position) := by
  unfold baysOf
  rw [List.filter_map, List.map_map, List.map_map]
  refine List.map_congr_left fun b hb => bay_released ?_ p position
  exact of_decide_eq_true (List.mem_filter.1 hb).2

theorem fits_bay (request : TransientRequest) (hframe : b.frame = request.frame) :
    b.bay.Fits p.shareMemory ⟨requirements, request.lifetime⟩ ↔
      p.IsFreeFor request b ∧ b.suits requirements = true := by
  refine and_congr ?_ Iff.rfl
  unfold IsFreeFor Bay.IsFreeFor MemoryBlock.bay
  cases hreserved : b.reserved with
  | false => simp [hframe]
  | true => simp [hframe]

/-- A resource moves in: into the best of the blocks that are free for it and fit, or into fresh memory
if there is none. -/
inductive Places (p : Pool) (d : Device) (request : TransientRequest) (requirements : Requirements)
    (placement : Placement) (p' : Pool) (d' : Device) : Prop
  | reused (before after : List MemoryBlock) (block : MemoryBlock)
      (hblocks : p.blocks = before ++ block :: after)
      (hbest : IsBest MemoryBlock.size
        (fun b => p.IsFreeFor request b ∧ b.suits requirements = true) before block after)
      (hblocks' : p'.blocks =
        before.map (p.released request.frame request.lifetime.first) ++
          block.takenBy request :: after.map (p.released request.frame request.lifetime.first))
      (hlocated : d'.memoryOf? placement.object = some block.memory) (hmemory : d'.memory = d.memory)
      (hever : d'.allocationsEver = d.allocationsEver)
  | added (memory : Handle)
      (hnone : ∀ b ∈ p.blocks, ¬ (p.IsFreeFor request b ∧ b.suits requirements = true))
      (hblocks' : p'.blocks =
        p.blocks.map (p.released request.frame request.lifetime.first) ++
          [.freshFor memory requirements request])
      (hlocated : d'.memoryOf? placement.object = some memory)

/-- Without an allocation, the memory stays what it is. -/
theorem memory_create_of_quiet (hok : (p.create d request).result = .ok (created, p', d'))
    (hquiet : d'.allocationsEver = d.allocationsEver) : d'.memory = d.memory := by
  obtain ⟨requirements, -, ⟨-, -, -, error, hallocate⟩ |
    ⟨base, middle, index, block, hchosen, rfl, -⟩⟩ := create_choices hok
  · obtain ⟨-, -, rfl⟩ | ⟨hgranted, -⟩ := Device.allocate_cases hallocate
    · rfl
    · cases hgranted
  · rw [Device.memory_create]
    cases hchosen with
    | reused => rfl
    | added _ hallocate =>
        obtain ⟨error, hrefused, -⟩ | ⟨-, rfl⟩ := Device.allocate_cases hallocate
        · cases hrefused
        · rw [Device.allocationsEver_create] at hquiet
          exact absurd hquiet (Nat.succ_ne_self d.allocationsEver)

/-- A resource is created, and not refused. -/
theorem exists_placement (hgenerous : d.policy.IsGenerous) {backings : Backings}
    (hheld : Holdings d p backings) (hok : (p.create d request).result = .ok (created, p', d')) :
    ∃ placement, created = some placement := by
  obtain ⟨requirements, -, ⟨-, -, -, error, hallocate⟩ |
    ⟨base, middle, index, block, hchosen, -, hsettled⟩⟩ := create_choices hok
  · obtain ⟨memory, hgranted⟩ := Device.exists_granted hgenerous hallocate
    cases hgranted
  · have hpolicy : middle.policy = d.policy := by
      cases hchosen with
      | reused => rfl
      | added _ hallocate =>
          have hends := Device.ends_allocate rfl requirements request.name (d := d)
          rw [hallocate] at hends
          exact hends
    have hcontains : middle.memory.contains block.memory = true :=
      (hheld.prepare hchosen.prepared).1.allocated _ (List.mem_append_left _
        (List.mem_map_of_mem (List.mem_of_getElem? hchosen.get?)))
    obtain ⟨object, hobject⟩ :=
      Device.exists_created (hpolicy ▸ hgenerous) hcontains request.info.kind request.name
    obtain ⟨-, ⟨error, herror⟩, -⟩ | ⟨found, -, rfl, -⟩ := hsettled
    · cases hobject.symm.trans herror
    · exact ⟨_, rfl⟩

/-- **On a device that refuses nothing, every resource moves in.** -/
theorem exists_places (hgenerous : d.policy.IsGenerous) {backings : Backings}
    (hheld : Holdings d p backings) (hok : (p.create d request).result = .ok (created, p', d')) :
    ∃ requirements placement, d.requirements request.info = .ok requirements ∧
      created = some placement ∧ p.Places d request requirements placement p' d' := by
  obtain ⟨placement, rfl⟩ := exists_placement hgenerous hheld hok
  obtain ⟨requirements, hrequires, hserves⟩ := create_serves hheld.device hok
  refine ⟨requirements, placement, hrequires, rfl, ?_⟩
  obtain ⟨index, block, hbest, hever, hlodges⟩ | ⟨hnone, ⟨-, hrefused, -⟩ |
    ⟨memory, -, hlodges⟩⟩ := hserves
  · obtain ⟨-, hlocated, -, hhere⟩ := hlodges.moved placement rfl
    obtain ⟨before, after, hblocks, rfl, hblocks'⟩ :=
      exists_split_of_getElem? hbest.here hlodges.others hhere
    rw [hblocks] at hbest
    exact .reused before after block hblocks hbest.isBest hblocks' hlocated
      (memory_create_of_quiet hok hever) hever
  · cases hrefused
  · obtain ⟨-, hlocated, -, hhere⟩ := hlodges.moved placement rfl
    refine .added memory (fun b hb hfits => ?_) (eq_concat_of_getElem? hlodges.others hhere) hlocated
    rw [hnone b hb hfits.1] at hfits
    cases hfits.2

/-- The best block is the best bay. -/
theorem isBest_bays {before after : List MemoryBlock}
    (hbest : IsBest MemoryBlock.size (fun b => p.IsFreeFor request b ∧ b.suits requirements = true)
      before b after) :
    IsBest Bay.size (Bay.Fits p.shareMemory ⟨requirements, request.lifetime⟩)
      (baysOf request.frame before) b.bay (baysOf request.frame after) := by
  refine ⟨(fits_bay request hbest.fits.1.1).2 hbest.fits, fun x hx hfits => ?_, fun x hx hfits => ?_⟩
  · obtain ⟨b, hb, hother, rfl⟩ := mem_baysOf.1 hx
    exact hbest.before b hb ((fits_bay request hother).1 hfits)
  · obtain ⟨b, hb, hother, rfl⟩ := mem_baysOf.1 hx
    exact hbest.after b hb ((fits_bay request hother).1 hfits)

namespace Places

variable (h : p.Places d request requirements placement p' d')

include h

/-- **A request is served from the bays of its frame.** -/
theorem serves :
    Bay.Serves p.shareMemory ⟨requirements, request.lifetime⟩ (p.bays request.frame)
      (p'.bays request.frame) := by
  unfold bays
  cases h with
  | reused before after block hblocks hbest hblocks' =>
      have hframe : block.frame = request.frame := hbest.fits.1.1
      have htaken : (block.takenBy request).frame = request.frame := hframe
      rw [hblocks, hblocks', baysOf_append, baysOf_append, baysOf_cons hframe, baysOf_cons htaken,
        baysOf_map_released, baysOf_map_released]
      exact .reused (isBest_bays hbest)
  | added memory hnone hblocks' =>
      rw [hblocks', baysOf_append, baysOf_map_released]
      have hnew : baysOf request.frame [.freshFor memory requirements request] =
          [Bay.ofDemand ⟨requirements, request.lifetime⟩] := baysOf_cons rfl []
      rw [hnew]
      refine .added fun x hx hfits => ?_
      obtain ⟨b, hb, hother, rfl⟩ := mem_baysOf.1 hx
      exact hnone b hb ((fits_bay request hother).1 hfits)

/-- Blocks are added at the end, and stay what they are. -/
theorem shapes : p.blocks.map MemoryBlock.shape <+: p'.blocks.map MemoryBlock.shape := by
  have hreleased : MemoryBlock.shape ∘ p.released request.frame request.lifetime.first =
      MemoryBlock.shape := rfl
  cases h with
  | reused before after block hblocks _ hblocks' =>
      rw [hblocks, hblocks', List.map_append, List.map_append, List.map_cons, List.map_cons,
        List.map_map, List.map_map, hreleased]
      exact List.prefix_rfl
  | added memory _ hblocks' =>
      rw [hblocks', List.map_append, List.map_map, hreleased]
      exact List.prefix_append _ _

/-- The resource lies in a block of its frame. -/
theorem exists_block : ∃ b ∈ p'.blocks, b.frame = request.frame ∧
    d'.memoryOf? placement.object = some b.memory := by
  cases h with
  | reused before after block hblocks hbest hblocks' hlocated =>
      refine ⟨block.takenBy request, ?_, hbest.fits.1.1, hlocated⟩
      rw [hblocks']
      exact List.mem_append_right _ List.mem_cons_self
  | added memory _ hblocks' hlocated =>
      refine ⟨.freshFor memory requirements request, ?_, rfl, hlocated⟩
      rw [hblocks']
      exact List.mem_append_right _ List.mem_cons_self

end Places

end Pool

end FrameGraph
