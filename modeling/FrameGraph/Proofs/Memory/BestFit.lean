import FrameGraph.Proofs.Memory.Pool
import Mathlib.Data.List.Induction

/-!
# Which block a request gets

A request looks at the blocks of its frame that are free, or whose tenants end before it begins if
memory is shared.  Of those that fit it takes the smallest, and of equals the first; only if none fits
is memory allocated.  A resource that the device refuses leaves its block free, and whoever was there
before is still remembered.

Principal statements: `isBestFit_of_bestFit?` and `create_serves`.
-/

set_option autoImplicit false

namespace FrameGraph

/-- A block that fits, at a position in a list: the smallest of those that fit, and the first of
equals. -/
structure IsBestFit (blocks : List MemoryBlock) (P : MemoryBlock → Prop) (index : Nat)
    (block : MemoryBlock) : Prop where
  here : blocks[index]? = some block
  fits : P block
  least : ∀ (i : Nat) (other : MemoryBlock), blocks[i]? = some other → P other →
    block.size < other.size ∨ block.size = other.size ∧ index ≤ i

/-- What never changes about a block: its place, and what it offers. -/
def MemoryBlock.shape (b : MemoryBlock) : (Handle × Nat) × Nat × Nat × MemoryTypeMask :=
  (b.place, b.size, b.alignment, b.memoryTypes)

namespace MemoryBlock

variable {b b' : MemoryBlock} (h : b'.shape = b.shape)

include h

theorem place_of_shape : b'.place = b.place := congrArg Prod.fst h

theorem memory_of_shape : b'.memory = b.memory := congrArg Prod.fst (place_of_shape h)

theorem frame_of_shape : b'.frame = b.frame := congrArg Prod.snd (place_of_shape h)

theorem size_of_shape : b'.size = b.size := congrArg (·.2.1) h

theorem suits_of_shape (requirements : Requirements) : b'.suits requirements = b.suits requirements := by
  have halignment : b'.alignment = b.alignment := congrArg (·.2.2.1) h
  have htypes : b'.memoryTypes = b.memoryTypes := congrArg (·.2.2.2) h
  unfold suits
  rw [size_of_shape h, halignment, htypes]

end MemoryBlock

namespace IsBestFit

variable {blocks : List MemoryBlock} {P : MemoryBlock → Prop} {index index' : Nat}
  {block block' : MemoryBlock}

end IsBestFit

namespace Pool

variable {p : Pool} {frame position index : Nat} {block : MemoryBlock} {requirements : Requirements}

/-! ## The best of the candidates -/

theorem mem_candidates {entry : MemoryBlock × Nat} :
    entry ∈ p.candidates frame requirements ↔
      p.blocks[entry.2]? = some entry.1 ∧ isCandidate frame requirements entry.1 = true := by
  rw [candidates, List.mem_filter, List.mem_zipIdx_iff_getElem?]

theorem pairwise_candidates (p : Pool) (frame : Nat) (requirements : Requirements) :
    (p.candidates frame requirements).Pairwise fun a b => a.2 < b.2 := by
  refine List.Pairwise.filter _ (List.pairwise_iff_getElem.2 fun i j hi hj hij => ?_)
  simpa using hij

theorem foldl_smaller_least {first : MemoryBlock × Nat} {rest : List (MemoryBlock × Nat)}
    (hsorted : (first :: rest).Pairwise fun a b => a.2 < b.2) :
    ∀ x ∈ first :: rest, (rest.foldl smaller first).1.size < x.1.size ∨
      (rest.foldl smaller first).1.size = x.1.size ∧ (rest.foldl smaller first).2 ≤ x.2 := by
  induction rest using List.reverseRecOn with
  | nil =>
      intro x hx
      rw [List.mem_singleton.1 hx]
      exact .inr ⟨rfl, Nat.le_refl _⟩
  | append_singleton rest last ih =>
      rw [← List.cons_append] at hsorted
      obtain ⟨hbefore, -, hlast⟩ := List.pairwise_append.1 hsorted
      have hleast := ih hbefore
      have hearlier := hlast _ (foldl_smaller_mem first rest) last List.mem_cons_self
      intro x hx
      rw [← List.cons_append] at hx
      rw [List.foldl_append, List.foldl_cons, List.foldl_nil]
      rw [smaller]
      rcases List.mem_append.1 hx with hx | hx
      · have hle := hleast x hx
        split <;> omega
      · rw [List.mem_singleton.1 hx]
        split <;> omega

theorem isBestFit_of_bestFit? (h : p.bestFit? frame requirements = some (block, index)) :
    IsBestFit p.blocks (isCandidate frame requirements · = true) index block := by
  have hsorted := pairwise_candidates p frame requirements
  unfold bestFit? at h
  split at h
  · cases h
  · next first rest hc =>
      rw [hc] at hsorted
      have hbest := Option.some.inj h
      have hmem := foldl_smaller_mem first rest
      have hleast := foldl_smaller_least hsorted
      rw [← hc] at hmem hleast
      rw [hbest] at hmem hleast
      obtain ⟨hhere, hfits⟩ := mem_candidates.1 hmem
      exact ⟨hhere, hfits, fun i other hother hfits =>
        hleast (other, i) (mem_candidates.2 ⟨hother, hfits⟩)⟩

theorem bestFit?_eq_none_iff :
    p.bestFit? frame requirements = none ↔
      ∀ b ∈ p.blocks, isCandidate frame requirements b = false := by
  unfold bestFit?
  constructor
  · intro h b hb
    split at h
    · next hnil =>
        obtain ⟨i, hi⟩ := List.mem_iff_getElem?.1 hb
        refine eq_false_of_ne_true fun hcand => ?_
        have hmem : (b, i) ∈ p.candidates frame requirements := mem_candidates.2 ⟨hi, hcand⟩
        rw [hnil] at hmem
        cases hmem
    · cases h
  · intro hnone
    have hnil : p.candidates frame requirements = [] := by
      refine List.eq_nil_iff_forall_not_mem.2 fun entry hentry => ?_
      obtain ⟨hget, hcand⟩ := mem_candidates.1 hentry
      rw [hnone entry.1 (List.mem_of_getElem? hget)] at hcand
      cases hcand
    rw [hnil]

/-! ## The blocks that are free -/

/-- A block that a request may take over: it belongs to the frame and is free, or memory is shared and
its tenant ends before the request begins. -/
def IsFreeFor (p : Pool) (request : TransientRequest) (b : MemoryBlock) : Prop :=
  b.frame = request.frame ∧
    (b.reserved = false ∨ p.shareMemory = true ∧ b.lifetime.last < request.lifetime.first)

/-- What becomes of a block when others are freed. -/
def released (p : Pool) (frame position : Nat) (b : MemoryBlock) : MemoryBlock :=
  { b with
    reserved := b.reserved &&
      !(p.shareMemory && decide (b.frame = frame) && decide (b.lifetime.last < position)) }

theorem blocks_retire (p : Pool) (frame position : Nat) :
    (p.retire frame position).blocks = p.blocks.map (p.released frame position) := by
  unfold retire released
  cases hshare : p.shareMemory with
  | false => simp
  | true =>
      rw [if_pos rfl]
      refine List.map_congr_left fun b _ => ?_
      split
      · next hended =>
          simp only [Bool.and_eq_true, decide_eq_true_eq] at hended
          simp [hended.1.2, hended.2]
      · next hstays =>
          have hsame : (b.reserved && !(true && decide (b.frame = frame) &&
              decide (b.lifetime.last < position))) = b.reserved := by
            cases hreserved : b.reserved <;> grind
          rw [hsame]

/-- What a request may take over is what is free once the others are. -/
theorem isCandidate_released {request : TransientRequest} {b : MemoryBlock} :
    isCandidate request.frame requirements (p.released request.frame request.lifetime.first b) =
        true ↔
      p.IsFreeFor request b ∧ b.suits requirements = true := by
  have hsuits : (p.released request.frame request.lifetime.first b).suits requirements =
      b.suits requirements := rfl
  rw [isCandidate, Bool.and_eq_true, Bool.and_eq_true, hsuits, IsFreeFor]
  unfold released
  grind

/-- The block that a request takes over, as it was before. -/
theorem bestFit?_retire {request : TransientRequest}
    (h : (p.retire request.frame request.lifetime.first).bestFit? request.frame requirements =
      some (block, index)) :
    ∃ old, IsBestFit p.blocks (fun b => p.IsFreeFor request b ∧ b.suits requirements = true) index
        old ∧
      block = { old with reserved := false } := by
  have hbest := isBestFit_of_bestFit? h
  rw [blocks_retire] at hbest
  obtain ⟨old, hold, rfl⟩ := Option.map_eq_some_iff.1
    ((List.getElem?_map ..).symm.trans hbest.here)
  refine ⟨old, ⟨hold, isCandidate_released.1 hbest.fits, fun i other hother hfits => ?_⟩, ?_⟩
  · have hget : (p.blocks.map (p.released request.frame request.lifetime.first))[i]? =
        some (p.released request.frame request.lifetime.first other) := by
      rw [List.getElem?_map, hother, Option.map_some]
    have hle := hbest.least i _ hget (isCandidate_released.2 hfits)
    exact hle
  · have hfree := (bestFit?_free h).2.1
    rw [← hfree]
    rfl

/-- Nothing that fits may be taken over. -/
theorem bestFit?_retire_eq_none_iff {request : TransientRequest} :
    (p.retire request.frame request.lifetime.first).bestFit? request.frame requirements = none ↔
      ∀ b ∈ p.blocks, p.IsFreeFor request b → b.suits requirements = false := by
  rw [bestFit?_eq_none_iff, blocks_retire, List.forall_mem_map]
  refine forall₂_congr fun b _ => ?_
  rw [← Bool.not_eq_true, isCandidate_released, not_and, Bool.not_eq_true]

/-! ## What a request gets -/

/-- What becomes of a pool once a block is chosen for a request.  Other blocks are freed at most; the
chosen one is left free if the device refuses the resource, which moves in otherwise. -/
structure Lodges (p : Pool) (request : TransientRequest) (index : Nat) (block : MemoryBlock)
    (created : Option Placement) (p' : Pool) (d' : Device) : Prop where
  others : ∀ i ≠ index, p'.blocks[i]? =
    (p.blocks[i]?).map (p.released request.frame request.lifetime.first)
  refused : created = none → p'.live = p.live ∧
    p'.blocks[index]? = some { block with reserved := false, lifetime := request.lifetime }
  moved : ∀ placement, created = some placement → placement.previous = block.tenant ∧
    d'.memoryOf? placement.object = some block.memory ∧
    p'.live = p.live ++ [⟨placement.object, request.frame⟩] ∧
    p'.blocks[index]? = some
      { block with
        reserved := true
        lifetime := request.lifetime
        tenant := some request.handle }

/-- What a request gets: the best of the blocks that are free for it and fit; and if there is none,
fresh memory, or nothing if the device refuses. -/
def Serves (p : Pool) (d : Device) (request : TransientRequest) (requirements : Requirements)
    (created : Option Placement) (p' : Pool) (d' : Device) : Prop :=
  (∃ index block,
      IsBestFit p.blocks (fun b => p.IsFreeFor request b ∧ b.suits requirements = true) index block ∧
        d'.allocationsEver = d.allocationsEver ∧ p.Lodges request index block created p' d') ∨
    (∀ b ∈ p.blocks, p.IsFreeFor request b → b.suits requirements = false) ∧
      ((d'.allocationsEver = d.allocationsEver ∧ created = none ∧
          p' = p.retire request.frame request.lifetime.first) ∨
        ∃ memory, d'.allocationsEver = d.allocationsEver + 1 ∧
          p.Lodges request p.blocks.length
            ⟨memory, requirements.size, max requirements.alignment 1, requirements.memoryTypes,
              request.lifetime, request.frame, false, none⟩ created p' d')

section Requests

variable {p' base : Pool} {d d' middle : Device} {request : TransientRequest}
  {created : Option Placement}

theorem lodges_of_settled (hd : middle.WellFormed) (hhere : base.blocks[index]? = some block)
    (hothers : ∀ i ≠ index, base.blocks[i]? =
      (p.blocks[i]?).map (p.released request.frame request.lifetime.first))
    (hlive : base.live = p.live) (hsettled : base.Settled middle request index block created p') :
    p.Lodges request index block created p'
      (middle.create block.memory request.info.kind request.name).2 := by
  have hothers' : ∀ (f : MemoryBlock → MemoryBlock), ∀ i ≠ index,
      (base.updateBlock index f).blocks[i]? =
        (p.blocks[i]?).map (p.released request.frame request.lifetime.first) := by
    intro f i hi
    rw [getElem?_updateBlock, if_neg (Ne.symm hi)]
    exact hothers i hi
  have hhere' : ∀ f : MemoryBlock → MemoryBlock,
      (base.updateBlock index f).blocks[index]? = some (f block) := by
    intro f
    rw [getElem?_updateBlock, if_pos rfl, hhere, Option.map_some]
  obtain ⟨rfl, -, rfl⟩ | ⟨object, hobject, rfl, rfl⟩ := hsettled
  · refine ⟨hothers' _, fun _ => ⟨hlive, hhere' _⟩, fun placement hplacement => ?_⟩
    cases hplacement
  · refine ⟨hothers' _, fun hnone => ?_, fun placement hplacement => ?_⟩
    · cases hnone
    · cases hplacement
      obtain ⟨hmemory, -⟩ := (hd.create block.memory request.info.kind request.name).2.2 object hobject
      exact ⟨rfl, hmemory, by rw [hlive], hhere' _⟩

/-- **A request gets the best block that is free for it and fits**, and fresh memory only if there is
none. -/
theorem create_serves (hd : d.WellFormed)
    (hok : (p.create d request).result = .ok (created, p', d')) :
    ∃ requirements, d.requirements request.info = .ok requirements ∧
      p.Serves d request requirements created p' d' := by
  obtain ⟨requirements, hrequires, ⟨rfl, rfl, hnone, error, hallocate⟩ |
    ⟨base, middle, index, block, hchosen, rfl, hsettled⟩⟩ := create_choices hok
  · refine ⟨requirements, hrequires, .inr ⟨bestFit?_retire_eq_none_iff.1 hnone, .inl ⟨?_, rfl, rfl⟩⟩⟩
    obtain ⟨-, -, rfl⟩ | ⟨hgranted, -⟩ := Device.allocate_cases hallocate
    · rfl
    · cases hgranted
  · refine ⟨requirements, hrequires, ?_⟩
    have hhere := hchosen.get?
    cases hchosen with
    | reused hfit =>
        obtain ⟨old, hbest, rfl⟩ := bestFit?_retire hfit
        have hlodges := lodges_of_settled hd hhere
          (fun i _ => by rw [blocks_retire, List.getElem?_map]) (live_retire ..) hsettled
        exact .inl ⟨index, old, hbest, Device.allocationsEver_create .., hlodges.others,
          hlodges.refused, hlodges.moved⟩
    | @added memory _ hnone hallocate =>
        refine .inr ⟨bestFit?_retire_eq_none_iff.1 hnone, .inr ⟨memory, ?_, ?_⟩⟩
        · rw [Device.allocationsEver_create]
          obtain ⟨error, hrefused, -⟩ | ⟨-, rfl⟩ := Device.allocate_cases hallocate
          · cases hrefused
          · rfl
        · have hlength : (p.retire request.frame request.lifetime.first).blocks.length =
              p.blocks.length := by
            rw [blocks_retire, List.length_map]
          rw [hlength] at hhere hsettled
          refine lodges_of_settled (hd.allocate hallocate).1 hhere (fun i hi => ?_)
            (live_retire ..) hsettled
          show ((p.retire request.frame request.lifetime.first).blocks ++ [_])[i]? = _
          rw [List.getElem?_append, hlength]
          split
          · rw [blocks_retire, List.getElem?_map]
          · rw [List.getElem?_eq_none (by simp; omega), List.getElem?_eq_none (by omega)]
            rfl

/-! ## What a request leaves as it is -/

/-- A chosen block keeps its shape, whether the resource moves in or not. -/
theorem Lodges.exists_here (h : p.Lodges request index block created p' d') :
    ∃ b', p'.blocks[index]? = some b' ∧ b'.shape = block.shape ∧
      (b'.reserved = true → b'.tenant = some request.handle) := by
  cases created with
  | none =>
      refine ⟨_, (h.refused rfl).2, rfl, fun hreserved => ?_⟩
      cases hreserved
  | some placement =>
      obtain ⟨-, -, -, hhere⟩ := h.moved placement rfl
      exact ⟨_, hhere, rfl, fun _ => rfl⟩

theorem Lodges.live (h : p.Lodges request index block created p' d') :
    p'.live = p.live ++ created.toList.map fun placement => ⟨placement.object, request.frame⟩ := by
  cases created with
  | none => exact (h.refused rfl).1.trans (List.append_nil _).symm
  | some placement => exact (h.moved placement rfl).2.2.1

namespace Serves

variable {b : MemoryBlock} {i : Nat} (h : p.Serves d request requirements created p' d')

include h

theorem live :
    p'.live = p.live ++ created.toList.map fun placement => ⟨placement.object, request.frame⟩ := by
  obtain ⟨index, block, -, -, hlodges⟩ | ⟨-, ⟨-, rfl, rfl⟩ | ⟨memory, -, hlodges⟩⟩ := h
  · exact hlodges.live
  · exact (live_retire ..).trans (List.append_nil _).symm
  · exact hlodges.live

/-- Every block keeps its shape. -/
theorem exists_shape (hget : p.blocks[i]? = some b) :
    ∃ b', p'.blocks[i]? = some b' ∧ b'.shape = b.shape := by
  have hreleased : ∀ {blocks : List MemoryBlock}, blocks[i]? =
      (p.blocks[i]?).map (p.released request.frame request.lifetime.first) →
        ∃ b', blocks[i]? = some b' ∧ b'.shape = b.shape := by
    intro blocks hblocks
    rw [hget] at hblocks
    exact ⟨_, hblocks, rfl⟩
  obtain ⟨index, block, hbest, -, hlodges⟩ | ⟨-, ⟨-, rfl, rfl⟩ | ⟨memory, -, hlodges⟩⟩ := h
  · by_cases hi : i = index
    · subst hi
      obtain ⟨b', hb', hshape, -⟩ := hlodges.exists_here
      obtain rfl : block = b := Option.some.inj (hbest.here.symm.trans hget)
      exact ⟨b', hb', hshape⟩
    · exact hreleased (hlodges.others i hi)
  · exact hreleased (by rw [blocks_retire, List.getElem?_map])
  · obtain ⟨hlt, -⟩ := List.getElem?_eq_some_iff.1 hget
    exact hreleased (hlodges.others i (Nat.ne_of_lt hlt))

/-- A block that is reserved was reserved before, or has just been taken over. -/
theorem reserved {b' : MemoryBlock} (hget : p'.blocks[i]? = some b') (hreserved : b'.reserved = true) :
    b'.tenant = some request.handle ∨
      ∃ b, p.blocks[i]? = some b ∧ b.reserved = true ∧ b'.place = b.place ∧ b'.tenant = b.tenant := by
  have hreleased : ∀ {blocks : List MemoryBlock}, blocks[i]? =
      (p.blocks[i]?).map (p.released request.frame request.lifetime.first) →
        blocks[i]? = some b' →
          ∃ b, p.blocks[i]? = some b ∧ b.reserved = true ∧ b'.place = b.place ∧ b'.tenant = b.tenant := by
    intro blocks hblocks hb'
    obtain ⟨b, hb, rfl⟩ := Option.map_eq_some_iff.1 (hblocks.symm.trans hb')
    exact ⟨b, hb, (Bool.and_eq_true_iff.1 hreserved).1, rfl, rfl⟩
  have hchosen : ∀ {index block}, p.Lodges request index block created p' d' →
      b'.tenant = some request.handle ∨
        ∃ b, p.blocks[i]? = some b ∧ b.reserved = true ∧ b'.place = b.place ∧
          b'.tenant = b.tenant := by
    intro index block hlodges
    by_cases hi : i = index
    · subst hi
      obtain ⟨found, hfound, -, htenant⟩ := hlodges.exists_here
      obtain rfl : found = b' := Option.some.inj (hfound.symm.trans hget)
      exact .inl (htenant hreserved)
    · exact .inr (hreleased (hlodges.others i hi) hget)
  obtain ⟨index, block, -, -, hlodges⟩ | ⟨-, ⟨-, rfl, rfl⟩ | ⟨memory, -, hlodges⟩⟩ := h
  · exact hchosen hlodges
  · exact .inr (hreleased (by rw [blocks_retire, List.getElem?_map]) hget)
  · exact hchosen hlodges

/-- A resource that is served lies on a block of its frame that suits it. -/
theorem housed {placement : Placement} (hcreated : created = some placement) :
    ∃ block ∈ p'.blocks, block.frame = request.frame ∧
      d'.memoryOf? placement.object = some block.memory ∧ block.suits requirements = true := by
  obtain ⟨index, block, hbest, -, hlodges⟩ | ⟨-, ⟨-, rfl, -⟩ | ⟨memory, -, hlodges⟩⟩ := h
  · obtain ⟨-, hmemory, -, hhere⟩ := hlodges.moved placement hcreated
    exact ⟨_, List.mem_of_getElem? hhere, hbest.fits.1.1, hmemory, hbest.fits.2⟩
  · cases hcreated
  · obtain ⟨-, hmemory, -, hhere⟩ := hlodges.moved placement hcreated
    refine ⟨_, List.mem_of_getElem? hhere, rfl, hmemory, suits_iff.2 ⟨Nat.le_refl _, Nat.dvd_refl _, ?_⟩⟩
    exact Mask.contains_refl _

end Serves

end Requests

end Pool

end FrameGraph
