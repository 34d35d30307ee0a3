import FrameGraph.Proofs.Memory.Holdings
import Mathlib.Data.List.Induction

/-!
# Who held a block before

A block remembers the resource that moved in last.  Over the requests of a frame this is the last of
those that have moved into its memory, so a resource that takes a block over is told who was there right
before it, and one that gets fresh memory is told of nobody.

Principal statement: `Pool.Tenancy.serve`.
-/

set_option autoImplicit false

namespace FrameGraph

/-! ## The last one in some memory -/

/-- The resource that was the last to move into some memory. -/
def lastIn (stays : List (Handle × Stay)) (memory : Handle) : Option Handle :=
  ((stays.filter fun x => x.2.memory = memory).getLast?).map (·.1)

section LastIn

variable {stays : List (Handle × Stay)} {memory h : Handle} {stay : Stay}

theorem lastIn_concat (hmemory : stay.memory = memory) :
    lastIn (stays ++ [(h, stay)]) memory = some h := by
  simp [lastIn, List.filter_append, hmemory]

theorem lastIn_concat_of_ne (hmemory : stay.memory ≠ memory) :
    lastIn (stays ++ [(h, stay)]) memory = lastIn stays memory := by
  simp [lastIn, List.filter_append, hmemory]

theorem lastIn_eq_none (hother : ∀ x ∈ stays, x.2.memory ≠ memory) : lastIn stays memory = none := by
  have hnone : (stays.filter fun x => x.2.memory = memory) = [] :=
    List.filter_eq_nil_iff.2 fun x hx => by simpa using hother x hx
  rw [lastIn, hnone]
  rfl

/-- Nobody has moved in behind the last one. -/
theorem exists_of_lastIn (hlast : lastIn stays memory = some h) :
    ∃ before stay after, stays = before ++ (h, stay) :: after ∧ stay.memory = memory ∧
      ∀ x ∈ after, x.2.memory ≠ memory := by
  induction stays using List.reverseRecOn with
  | nil => cases hlast
  | append_singleton stays x ih =>
      obtain ⟨k, stay⟩ := x
      by_cases hmemory : stay.memory = memory
      · rw [lastIn_concat hmemory] at hlast
        cases hlast
        exact ⟨stays, stay, [], rfl, hmemory, fun x hx => by cases hx⟩
      · rw [lastIn_concat_of_ne hmemory] at hlast
        obtain ⟨before, found, after, rfl, hfound, hafter⟩ := ih hlast
        refine ⟨before, found, after ++ [(k, stay)], by simp, hfound, fun x hx => ?_⟩
        rcases List.mem_append.1 hx with hx | hx
        · exact hafter x hx
        · rw [List.mem_singleton.1 hx]
          exact hmemory

theorem exists_lastIn {x : Handle × Stay} (hx : x ∈ stays) (hmemory : x.2.memory = memory) :
    ∃ k, lastIn stays memory = some k := by
  have hmem : x ∈ stays.filter fun x => x.2.memory = memory :=
    List.mem_filter.2 ⟨hx, decide_eq_true hmemory⟩
  have hlast := List.getLast?_eq_some_getLast (List.ne_nil_of_mem hmem)
  rw [lastIn, hlast]
  exact ⟨_, rfl⟩

end LastIn

/-! ## What the blocks remember -/

/-- What a block remembers besides its place: who moved in last. -/
def MemoryBlock.seat (b : MemoryBlock) : (Handle × Nat) × Option Handle := (b.place, b.tenant)

namespace Pool

/-- Every block of a frame remembers the last of those that have moved in. -/
def Tenancy (p : Pool) (frame : Nat) (stays : List (Handle × Stay)) : Prop :=
  ∀ b ∈ p.blocks, b.frame = frame → b.tenant = lastIn stays b.memory

namespace Tenancy

variable {p p' : Pool} {frame : Nat} {stays : List (Handle × Stay)}

/-- At the beginning of a frame its blocks are vacant. -/
theorem recycle (p : Pool) (d : Device) (frame : Nat) :
    (p.recycle d frame).1.Tenancy frame [] := by
  intro b hb hframe
  obtain ⟨old, -, rfl⟩ := List.mem_map.1 hb
  split
  · rfl
  · next hother =>
      rw [if_neg hother] at hframe
      exact absurd hframe hother

/-- Only the memory of the blocks and those who moved in matter. -/
theorem of_seats (h : p.Tenancy frame stays)
    (hseats : p'.blocks.map MemoryBlock.seat = p.blocks.map MemoryBlock.seat) :
    p'.Tenancy frame stays := by
  intro b hb hframe
  have hmem : b.seat ∈ p.blocks.map MemoryBlock.seat := hseats ▸ List.mem_map_of_mem hb
  obtain ⟨old, hold, hseat⟩ := List.mem_map.1 hmem
  obtain ⟨hplace, htenant⟩ := Prod.mk.inj hseat
  obtain ⟨hmemory, hframe'⟩ := Prod.mk.inj hplace
  rw [← htenant, ← hmemory]
  exact h old hold (hframe'.trans hframe)

theorem retire (h : p.Tenancy frame stays) (owner position : Nat) :
    (p.retire owner position).Tenancy frame stays :=
  h.of_seats (map_retire (fun _ => rfl) p owner position)

/-- A block of fresh memory has had no tenant. -/
theorem addBlock (h : p.Tenancy frame stays) {memory : Handle}
    (hfresh : ∀ x ∈ stays, x.2.memory ≠ memory) (requirements : Requirements) (lifetime : Lifetime)
    (owner : Nat) : (p.addBlock memory requirements lifetime owner).Tenancy frame stays := by
  intro b hb hframe
  rcases List.mem_append.1 hb with hb | hb
  · exact h b hb hframe
  · rw [List.mem_singleton.1 hb]
    exact (lastIn_eq_none hfresh).symm

/-- A resource moves in, and its block remembers it. -/
theorem moveIn (h : p.Tenancy frame stays) (hnd : (p.blocks.map (·.memory)).Nodup) {index : Nat}
    {block : MemoryBlock} (hget : p.blocks[index]? = some block)
    {f : MemoryBlock → MemoryBlock} (hf : ∀ b, (f b).place = b.place) {k : Handle}
    (htenant : (f block).tenant = some k) (lifetime : Lifetime) :
    (p.updateBlock index f).Tenancy frame (stays ++ [(k, ⟨lifetime, block.memory⟩)]) := by
  intro b hb hframe
  obtain ⟨i, hi⟩ := List.mem_iff_getElem?.1 hb
  rw [getElem?_updateBlock] at hi
  split at hi
  · next hindex =>
      subst hindex
      rw [hget, Option.map_some] at hi
      cases hi
      have hmemory : (f block).memory = block.memory := congrArg Prod.fst (hf block)
      rw [htenant, lastIn_concat hmemory.symm]
  · next hother =>
      -- Another block has other memory.
      have hne : block.memory ≠ b.memory := by
        intro heq
        apply hother
        obtain ⟨hlt, -⟩ := List.getElem?_eq_some_iff.1 hget
        refine (List.getElem?_inj (by simpa using hlt) hnd).1 ?_
        rw [List.getElem?_map, List.getElem?_map, hget, hi, Option.map_some, Option.map_some, heq]
      rw [lastIn_concat_of_ne hne]
      exact h b (List.mem_of_getElem? hi) hframe

variable {d d' : Device} {b : Backings} {request : TransientRequest}

theorem prepare (h : p.Tenancy frame stays) (hheld : Holdings d p b)
    (hknown : ∀ x ∈ stays, ∃ block ∈ p.blocks, block.memory = x.2.memory)
    (hprepared : p.Prepared d request p' d') : p'.Tenancy frame stays := by
  have hretired := h.retire request.frame request.lifetime.first
  cases hprepared with
  | reused => exact hretired
  | added hallocate =>
      obtain ⟨-, -, hmemory⟩ := hheld.device.allocate hallocate
      obtain ⟨hfresh, -⟩ := hmemory _ rfl
      refine hretired.addBlock (fun x hx heq => ?_) _ _ _
      obtain ⟨block, hblock, hsame⟩ := hknown x hx
      have hallocated := hheld.allocated _ (List.mem_append_left _ (List.mem_map_of_mem hblock))
      rw [hsame, heq, hfresh] at hallocated
      cases hallocated

/-- **A request that is served is told who was the last in the memory that it gets.** -/
theorem serve (h : p.Tenancy request.frame stays) (hheld : Holdings d p b)
    (hknown : ∀ x ∈ stays, ∃ block ∈ p.blocks, block.memory = x.2.memory)
    {created : Option Placement} (hok : (p.create d request).result = .ok (created, p', d')) :
    match created with
    | none => p'.Tenancy request.frame stays
    | some placement =>
        ∀ memory, d'.memoryOf? placement.object = some memory →
          placement.previous = lastIn stays memory ∧
            p'.Tenancy request.frame (stays ++ [(request.handle, ⟨request.lifetime, memory⟩)]) := by
  obtain ⟨rfl, rfl, -⟩ |
    ⟨base, middle, index, block, hprepared, hget, -, hframe, rfl, hresult⟩ := create_cases hok
  · exact h.retire _ _
  · have hbase := h.prepare hheld hknown hprepared
    have hheldBase := (hheld.prepare hprepared).1
    obtain ⟨rfl, -, rfl⟩ | ⟨object, hcreated, rfl, rfl⟩ := hresult
    · refine hbase.of_seats (map_updateBlock ?_ base index)
      intro b
      rfl
    · intro memory hmemory
      have hlies := ((hheldBase.device.create _ _ _).2.2 object hcreated).1
      obtain rfl : block.memory = memory := Option.some.inj (hlies.symm.trans hmemory)
      refine ⟨hbase block (List.mem_of_getElem? hget) hframe, ?_⟩
      have hnd := (List.nodup_append.1 hheldBase.memories).1
      have hmoved := hbase.moveIn hnd hget (f := fun b =>
        { b with reserved := true, lifetime := request.lifetime, tenant := some request.handle })
        (fun _ => rfl) rfl request.lifetime
      exact hmoved

end Tenancy

end Pool

end FrameGraph
