import FrameGraph.Device
import FrameGraph.Logged

/-!
# The pool of transient memory

Transient resources live in memory blocks.  Every block belongs to one frame index, and within that
frame a block may hold several resources one after another: a request takes over a block whose
tenant has ended before the request begins.  Of the free blocks that fit, the smallest is taken.

Recording in order does not mean executing in order, so a resource that takes over a block is told
who held it before: its first barrier has to wait for that resource.

Principal statements: `suits_iff` — what makes a block suit a request — and `bestFit?_free` — a
block is taken over only if it is free, of the same frame, and suits.
-/

set_option autoImplicit false

namespace FrameGraph

/-- A memory block, the frame that it belongs to, and its last use. -/
structure MemoryBlock where
  memory : Handle
  size : Nat
  alignment : Nat
  memoryTypes : MemoryTypeMask
  lifetime : Lifetime
  frame : Nat
  reserved : Bool
  tenant : Option Handle
  deriving DecidableEq, Repr

/-- Holds if the block offers what is required. -/
def MemoryBlock.suits (b : MemoryBlock) (r : Requirements) : Bool :=
  r.size ≤ b.size && b.alignment % max r.alignment 1 = 0 && r.memoryTypes.contains b.memoryTypes

/-- A live resource of the pool. -/
structure LiveObject where
  object : DeviceObject
  frame : Nat
  deriving DecidableEq, Repr

/-- What a frame asks of the pool: a resource for a range of positions. -/
structure TransientRequest where
  handle : Handle
  info : ResourceInfo
  name : String
  lifetime : Lifetime
  frame : Nat
  deriving Repr

/-- What the pool gives: a resource, and the one that held its memory before in this frame. -/
structure Placement where
  object : DeviceObject
  previous : Option Handle
  deriving DecidableEq, Repr

/-- The memory blocks and the live resources in them. -/
structure Pool where
  blocks : List MemoryBlock := []
  live : List LiveObject := []
  shareMemory : Bool := true
  deriving Repr

namespace Pool

/-- The bytes of all blocks. -/
def totalBytes (p : Pool) : Except Fault Nat := checkedSum (p.blocks.map (·.size))

/-- Frees the blocks of a frame whose tenants end before a position, if memory is shared. -/
def retire (p : Pool) (frame position : Nat) : Pool :=
  if p.shareMemory then
    { p with
      blocks := p.blocks.map fun b =>
        if b.reserved && b.frame = frame && b.lifetime.last < position then
          { b with reserved := false }
        else b }
  else p

/-- Holds if the block may be taken over. -/
def isCandidate (frame : Nat) (requirements : Requirements) (b : MemoryBlock) : Bool :=
  !b.reserved && b.frame = frame && b.suits requirements

/-- The candidates with their positions. -/
def candidates (p : Pool) (frame : Nat) (requirements : Requirements) :
    List (MemoryBlock × Nat) :=
  p.blocks.zipIdx.filter fun (b, _) => isCandidate frame requirements b

/-- The smaller of two candidates; of equals, the first. -/
def smaller (a b : MemoryBlock × Nat) : MemoryBlock × Nat := if b.1.size < a.1.size then b else a

/-- The smallest candidate, and the first of these. -/
def bestFit? (p : Pool) (frame : Nat) (requirements : Requirements) :
    Option (MemoryBlock × Nat) :=
  match p.candidates frame requirements with
  | [] => none
  | first :: rest => some (rest.foldl smaller first)

/-- Changes the block at a position. -/
def updateBlock (p : Pool) (index : Nat) (f : MemoryBlock → MemoryBlock) : Pool :=
  { p with blocks := p.blocks.modify index f }

/-- Reserves a block for a range of positions. -/
def reserve (p : Pool) (index : Nat) (lifetime : Lifetime) : Pool :=
  p.updateBlock index fun b => { b with reserved := true, lifetime }

/-- Adds a block of fresh memory, which is not in use yet. -/
def addBlock (p : Pool) (memory : Handle) (requirements : Requirements) (lifetime : Lifetime)
    (frame : Nat) : Pool :=
  { p with
    blocks := p.blocks ++
      [{ memory
         size := requirements.size
         alignment := max requirements.alignment 1
         memoryTypes := requirements.memoryTypes
         lifetime
         frame
         reserved := false
         tenant := none }] }

/-- Reserves a block for a request: the best fit, or a block of fresh memory.  Answers the memory
and the position of the block. -/
def acquire (p : Pool) (device : Device) (requirements : Requirements)
    (request : TransientRequest) : Outcome (Option (Handle × Nat) × Pool × Device) := do
  let p := p.retire request.frame request.lifetime.first
  match p.bestFit? request.frame requirements with
  | some (block, index) =>
      (Logged.report (.blockReused request.name index block.size request.frame) : Logged Unit)
      return (some (block.memory, index), p.reserve index request.lifetime, device)
  | none =>
      let (granted, device) ← (device.allocate requirements request.name : Except Fault _)
      match granted with
      | .error error =>
          (Logged.report (.poolExhausted request.name error) : Logged Unit)
          return (none, p, device)
      | .ok memory =>
          let index := p.blocks.length
          let p := p.addBlock memory requirements request.lifetime request.frame
          return (some (memory, index), p.reserve index request.lifetime, device)

/-- Lets a resource move into a reserved block.  Answers who held the block before. -/
def moveIn (p : Pool) (index : Nat) (object : DeviceObject) (request : TransientRequest) :
    Option Handle × Pool :=
  let previous := (p.blocks[index]?).bind (·.tenant)
  let p := p.updateBlock index fun b => { b with tenant := some request.handle }
  (previous, { p with live := p.live ++ [⟨object, request.frame⟩] })

/-- Creates a transient resource, if the device allows. -/
def create (p : Pool) (device : Device) (request : TransientRequest) :
    Outcome (Option Placement × Pool × Device) := do
  let requirements ← (device.requirements request.info : Except Fault _)
  let (acquired, p, device) ← p.acquire device requirements request
  match acquired with
  | none => return (none, p, device)
  | some (memory, index) =>
      let (created, device) := device.create memory request.info.kind request.name
      match created with
      | .error error =>
          (Logged.report (.transientFailed request.info.kind request.name error) : Logged Unit)
          return (none, p.updateBlock index fun b => { b with reserved := false }, device)
      | .ok object =>
          let (previous, p) := p.moveIn index object request
          match previous with
          | none => return (some ⟨object, none⟩, p, device)
          | some former =>
              (Logged.report (.memoryAliased request.handle former request.frame) : Logged Unit)
              return (some ⟨object, some former⟩, p, device)

/-- Begins a frame: its resources are destroyed, and all its blocks are free and vacant. -/
def recycle (p : Pool) (device : Device) (frame : Nat) : Pool × Device :=
  let (ended, live) := p.live.partition fun r => r.frame = frame
  ({ p with
      live
      blocks := p.blocks.map fun b =>
        if b.frame = frame then { b with reserved := false, tenant := none } else b },
    ended.foldl (fun device r => device.destroy r.object) device)

/-- Destroys all resources and frees all memory. -/
def release (p : Pool) (device : Device) : Pool × Device :=
  let device := p.live.foldl (fun device r => device.destroy r.object) device
  ({ p with live := [], blocks := [] },
    p.blocks.foldl (fun device b => device.free b.memory) device)

/-! ## Choosing a block -/

theorem suits_iff {b : MemoryBlock} {r : Requirements} :
    b.suits r = true ↔
      r.size ≤ b.size ∧ max r.alignment 1 ∣ b.alignment ∧
        r.memoryTypes.contains b.memoryTypes = true := by
  simp [MemoryBlock.suits, Nat.dvd_iff_mod_eq_zero, and_assoc]

theorem foldl_smaller_mem (first : MemoryBlock × Nat) (rest : List (MemoryBlock × Nat)) :
    rest.foldl smaller first ∈ first :: rest := by
  induction rest generalizing first with
  | nil => simp
  | cons next rest ih =>
      rcases List.mem_cons.1 (ih (smaller first next)) with h | h
      · rw [List.foldl_cons, h]
        unfold smaller
        split <;> simp
      · simp [h]

/-- A block is taken over only if it is free, of the same frame, and fits. -/
theorem bestFit?_free {p : Pool} {frame index : Nat} {requirements : Requirements}
    {block : MemoryBlock} (h : p.bestFit? frame requirements = some (block, index)) :
    p.blocks[index]? = some block ∧ block.reserved = false ∧ block.frame = frame ∧
      block.suits requirements = true := by
  unfold bestFit? at h
  split at h
  · cases h
  · next first rest hc =>
      have hmem : (block, index) ∈ p.candidates frame requirements := by
        rw [hc, ← Option.some.inj h]
        exact foldl_smaller_mem first rest
      obtain ⟨hz, hcand⟩ := List.mem_filter.1 hmem
      have hget := List.mem_zipIdx_iff_getElem?.1 hz
      simp only [isCandidate, Bool.and_eq_true, Bool.not_eq_true', decide_eq_true_eq] at hcand
      exact ⟨hget, hcand.1.1, hcand.1.2, hcand.2⟩

end Pool

end FrameGraph
