import FrameGraph.Command
import FrameGraph.Device.Error
import FrameGraph.Device.Requirements
import FrameGraph.Resource
import FrameGraph.SlotTable

/-!
# The device

A device without a processor behind it: it hands out memory and numbers objects, remembers which
object lies in which memory and what it was told to give up, and collects the recorded commands.
Its policy says what resources require, how much memory there is, and which requests it refuses.
-/

set_option autoImplicit false

namespace FrameGraph

/-- A request that a device may refuse. -/
inductive DeviceRequest where
  | allocate (name : String)
  | create (kind : ResourceKind) (name : String)
  deriving DecidableEq, Repr

/-- What a device answers to requests. -/
structure DevicePolicy where
  imageRequirements : ImageInfo → Except Fault Requirements := ImageInfo.requirements
  bufferRequirements : BufferInfo → Except Fault Requirements := BufferInfo.requirements
  /-- The bytes that may be in use at a time. -/
  budget : Option Nat := none
  /-- Whether the `n`-th request is refused whatever it would need. -/
  refuses : Nat → DeviceRequest → Bool := fun _ _ => false

/-- A request that a device has answered. -/
inductive DeviceCall where
  | allocate (requirements : Requirements) (name : String) (answer : Except DeviceError Handle)
  | create (memory : Handle) (kind : ResourceKind) (name : String)
      (answer : Except DeviceError DeviceObject)
  deriving Repr

/-- The name under which something was requested. -/
def DeviceCall.name : DeviceCall → String
  | .allocate _ name _ => name
  | .create _ _ name _ => name

/-- Something that a device is told to give up. -/
inductive Disposal where
  | image (image : Nat)
  | buffer (buffer : Nat)
  | memory (memory : Handle)
  deriving DecidableEq, Repr

/-- The objects, memory and commands of a device, and what it was asked. -/
structure Device where
  policy : DevicePolicy := {}
  /-- The requests so far, with the answers. -/
  calls : List DeviceCall := []
  /-- The number of the last object. -/
  lastObject : Nat := 0
  /-- The sizes of the live allocations. -/
  memory : SlotTable Nat := .empty
  /-- The number of allocations so far, freed ones included. -/
  allocationsEver : Nat := 0
  /-- The live images, each with its memory. -/
  images : List (Nat × Handle) := []
  /-- The live buffers, each with its memory. -/
  buffers : List (Nat × Handle) := []
  /-- What the device was told to give up so far, whether it was there or not. -/
  disposals : List Disposal := []
  /-- The commands recorded since they were taken last. -/
  commands : List Command := []

namespace Device

/-- The number of live allocations. -/
def liveAllocations (d : Device) : Nat := d.memory.size

/-- The bytes in use. -/
def bytesInUse (d : Device) : Except Fault Nat := checkedSum (d.memory.toList.map (·.2))

/-- The memory of a live image. -/
def imageMemory? (d : Device) (image : Nat) : Option Handle := d.images.lookup image

/-- The memory of a live buffer. -/
def bufferMemory? (d : Device) (buffer : Nat) : Option Handle := d.buffers.lookup buffer

/-- What a resource requires. -/
def requirements (d : Device) : ResourceInfo → Except Fault Requirements
  | .image info => d.policy.imageRequirements info
  | .buffer info => d.policy.bufferRequirements info

/-! ## Memory -/

/-- Holds if the device refuses its next request. -/
def refusesNext (d : Device) (request : DeviceRequest) : Bool :=
  d.policy.refuses d.calls.length request

/-- The device after it has answered a request. -/
def note (d : Device) (call : DeviceCall) : Device := { d with calls := d.calls ++ [call] }

/-- Hands out memory. -/
def grant (d : Device) (size : Nat) : Handle × Device :=
  let (h, memory) := d.memory.insert size
  (h, { d with memory, allocationsEver := d.allocationsEver + 1 })

/-- Hands out memory, if the policy and the budget allow. -/
def tryAllocate (d : Device) (requirements : Requirements) (name : String) :
    Except Fault (Except DeviceError Handle × Device) :=
  if d.refusesNext (.allocate name) then
    return (.error (.allocationRefused name), d)
  else do
    let inUse ← d.bytesInUse
    match d.policy.budget with
    | none =>
        let (h, d) := d.grant requirements.size
        return (.ok h, d)
    | some budget =>
        let needed ← checkedAdd inUse requirements.size
        if needed > budget then
          return (.error (.outOfMemory requirements.size name inUse budget), d)
        else
          let (h, d) := d.grant requirements.size
          return (.ok h, d)

/-- Answers a request for memory. -/
def allocate (d : Device) (requirements : Requirements) (name : String) :
    Except Fault (Except DeviceError Handle × Device) := do
  let (granted, d) ← d.tryAllocate requirements name
  return (granted, d.note (.allocate requirements name granted))

/-- Frees memory; freed memory stays as it is. -/
def free (d : Device) (memory : Handle) : Device :=
  { d with
    memory := d.memory.remove memory
    disposals := d.disposals ++ [.memory memory] }

/-! ## Objects -/

/-- Creates an image with its view, or a buffer, in allocated memory, if the policy allows. -/
def tryCreate (d : Device) (memory : Handle) (kind : ResourceKind) (name : String) :
    Except DeviceError DeviceObject × Device :=
  if d.refusesNext (.create kind name) then
    (.error (.creationRefused kind name), d)
  else if !d.memory.contains memory then
    (.error (.memoryFreed kind name), d)
  else
    let first := d.lastObject + 1
    match kind with
    | .image =>
        (.ok (.image first (first + 1)),
          { d with
            lastObject := first + 1
            images := d.images ++ [(first, memory)] })
    | .buffer =>
        (.ok (.buffer first),
          { d with
            lastObject := first
            buffers := d.buffers ++ [(first, memory)] })

/-- Answers a request for an object. -/
def create (d : Device) (memory : Handle) (kind : ResourceKind) (name : String) :
    Except DeviceError DeviceObject × Device :=
  let (created, d) := d.tryCreate memory kind name
  (created, d.note (.create memory kind name created))

/-- Destroys an image and its view. -/
def destroyImage (d : Device) (image : Nat) : Device :=
  { d with
    images := d.images.filter fun entry => entry.1 ≠ image
    disposals := d.disposals ++ [.image image] }

/-- Destroys a buffer. -/
def destroyBuffer (d : Device) (buffer : Nat) : Device :=
  { d with
    buffers := d.buffers.filter fun entry => entry.1 ≠ buffer
    disposals := d.disposals ++ [.buffer buffer] }

/-- Destroys what is behind a resource. -/
def destroy (d : Device) : DeviceObject → Device
  | .image image _ => d.destroyImage image
  | .buffer buffer => d.destroyBuffer buffer

/-! ## Commands -/

/-- Records commands. -/
def record (d : Device) (commands : List Command) : Device :=
  { d with commands := d.commands ++ commands }

/-- The recorded commands, which the device forgets. -/
def drainCommands (d : Device) : List Command × Device := (d.commands, { d with commands := [] })

/-- The image barriers among the recorded commands. -/
def imageBarriers (d : Device) : List ImageMemoryBarrier :=
  d.commands.flatMap Command.imageBarriers

/-- The buffer barriers among the recorded commands. -/
def bufferBarriers (d : Device) : List BufferMemoryBarrier :=
  d.commands.flatMap Command.bufferBarriers

/-- The labels begun among the recorded commands, with their colours. -/
def labels (d : Device) : List (String × LabelColor) :=
  d.commands.filterMap Command.label?

end Device

end FrameGraph
