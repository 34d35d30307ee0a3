import FrameGraph.Info
import FrameGraph.State
import FrameGraph.Usage

/-!
# Recorded commands

What ends up in the command stream of a frame: barriers, and labels around the work of passes.
A memory barrier waits for the source stages, makes the source accesses available, makes them
visible to the destination accesses and holds back the destination stages; for an image it may
change the layout.
-/

set_option autoImplicit false

namespace FrameGraph

/-- The queue family of a barrier that does not transfer ownership. -/
def queueFamilyIgnored : Nat := 0xFFFFFFFF

/-- The count that stands for all remaining mip levels or array layers. -/
def remainingCount : Nat := 0xFFFFFFFF

/-- The size that stands for the rest of a buffer. -/
def wholeSize : Nat := 0xFFFFFFFFFFFFFFFF

/-- A barrier on an image of the device. -/
structure ImageMemoryBarrier where
  image : Nat
  srcStage : StageMask
  srcAccess : AccessMask
  dstStage : StageMask
  dstAccess : AccessMask
  oldLayout : Layout
  newLayout : Layout
  range : SubresourceRange
  srcQueueFamily : Nat := queueFamilyIgnored
  dstQueueFamily : Nat := queueFamilyIgnored
  deriving DecidableEq, Repr

/-- A barrier on a buffer of the device. -/
structure BufferMemoryBarrier where
  buffer : Nat
  srcStage : StageMask
  srcAccess : AccessMask
  dstStage : StageMask
  dstAccess : AccessMask
  offset : Nat
  size : Nat
  srcQueueFamily : Nat := queueFamilyIgnored
  dstQueueFamily : Nat := queueFamilyIgnored
  deriving DecidableEq, Repr

/-- A command of the stream. -/
inductive Command where
  | barrier (images : List ImageMemoryBarrier) (buffers : List BufferMemoryBarrier)
  | beginLabel (name : String) (color : LabelColor)
  | endLabel
  deriving DecidableEq, Repr

namespace Command

/-- The image barriers of a command. -/
def imageBarriers : Command → List ImageMemoryBarrier
  | .barrier images _ => images
  | _ => []

/-- The buffer barriers of a command. -/
def bufferBarriers : Command → List BufferMemoryBarrier
  | .barrier _ buffers => buffers
  | _ => []

/-- The label that a command begins. -/
def label? : Command → Option (String × LabelColor)
  | .beginLabel name color => some (name, color)
  | _ => none

end Command

end FrameGraph
