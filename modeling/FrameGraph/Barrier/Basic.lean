import FrameGraph.Command
import FrameGraph.Handle

/-!
# Barriers of the plan

A barrier leads a resource from a source state to a target state.  It names the resource by its
handle; only when a frame is recorded does it become a memory barrier on the object of that frame.

Two marks say that the source is not final.  A barrier that `continues` starts where the frame
before left a persistent image, and drops the content if the image is new.  A barrier that
`takesOver` waits for the resource that held the same memory before, if there is one.
-/

set_option autoImplicit false

namespace FrameGraph

/-- A barrier on an image. -/
structure ImageBarrier where
  resource : Handle
  source : ImageState
  target : ImageState
  aspect : AspectMask := Aspect.color
  continues : Bool := false
  takesOver : Bool := false
  deriving DecidableEq, Repr

namespace ImageBarrier

/-- Holds if the barrier changes the layout or separates a write from another access. -/
def isNeeded (b : ImageBarrier) : Bool :=
  b.source.layout ≠ b.target.layout || b.source.isWrite || b.target.isWrite

/-- Holds if the barrier is kept although it may not be needed. -/
def isPinned (b : ImageBarrier) : Bool := b.continues || b.takesOver

/-- The barrier for a new image, which has no content yet. -/
def withoutContent (b : ImageBarrier) : ImageBarrier :=
  { b with source := ⟨b.source.stage, Access.none, .undefined⟩ }

/-- The barrier for an image in the memory of another resource, last accessed in the given
state. -/
def takingOver (b : ImageBarrier) (previous : ImageState) : ImageBarrier :=
  { b with source := ⟨previous.stage, previous.access, .undefined⟩ }

/-- The memory barrier on an image of the device, on all its mip levels and layers. -/
def lower (b : ImageBarrier) (image : Nat) : ImageMemoryBarrier where
  image
  srcStage := b.source.stage
  srcAccess := b.source.srcAccess
  dstStage := b.target.stage
  dstAccess := b.target.access
  oldLayout := b.source.layout
  newLayout := b.target.layout
  range := ⟨b.aspect, 0, remainingCount, 0, remainingCount⟩

end ImageBarrier

/-- A barrier on a buffer. -/
structure BufferBarrier where
  resource : Handle
  source : BufferState
  target : BufferState
  offset : Nat := 0
  size : Nat := wholeSize
  takesOver : Bool := false
  deriving DecidableEq, Repr

namespace BufferBarrier

/-- Holds if the barrier separates a write from another access. -/
def isNeeded (b : BufferBarrier) : Bool := b.source.isWrite || b.target.isWrite

/-- The barrier for a buffer in the memory of another resource, last accessed in the given
state. -/
def takingOver (b : BufferBarrier) (previous : BufferState) : BufferBarrier :=
  { b with source := previous }

/-- The memory barrier on a buffer of the device. -/
def lower (b : BufferBarrier) (buffer : Nat) : BufferMemoryBarrier where
  buffer
  srcStage := b.source.stage
  srcAccess := b.source.toImageState.srcAccess
  dstStage := b.target.stage
  dstAccess := b.target.access
  offset := b.offset
  size := b.size

end BufferBarrier

/-- The barriers at one point of a frame. -/
structure Barriers where
  images : List ImageBarrier := []
  buffers : List BufferBarrier := []
  deriving DecidableEq, Repr, Inhabited

namespace Barriers

/-- The number of barriers. -/
def count (b : Barriers) : Nat := b.images.length + b.buffers.length

/-- Holds if there is no barrier. -/
def isEmpty (b : Barriers) : Bool := b.images.isEmpty && b.buffers.isEmpty

/-- The first barrier on an image. -/
def image? (b : Barriers) (h : Handle) : Option ImageBarrier :=
  b.images.find? fun barrier => barrier.resource = h

/-- The first barrier on a buffer. -/
def buffer? (b : Barriers) (h : Handle) : Option BufferBarrier :=
  b.buffers.find? fun barrier => barrier.resource = h

end Barriers

/-- The barriers before and after a pass. -/
structure AroundPass where
  before : Barriers := {}
  after : Barriers := {}
  deriving DecidableEq, Repr, Inhabited

/-- The number of barriers around a pass. -/
def AroundPass.count (b : AroundPass) : Nat := b.before.count + b.after.count

end FrameGraph
