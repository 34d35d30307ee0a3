import FrameGraph.Info
import FrameGraph.State

/-!
# Creating objects

What a device is told when it creates the object behind a resource: everything that is known about
the resource, and the decisions that are the same for all of them.  Texels are arranged as the
device likes best, one queue family uses an object at a time, and a new image has no layout yet.
-/

set_option autoImplicit false

namespace FrameGraph

/-- How the texels of an image are arranged. -/
inductive Tiling where
  | optimal
  | linear
  deriving DecidableEq, Repr

/-- Which queue families may use an object. -/
inductive SharingMode where
  | exclusive
  | concurrent
  deriving DecidableEq, Repr

/-- The number of an arrangement. -/
def Tiling.code : Tiling → Nat
  | .optimal => 0
  | .linear => 1

/-- The number of a sharing mode. -/
def SharingMode.code : SharingMode → Nat
  | .exclusive => 0
  | .concurrent => 1

/-- The number of a shape; the views of cubes have the numbers in between. -/
def ViewType.code : ViewType → Nat
  | .oneDimensional => 0
  | .twoDimensional => 1
  | .threeDimensional => 2
  | .oneDimensionalArray => 4
  | .twoDimensionalArray => 5

/-- The order to create an image. -/
structure ImageCreation where
  info : ImageInfo
  tiling : Tiling
  sharing : SharingMode
  initialLayout : Layout
  deriving DecidableEq, Repr

/-- The order to create a view of an image. -/
structure ViewCreation where
  image : Nat
  viewType : ViewType
  format : Format
  range : SubresourceRange
  deriving DecidableEq, Repr

/-- The order to create a buffer. -/
structure BufferCreation where
  info : BufferInfo
  sharing : SharingMode
  deriving DecidableEq, Repr

/-- The order to create an image like this. -/
def ImageInfo.creation (info : ImageInfo) : ImageCreation where
  info
  tiling := .optimal
  sharing := .exclusive
  initialLayout := .undefined

/-- The order to create the default view of an image like this: all of it, in its own format. -/
def ImageInfo.viewCreation (info : ImageInfo) (image : Nat) : ViewCreation where
  image
  viewType := info.viewType
  format := info.format
  range := info.fullRange

/-- The order to create a buffer like this. -/
def BufferInfo.creation (info : BufferInfo) : BufferCreation where
  info
  sharing := .exclusive

end FrameGraph
