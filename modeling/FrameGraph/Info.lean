import FrameGraph.Mask

/-!
# What images and buffers are like

What has to be known to create an image with its default view, or a buffer.  The aspect of an
image follows from its format, the shape of its view from its dimensionality and layer count.
-/

set_option autoImplicit false

namespace FrameGraph

/-- The encoding of a texel. -/
structure Format where
  code : Int
  deriving DecidableEq, Repr, Inhabited

namespace Format

def r8Unorm : Format := ⟨9⟩
def r8Uint : Format := ⟨13⟩
def r8g8Unorm : Format := ⟨16⟩
def r8g8b8a8Unorm : Format := ⟨37⟩
def b8g8r8a8Srgb : Format := ⟨50⟩
def r16Sfloat : Format := ⟨76⟩
def r16g16b16a16Sfloat : Format := ⟨97⟩
def r32g32Sfloat : Format := ⟨103⟩
def r32g32b32a32Sfloat : Format := ⟨109⟩
def d16Unorm : Format := ⟨124⟩
def d24UnormPacked : Format := ⟨125⟩
def d32Sfloat : Format := ⟨126⟩
def s8Uint : Format := ⟨127⟩
def d16UnormS8Uint : Format := ⟨128⟩
def d24UnormS8Uint : Format := ⟨129⟩
def d32SfloatS8Uint : Format := ⟨130⟩

end Format

namespace Aspect

def color : AspectMask := .bit 0
def depth : AspectMask := .bit 1
def stencil : AspectMask := .bit 2

end Aspect

/-- The aspects of an image with a given format. -/
def Format.aspect (f : Format) : AspectMask :=
  if f ∈ [d16Unorm, d32Sfloat, d24UnormPacked] then Aspect.depth
  else if f = s8Uint then Aspect.stencil
  else if f ∈ [d16UnormS8Uint, d24UnormS8Uint, d32SfloatS8Uint] then
    Aspect.depth ||| Aspect.stencil
  else Aspect.color

/-- The dimensionality of an image. -/
structure ImageType where
  code : Int
  deriving DecidableEq, Repr, Inhabited

namespace ImageType

def oneDimensional : ImageType := ⟨0⟩
def twoDimensional : ImageType := ⟨1⟩
def threeDimensional : ImageType := ⟨2⟩

end ImageType

/-- The shape of an image view. -/
inductive ViewType where
  | oneDimensional
  | twoDimensional
  | threeDimensional
  | oneDimensionalArray
  | twoDimensionalArray
  deriving DecidableEq, Repr

namespace ImageUsage

def sampled : ImageUsageMask := .bit 2
def storage : ImageUsageMask := .bit 3
def colorAttachment : ImageUsageMask := .bit 4
def depthAttachment : ImageUsageMask := .bit 5

end ImageUsage

namespace BufferUsage

def transferDst : BufferUsageMask := .bit 1
def storage : BufferUsageMask := .bit 5

end BufferUsage

/-- Everything needed to create an image and its default view. -/
structure ImageInfo where
  width : UInt32 := 1
  height : UInt32 := 1
  depth : UInt32 := 1
  mipLevels : UInt32 := 1
  arrayLayers : UInt32 := 1
  format : Format := .r8g8b8a8Unorm
  usage : ImageUsageMask := ImageUsage.sampled ||| ImageUsage.storage
  samples : UInt32 := 1
  imageType : ImageType := .twoDimensional
  deriving DecidableEq, Repr, Inhabited

/-- A part of an image: its aspects, a range of mip levels and a range of array layers. -/
structure SubresourceRange where
  aspect : AspectMask
  baseMipLevel : Nat
  levelCount : Nat
  baseArrayLayer : Nat
  layerCount : Nat
  deriving DecidableEq, Repr

namespace ImageInfo

/-- A two-dimensional image with one mip level and one layer. -/
def flat (width height : UInt32) (format : Format) (usage : ImageUsageMask) : ImageInfo :=
  { width, height, format, usage }

/-- The same image with another usage. -/
def withUsage (d : ImageInfo) (usage : ImageUsageMask) : ImageInfo := { d with usage }

/-- The same image with another number of mip levels, of which there is at least one. -/
def withMipLevels (d : ImageInfo) (levels : UInt32) : ImageInfo :=
  { d with mipLevels := max levels 1 }

/-- The aspects of the image. -/
def aspect (d : ImageInfo) : AspectMask := d.format.aspect

/-- The whole image. -/
def fullRange (d : ImageInfo) : SubresourceRange where
  aspect := d.aspect
  baseMipLevel := 0
  levelCount := d.mipLevels.toNat
  baseArrayLayer := 0
  layerCount := d.arrayLayers.toNat

/-- The shape of the default view.  Layers make an array, except in a volume; an unknown
dimensionality is viewed as a single plane. -/
def viewType (d : ImageInfo) : ViewType :=
  let layered := d.arrayLayers > 1
  if d.imageType = .oneDimensional then
    if layered then .oneDimensionalArray else .oneDimensional
  else if d.imageType = .threeDimensional then .threeDimensional
  else if d.imageType = .twoDimensional && layered then .twoDimensionalArray
  else .twoDimensional

end ImageInfo

/-- Everything needed to create a buffer. -/
structure BufferInfo where
  size : Nat := 0
  usage : BufferUsageMask := BufferUsage.storage
  deriving DecidableEq, Repr, Inhabited

/-- What a resource is. -/
inductive ResourceKind where
  | image
  | buffer
  deriving DecidableEq, Repr

/-- The word for a kind of resource. -/
def ResourceKind.text : ResourceKind → String
  | .image => "Image"
  | .buffer => "Buffer"

/-- What a resource of either kind is like. -/
inductive ResourceInfo where
  | image (info : ImageInfo)
  | buffer (info : BufferInfo)
  deriving DecidableEq, Repr

namespace ResourceInfo

def kind : ResourceInfo → ResourceKind
  | .image _ => .image
  | .buffer _ => .buffer

def image? : ResourceInfo → Option ImageInfo
  | .image info => some info
  | .buffer _ => none

def buffer? : ResourceInfo → Option BufferInfo
  | .image _ => none
  | .buffer info => some info

end ResourceInfo

end FrameGraph
