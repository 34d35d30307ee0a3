import FrameGraph.Info
import FrameGraph.Fault

/-!
# Memory requirements

How much memory a resource needs, at which alignment, and in which types of memory it may lie.  The
estimates count every texel of every mip level and layer, and round up to whole units of 256 bytes.
They are computed in 64-bit words, so a resource that is too large is a fault.

Principal statement: `roundUp_eq_ok_iff` — a size is rounded up unless the result is too large.
-/

set_option autoImplicit false

namespace FrameGraph

/-- What a piece of memory has to offer. -/
structure Requirements where
  size : Nat
  alignment : Nat
  memoryTypes : MemoryTypeMask
  deriving DecidableEq, Repr

/-- The unit of allocation, in bytes. -/
def allocationUnit : Nat := 256

/-- The size rounded up to whole units, of which there is at least one. -/
def roundUp (size : Nat) : Except Fault Nat :=
  checkedMul (max ((size + (allocationUnit - 1)) / allocationUnit) 1) allocationUnit

/-- The size of a texel in bytes. -/
def Format.texelSize (f : Format) : Nat :=
  if f ∈ [r8Unorm, r8Uint, s8Uint] then 1
  else if f ∈ [r8g8Unorm, r16Sfloat, d16Unorm] then 2
  else if f ∈ [r16g16b16a16Sfloat, r32g32Sfloat, d32SfloatS8Uint] then 8
  else if f = r32g32b32a32Sfloat then 16
  else 4

namespace ImageInfo

/-- The bytes of one texel with all its samples. -/
def sampledTexelSize (d : ImageInfo) : Nat := d.format.texelSize * max d.samples.toNat 1

/-- The extent at a mip level: halved at each level, and at least one. -/
def extentAt (extent : UInt32) (level : Nat) : Except Fault Nat :=
  (max · 1) <$> checkedShift extent level

/-- The bytes of one layer of a mip level. -/
def levelSize (d : ImageInfo) (level : Nat) : Except Fault Nat := do
  let width ← extentAt d.width level
  let height ← extentAt d.height level
  let depth ← extentAt d.depth level
  let area ← checkedMul width height
  let volume ← checkedMul area depth
  checkedMul volume d.sampledTexelSize

/-- Adds the bytes of the next `count` mip levels. -/
def addLevels (d : ImageInfo) (total level : Nat) : Nat → Except Fault Nat
  | 0 => .ok total
  | count + 1 => do
      let size ← d.levelSize level
      let total ← checkedAdd total size
      d.addLevels total (level + 1) count

/-- The bytes of all mip levels and layers. -/
def byteSize (d : ImageInfo) : Except Fault Nat := do
  let layer ← d.addLevels 0 0 d.mipLevels.toNat
  checkedMul layer d.arrayLayers.toNat

/-- The estimated requirements of an image. -/
def requirements (d : ImageInfo) : Except Fault Requirements := do
  let size ← d.byteSize
  let size ← roundUp size
  return {
    size
    alignment := allocationUnit
    memoryTypes := if d.aspect.contains Aspect.depth then .ofNat 0b010 else .ofNat 0b011 }

end ImageInfo

/-- The estimated requirements of a buffer. -/
def BufferInfo.requirements (d : BufferInfo) : Except Fault Requirements := do
  let size ← roundUp d.size
  return { size, alignment := allocationUnit, memoryTypes := .ofNat 0b111 }

theorem roundUp_eq_ok_iff {size rounded : Nat} :
    roundUp size = .ok rounded ↔
      max ((size + 255) / 256) 1 * 256 < wordLimit ∧
        rounded = max ((size + 255) / 256) 1 * 256 :=
  checkedMul_eq_ok_iff

end FrameGraph
