import FrameGraph.Device.Requirements
import Mathlib.Algebra.BigOperators.Intervals
import Mathlib.Order.Bounds.Basic

/-!
# Memory requirements are exact

The bytes of a resource are counted in machine words.  Here they are counted in numbers of any size,
and the two are compared: a product or a sum on the way is never larger than what is counted in the
end, so counting in words stops exactly if the count itself is too large.

Principal statements: `ImageInfo.levelSize_eq_ok_iff` for one mip level, `ImageInfo.addLevels_eq_ok_iff`
for a run of them, `roundUp_eq_ok_iff_isWholeUnits`, and `requirements_exact`.
-/

set_option autoImplicit false

namespace FrameGraph

/-! ## Whole units -/

/-- The size is the least positive one in whole units that holds the bytes. -/
def IsWholeUnits (bytes size : Nat) : Prop :=
  IsLeast {n | 0 < n ∧ allocationUnit ∣ n ∧ bytes ≤ n} size

theorem isWholeUnits_max (bytes : Nat) :
    IsWholeUnits bytes (max ((bytes + 255) / 256) 1 * 256) := by
  refine ⟨⟨by omega, Nat.dvd_mul_left _ _, by omega⟩, ?_⟩
  rintro size ⟨hpos, ⟨units, rfl⟩, hbytes⟩
  unfold allocationUnit at *
  omega

/-- A size is rounded up to whole units, if there is room for a unit above it. -/
theorem roundUp_eq_ok_iff_isWholeUnits {bytes size : Nat} :
    roundUp bytes = .ok size ↔ bytes ≤ wordLimit - allocationUnit ∧ IsWholeUnits bytes size := by
  have hunits := isWholeUnits_max bytes
  have hfits : max ((bytes + 255) / 256) 1 * 256 < wordLimit ↔
      bytes ≤ wordLimit - allocationUnit := by
    unfold wordLimit allocationUnit
    omega
  rw [roundUp_eq_ok_iff, hfits]
  refine and_congr_right fun _ => ⟨?_, fun hsize => hsize.unique hunits⟩
  rintro rfl
  exact hunits

/-! ## One mip level -/

theorem Format.texelSize_bounds (f : Format) : 0 < f.texelSize ∧ f.texelSize ≤ 16 := by
  unfold texelSize
  split_ifs <;> decide

/-- The extent at a mip level, whatever its number. -/
def mipExtent (extent : UInt32) (level : Nat) : Nat := max (extent.toNat >>> level) 1

theorem mipExtent_pos (extent : UInt32) (level : Nat) : 0 < mipExtent extent level :=
  Nat.lt_of_lt_of_le Nat.one_pos (Nat.le_max_right _ _)

namespace ImageInfo

variable {d : ImageInfo}

theorem extentAt_eq_ok_iff {extent : UInt32} {level size : Nat} :
    extentAt extent level = .ok size ↔ level < 32 ∧ size = mipExtent extent level := by
  simp only [extentAt, mipExtent, map_eq_pure_bind, bind_eq_ok_iff, checkedShift_eq_ok_iff]
  constructor
  · rintro ⟨_, ⟨hlevel, rfl⟩, hsize⟩
    cases hsize
    exact ⟨hlevel, rfl⟩
  · rintro ⟨hlevel, rfl⟩
    exact ⟨_, ⟨hlevel, rfl⟩, rfl⟩

theorem sampledTexelSize_pos (d : ImageInfo) : 0 < d.sampledTexelSize :=
  Nat.mul_pos d.format.texelSize_bounds.1 (Nat.lt_of_lt_of_le Nat.one_pos (Nat.le_max_right _ _))

/-- The samples of a texel never take more bytes than a word can count. -/
theorem checkedMul_texelSize (d : ImageInfo) :
    checkedMul d.format.texelSize (max d.samples.toNat 1) = .ok d.sampledTexelSize := by
  have hsamples : max d.samples.toNat 1 ≤ 0x100000000 := by
    have := d.samples.toNat_lt
    omega
  refine checkedMul_eq_ok_iff.2 ⟨?_, rfl⟩
  calc d.format.texelSize * max d.samples.toNat 1
      ≤ 16 * 0x100000000 := Nat.mul_le_mul d.format.texelSize_bounds.2 hsamples
    _ < wordLimit := by decide

/-- The bytes of one layer of a mip level. -/
def levelBytes (d : ImageInfo) (level : Nat) : Nat :=
  mipExtent d.width level * mipExtent d.height level * mipExtent d.depth level * d.sampledTexelSize

/-- **A mip level is counted exactly**, if there is one of that number and its bytes are a word. -/
theorem levelSize_eq_ok_iff {level size : Nat} :
    d.levelSize level = .ok size ↔
      level < 32 ∧ d.levelBytes level < wordLimit ∧ size = d.levelBytes level := by
  simp only [levelSize, bind_eq_ok_iff, extentAt_eq_ok_iff, checkedMul_eq_ok_iff]
  constructor
  · rintro ⟨_, ⟨hlevel, rfl⟩, _, ⟨-, rfl⟩, _, ⟨-, rfl⟩, _, ⟨-, rfl⟩, _, ⟨-, rfl⟩, hfits, rfl⟩
    exact ⟨hlevel, hfits, rfl⟩
  · rintro ⟨hlevel, hfits, rfl⟩
    -- Every factor is at least one, so that the last product is the largest.
    have hvolume : mipExtent d.width level * mipExtent d.height level * mipExtent d.depth level <
        wordLimit := (Nat.le_mul_of_pos_right _ d.sampledTexelSize_pos).trans_lt hfits
    have harea : mipExtent d.width level * mipExtent d.height level < wordLimit :=
      (Nat.le_mul_of_pos_right _ (mipExtent_pos d.depth level)).trans_lt hvolume
    exact ⟨_, ⟨hlevel, rfl⟩, _, ⟨hlevel, rfl⟩, _, ⟨hlevel, rfl⟩, _, ⟨harea, rfl⟩, _, ⟨hvolume, rfl⟩,
      hfits, rfl⟩

/-! ## All mip levels and layers -/

/-- **Mip levels are counted exactly**, beginning with any of them and any total so far: the total only
grows, so it never exceeds what it is in the end. -/
theorem addLevels_eq_ok_iff {total level count result : Nat} (htotal : total < wordLimit)
    (hlevel : level ≤ 32) :
    d.addLevels total level count = .ok result ↔ level + count ≤ 32 ∧
      total + ∑ l ∈ Finset.Ico level (level + count), d.levelBytes l < wordLimit ∧
      result = total + ∑ l ∈ Finset.Ico level (level + count), d.levelBytes l := by
  induction count generalizing total level with
  | zero => simp [addLevels, hlevel, htotal, eq_comm]
  | succ count ih =>
      have hend : level + (count + 1) = level + 1 + count := by omega
      rw [hend, Finset.sum_eq_sum_Ico_succ_bot (by omega), ← Nat.add_assoc total]
      simp only [addLevels, bind_eq_ok_iff, levelSize_eq_ok_iff, checkedAdd_eq_ok_iff]
      constructor
      · rintro ⟨_, ⟨hlt, -, rfl⟩, _, ⟨hsum, rfl⟩, hrest⟩
        exact (ih hsum hlt).1 hrest
      · rintro ⟨hlast, hfits, hresult⟩
        have hlt : level < 32 := by omega
        have hsum : total + d.levelBytes level < wordLimit := by omega
        exact ⟨_, ⟨hlt, by omega, rfl⟩, _, ⟨hsum, rfl⟩, (ih hsum hlt).2 ⟨hlast, hfits, hresult⟩⟩

/-- The bytes of one layer with all its mip levels. -/
def layerBytes (d : ImageInfo) : Nat :=
  ∑ level ∈ Finset.range d.mipLevels.toNat, d.levelBytes level

/-- The bytes of all layers. -/
def bytes (d : ImageInfo) : Nat := d.layerBytes * d.arrayLayers.toNat

theorem addLevels_all_eq_ok_iff {size : Nat} :
    d.addLevels 0 0 d.mipLevels.toNat = .ok size ↔
      d.mipLevels.toNat ≤ 32 ∧ d.layerBytes < wordLimit ∧ size = d.layerBytes := by
  rw [addLevels_eq_ok_iff (by decide) (Nat.zero_le 32), layerBytes, Finset.range_eq_Ico]
  simp only [Nat.zero_add]

theorem byteSize_eq_ok_iff {size : Nat} :
    d.byteSize = .ok size ↔
      d.mipLevels.toNat ≤ 32 ∧ d.layerBytes < wordLimit ∧ d.bytes < wordLimit ∧ size = d.bytes := by
  simp only [byteSize, bind_eq_ok_iff, addLevels_all_eq_ok_iff, checkedMul_eq_ok_iff]
  constructor
  · rintro ⟨_, ⟨hlevels, hlayer, rfl⟩, hbytes, rfl⟩
    exact ⟨hlevels, hlayer, hbytes, rfl⟩
  · rintro ⟨hlevels, hlayer, hbytes, rfl⟩
    exact ⟨_, ⟨hlevels, hlayer, rfl⟩, hbytes, rfl⟩

/-- An image whose bytes can be counted: there is a mip level of each number, the bytes of a layer are
a word, and there is room for a unit above the bytes of all layers.  An image without layers can still
have a layer that is too large. -/
structure IsCountable (d : ImageInfo) : Prop where
  mipLevels_le : d.mipLevels.toNat ≤ 32
  layerBytes_lt : d.layerBytes < wordLimit
  bytes_le : d.bytes ≤ wordLimit - allocationUnit

theorem size_requirements (d : ImageInfo) :
    Requirements.size <$> d.requirements = d.byteSize >>= roundUp := by
  simp [requirements]

theorem size_requirements_eq_ok_iff {size : Nat} :
    Requirements.size <$> d.requirements = .ok size ↔ d.IsCountable ∧ IsWholeUnits d.bytes size := by
  rw [size_requirements, bind_eq_ok_iff]
  simp only [byteSize_eq_ok_iff, roundUp_eq_ok_iff_isWholeUnits]
  constructor
  · rintro ⟨_, ⟨hlevels, hlayer, -, rfl⟩, hroom, hunits⟩
    exact ⟨⟨hlevels, hlayer, hroom⟩, hunits⟩
  · rintro ⟨hd, hunits⟩
    have hbytes : d.bytes < wordLimit := hd.bytes_le.trans_lt (by decide)
    exact ⟨_, ⟨hd.mipLevels_le, hd.layerBytes_lt, hbytes, rfl⟩, hd.bytes_le, hunits⟩

end ImageInfo

/-! ## The requirements -/

theorem BufferInfo.size_requirements (d : BufferInfo) :
    Requirements.size <$> d.requirements = roundUp d.size := by
  simp [requirements]

/-- An answer about requirements is exact: it is given if and only if the bytes can be counted, and the
size in it is theirs in whole units. -/
def IsExact (countable : Prop) (bytes : Nat) : Except Fault Requirements → Prop
  | .ok requirements => countable ∧ IsWholeUnits bytes requirements.size
  | .error _ => ¬ countable

theorem isExact_of_size_eq_ok_iff {answer : Except Fault Requirements} {countable : Prop} {bytes : Nat}
    (hsize : ∀ size,
      Requirements.size <$> answer = .ok size ↔ countable ∧ IsWholeUnits bytes size) :
    IsExact countable bytes answer := by
  cases answer with
  | ok requirements => exact (hsize requirements.size).1 rfl
  | error fault =>
      -- There always is a size in whole units, so a fault can only mean that there is no count.
      intro hcountable
      cases (hsize _).2 ⟨hcountable, isWholeUnits_max bytes⟩

/-- **Memory requirements are exact, or a fault.**  An image that can be counted has requirements, with
the least positive size in whole units that is not less than its bytes; every other image is a fault.
So it is with buffers, which can be counted if there is room for a unit above their bytes.  The one
product that is not checked, the samples of a texel, is always a word. -/
theorem requirements_exact (image : ImageInfo) (buffer : BufferInfo) :
    IsExact image.IsCountable image.bytes image.requirements ∧
      IsExact (buffer.size ≤ wordLimit - allocationUnit) buffer.size buffer.requirements ∧
      checkedMul image.format.texelSize (max image.samples.toNat 1) = .ok image.sampledTexelSize := by
  have himage : IsExact image.IsCountable image.bytes image.requirements :=
    isExact_of_size_eq_ok_iff fun _ => ImageInfo.size_requirements_eq_ok_iff
  have hbuffer : IsExact (buffer.size ≤ wordLimit - allocationUnit) buffer.size buffer.requirements := by
    refine isExact_of_size_eq_ok_iff fun size => ?_
    rw [BufferInfo.size_requirements]
    exact roundUp_eq_ok_iff_isWholeUnits
  exact ⟨himage, hbuffer, image.checkedMul_texelSize⟩

/-- An image without layers takes no bytes, but its layers are counted first. -/
example : ImageInfo.requirements { width := 0xFFFFFFFF, height := 0xFFFFFFFF, depth := 4, arrayLayers := 0 } =
    .error .mulOverflow := rfl

end FrameGraph
