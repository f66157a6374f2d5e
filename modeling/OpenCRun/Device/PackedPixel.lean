import OpenCRun.Device.ImageAccess
import OpenCRun.Lib.BitFields
/-!
# Packed pixels

The three data types that keep the channels of a pixel in fields of one word,
as `write_pixel` and `read_pixelf` have them. How a float is rounded to a level
is left open.
-/
open Lib.Bytes Lib.BitFields

namespace OpenCRun.ImageAccess

/-! ## The code -/

/-- The greatest level of a channel, which is also its mask, and by how much it is shifted. -/
structure PackedField where
  mask : Nat
  writeShift : Nat
  readShift : Nat
  deriving DecidableEq, Repr

structure PackedLayout where
  size : Nat
  x : PackedField
  y : PackedField
  z : PackedField
  deriving DecidableEq, Repr

def unormShort565 : PackedLayout := ⟨2, ⟨0x1f, 11, 11⟩, ⟨0x3f, 6, 5⟩, ⟨0x1f, 0, 0⟩⟩
def unormShort555 : PackedLayout := ⟨2, ⟨0x1f, 10, 10⟩, ⟨0x1f, 5, 5⟩, ⟨0x1f, 0, 0⟩⟩
def unormInt101010 : PackedLayout := ⟨4, ⟨0x3ff, 20, 20⟩, ⟨0x3ff, 10, 10⟩, ⟨0x3ff, 0, 0⟩⟩

def packedLayout : ChannelDataType → Option PackedLayout
  | .unormShort565 => some unormShort565
  | .unormShort555 => some unormShort555
  | .unormInt101010 => some unormInt101010
  | _ => none

/-- `(denorm >> shift) & mask`. -/
def PackedField.level (f : PackedField) (denorm : Nat) : Nat := (denorm >>> f.readShift) &&& f.mask

/-- The word of three levels, as it is assigned. -/
def PackedLayout.word (L : PackedLayout) (x y z : Nat) : Nat :=
  (x <<< L.x.writeShift ||| y <<< L.y.writeShift ||| z <<< L.z.writeShift) % 256 ^ L.size

/-- Floats, with the scaled and saturated conversion of a float (`convert_uchar_sat_rte(c * 31.0f)` for the mask
`0x1f`) and a quotient by the mask. A level comes back from its quotient. -/
structure LevelOps (F : Type) where
  zero : F
  one : F
  convert : Nat → F → Nat
  divide : Nat → Nat → F
  convert_divide : ∀ n ≤ 1023, ∀ k ≤ n, min (convert n (divide n k)) n = k

namespace LevelOps
variable {F : Type} (ops : LevelOps F)

/-- The level that a float is written as. -/
def quantise (n : Nat) (c : F) : Nat := min (ops.convert n c) n

def pixels : PixelType F where
  zero := ops.zero
  one := ops.one
  channel := fun _ => none

end LevelOps

/-- `map_channels_write`, over what the components happen to be that it does not set. -/
def mapChannelsWriteOver {V : Type} (unset : Vec4 V) (order : ChannelOrder) (color : Vec4 V) : Vec4 V :=
  match order with
  | .r | .rx => ⟨color.x, unset.y, unset.z, unset.w⟩
  | .a => ⟨color.w, unset.y, unset.z, unset.w⟩
  | .rg | .rgx => ⟨color.x, color.y, unset.z, unset.w⟩
  | .ra => ⟨color.x, color.w, unset.z, unset.w⟩
  | .rgb | .rgbx => ⟨color.x, color.y, color.z, unset.w⟩
  | .rgba => color
  | .bgra => ⟨color.z, color.y, color.x, color.w⟩
  | .argb => ⟨color.w, color.x, color.y, color.z⟩
  | .intensity | .luminance => ⟨color.x, unset.y, unset.z, unset.w⟩

section Access
variable {F : Type} (ops : LevelOps F) (L : PackedLayout)

/-- `read_pixelf` of a packed data type. -/
def readPacked (m : Memory 64) (img : DeviceImage) (coord : Vec4 (BitVec 32)) : Vec4 F :=
  if outside img coord then border ops.pixels img.imageChannelOrder
  else
    let denorm := ofBytes (load m (address img coord) L.size)
    mapChannelsRead ops.pixels img.imageChannelOrder
      ⟨ops.divide L.x.mask (L.x.level denorm), ops.divide L.y.mask (L.y.level denorm),
        ops.divide L.z.mask (L.z.level denorm), ops.zero⟩

/-- `write_pixel` of a packed data type. -/
def writePacked (m : Memory 64) (img : DeviceImage) (coord : Vec4 (BitVec 32)) (color : Vec4 F) : Memory 64 :=
  store m (address img coord) (toBytes L.size (L.word (ops.quantise L.x.mask color.x) (ops.quantise L.y.mask color.y)
    (ops.quantise L.z.mask color.z)))

/-- `write_imagef` for a packed data type. -/
def writeImagePacked (unset : Vec4 F) (m : Memory 64) (img : DeviceImage) (coord : Vec4 (BitVec 32)) (color : Vec4 F) :
    Memory 64 :=
  writePacked ops L m img coord (mapChannelsWriteOver unset img.imageChannelOrder color)

end Access

/-! ## Levels and words -/

/-- The levels of a word. -/
def PackedLayout.levels (L : PackedLayout) (denorm : Nat) : Nat × Nat × Nat :=
  (L.x.level denorm, L.y.level denorm, L.z.level denorm)

/-- The bits of a word that are read. -/
def PackedLayout.used (L : PackedLayout) : Nat :=
  L.x.mask <<< L.x.readShift ||| L.y.mask <<< L.y.readShift ||| L.z.mask <<< L.z.readShift

/-- Fields of `k` bits, that are read where they are written. -/
def aligned (size k : Nat) : PackedLayout :=
  ⟨size, ⟨2 ^ k - 1, 2 * k, 2 * k⟩, ⟨2 ^ k - 1, k, k⟩, ⟨2 ^ k - 1, 0, 0⟩⟩

section Aligned
variable {size k : Nat}

theorem levels_aligned (denorm : Nat) : (aligned size k).levels denorm =
    (denorm / 2 ^ k / 2 ^ k % 2 ^ k, denorm / 2 ^ k % 2 ^ k, denorm % 2 ^ k) := by
  simp only [PackedLayout.levels, PackedField.level, aligned, shift_field, Nat.pow_zero, Nat.div_one, Nat.two_mul, pow_add,
    Nat.div_div_eq_div_mul]

theorem or_aligned (x : Nat) {y z : Nat} (hy : y < 2 ^ k) (hz : z < 2 ^ k) :
    x <<< (2 * k) ||| y <<< k ||| z <<< 0 = (x * 2 ^ k + y) * 2 ^ k + z := by
  have hhigh : x <<< (2 * k) ||| y <<< k = (x * 2 ^ k + y) <<< k := by
    rw [← or_field x hy, Nat.shiftLeft_or_distrib, Nat.shiftLeft_eq, Nat.shiftLeft_eq, Nat.shiftLeft_eq, Nat.two_mul, pow_add,
      Nat.mul_assoc]
  rw [hhigh, Nat.shiftLeft_zero, Nat.shiftLeft_eq, or_field _ hz]

theorem word_aligned (hsize : 2 ^ (3 * k) ≤ 256 ^ size) {x y z : Nat} (hx : x < 2 ^ k) (hy : y < 2 ^ k) (hz : z < 2 ^ k) :
    (aligned size k).word x y z = (x * 2 ^ k + y) * 2 ^ k + z := by
  have hpair : x * 2 ^ k + y < 2 ^ k * 2 ^ k :=
    calc x * 2 ^ k + y < (x + 1) * 2 ^ k := by rw [Nat.succ_mul]; exact Nat.add_lt_add_left hy _
      _ ≤ 2 ^ k * 2 ^ k := Nat.mul_le_mul_right _ hx
  have hlt : (x * 2 ^ k + y) * 2 ^ k + z < 256 ^ size :=
    calc (x * 2 ^ k + y) * 2 ^ k + z < (x * 2 ^ k + y + 1) * 2 ^ k := by rw [Nat.succ_mul]; exact Nat.add_lt_add_left hz _
      _ ≤ 2 ^ k * 2 ^ k * 2 ^ k := Nat.mul_le_mul_right _ hpair
      _ = 2 ^ (3 * k) := by ring
      _ ≤ 256 ^ size := hsize
  show (x <<< (2 * k) ||| y <<< k ||| z <<< 0) % 256 ^ size = _
  rw [or_aligned x hy hz, Nat.mod_eq_of_lt hlt]

theorem levels_word_aligned (hsize : 2 ^ (3 * k) ≤ 256 ^ size) {x y z : Nat} (hx : x < 2 ^ k) (hy : y < 2 ^ k)
    (hz : z < 2 ^ k) : (aligned size k).levels ((aligned size k).word x y z) = (x, y, z) := by
  have hdiv (a : Nat) {b : Nat} (hb : b < 2 ^ k) : (a * 2 ^ k + b) / 2 ^ k = a := by
    rw [Nat.mul_comm, Nat.mul_add_div (Nat.two_pow_pos k), Nat.div_eq_of_lt hb, Nat.add_zero]
  have hmod (a : Nat) {b : Nat} (hb : b < 2 ^ k) : (a * 2 ^ k + b) % 2 ^ k = b := by
    rw [Nat.mul_comm, Nat.mul_add_mod, Nat.mod_eq_of_lt hb]
  rw [word_aligned hsize hx hy hz, levels_aligned, hdiv _ hz, hdiv _ hy, hmod _ hy, hmod _ hz, Nat.mod_eq_of_lt hx]

theorem word_levels_aligned (hsize : 2 ^ (3 * k) ≤ 256 ^ size) (denorm : Nat) :
    (aligned size k).word ((aligned size k).x.level denorm) ((aligned size k).y.level denorm) ((aligned size k).z.level denorm) =
      denorm &&& (aligned size k).used := by
  have hpos := Nat.two_pow_pos k
  have hlevels := @levels_aligned size k denorm
  simp only [PackedLayout.levels, Prod.mk.injEq] at hlevels
  have hmask : 2 ^ k - 1 < 2 ^ k := Nat.sub_lt hpos Nat.one_pos
  have hused : (aligned size k).used = 2 ^ (3 * k) - 1 := by
    refine (or_aligned (2 ^ k - 1) hmask hmask).trans ?_
    obtain ⟨d, hd⟩ := Nat.exists_eq_add_of_lt hpos
    have hpow : 2 ^ (3 * k) = 2 ^ k * 2 ^ k * 2 ^ k := by ring
    rw [hpow, hd, Nat.zero_add, Nat.add_sub_cancel]
    apply Nat.eq_sub_of_add_eq
    ring
  rw [hlevels.1, hlevels.2.1, hlevels.2.2, hused, Nat.and_two_pow_sub_one_eq_mod,
    word_aligned hsize (Nat.mod_lt _ hpos) (Nat.mod_lt _ hpos) (Nat.mod_lt _ hpos)]
  have hpow : 2 ^ (3 * k) = 2 ^ k * (2 ^ k * 2 ^ k) := by ring
  rw [hpow, Nat.mod_mul, Nat.mod_mul]
  ring

end Aligned

/-! ## The type whose fields differ -/

/-- The second channel is written one bit above where it is read, and over the lowest bit of the first. -/
theorem word_565 {x y z : Nat} (hx : x < 2 ^ 5) (hy : y < 2 ^ 6) (hz : z < 2 ^ 5) :
    unormShort565.word x y z = ((x ||| y / 2 ^ 5) * 2 ^ 5 + y % 2 ^ 5) * 2 ^ 6 + z := by
  have hor : x ||| y / 2 ^ 5 < 2 ^ 5 := Nat.or_lt_two_pow hx (by omega)
  have hhigh : x <<< 11 ||| y <<< 6 = ((x ||| y / 2 ^ 5) * 2 ^ 5 + y % 2 ^ 5) * 2 ^ 6 := by
    rw [Nat.shiftLeft_eq, Nat.shiftLeft_eq, or_shift, show y * 2 ^ 6 / 2 ^ 11 = y / 2 ^ 5 by omega]
    omega
  show (x <<< 11 ||| y <<< 6 ||| z <<< 0) % 256 ^ 2 = _
  rw [hhigh, Nat.shiftLeft_zero, or_field _ (show z < 2 ^ 6 by omega), Nat.mod_eq_of_lt (by omega)]

theorem levels_565 (denorm : Nat) :
    unormShort565.levels denorm = (denorm / 2 ^ 11 % 2 ^ 5, denorm / 2 ^ 5 % 2 ^ 6, denorm % 2 ^ 5) := by
  have hx : unormShort565.x.level denorm = denorm / 2 ^ 11 % 2 ^ 5 := shift_field denorm 11 5
  have hy : unormShort565.y.level denorm = denorm / 2 ^ 5 % 2 ^ 6 := shift_field denorm 5 6
  have hz : unormShort565.z.level denorm = denorm % 2 ^ 5 :=
    (shift_field denorm 0 5).trans (by rw [Nat.pow_zero, Nat.div_one])
  rw [PackedLayout.levels, hx, hy, hz]

theorem levels_word_565 {x y z : Nat} (hx : x < 2 ^ 5) (hy : y < 2 ^ 6) (hz : z < 2 ^ 5) :
    unormShort565.levels (unormShort565.word x y z) = (x ||| y / 2 ^ 5, 2 * (y % 2 ^ 5), z) := by
  have hor : x ||| y / 2 ^ 5 < 2 ^ 5 := Nat.or_lt_two_pow hx (by omega)
  rw [word_565 hx hy hz, levels_565, Prod.mk.injEq, Prod.mk.injEq]
  exact ⟨by omega, by omega, by omega⟩

theorem or_carry_iff : ∀ x < 2 ^ 5, ∀ h < 2, (x ||| h = x ↔ h = 0 ∨ x % 2 = 1) := by decide

theorem word_levels_565_iff {denorm : Nat} (h : denorm < 256 ^ 2) :
    unormShort565.word (unormShort565.x.level denorm) (unormShort565.y.level denorm) (unormShort565.z.level denorm) =
      denorm &&& unormShort565.used ↔ unormShort565.y.level denorm = 0 := by
  have hlevels := levels_565 denorm
  simp only [PackedLayout.levels, Prod.mk.injEq] at hlevels
  have hused : denorm &&& unormShort565.used = denorm := by
    show denorm &&& (2 ^ 16 - 1) = denorm
    rw [Nat.and_two_pow_sub_one_eq_mod]
    omega
  rw [hlevels.1, hlevels.2.1, hlevels.2.2, hused, word_565 (by omega) (by omega) (by omega)]
  have hcarry := or_carry_iff (denorm / 2 ^ 11 % 2 ^ 5) (by omega) (denorm / 2 ^ 5 % 2 ^ 6 / 2 ^ 5) (by omega)
  have hle : denorm / 2 ^ 11 % 2 ^ 5 ≤ denorm / 2 ^ 11 % 2 ^ 5 ||| denorm / 2 ^ 5 % 2 ^ 6 / 2 ^ 5 := Nat.left_le_or
  omega

/-! ## All packed types -/

section Types
variable {t : ChannelDataType} {L : PackedLayout} (hL : packedLayout t = some L)
include hL

/-- The levels that come back, one by one. -/
theorem level_word_iff {x y z : Nat} (hx : x ≤ L.x.mask) (hy : y ≤ L.y.mask) (hz : z ≤ L.z.mask) :
    (L.x.level (L.word x y z) = x ↔ (t = .unormShort565 → y < 2 ^ 5 ∨ x % 2 = 1)) ∧
      (L.y.level (L.word x y z) = y ↔ (t = .unormShort565 → y = 0)) ∧ L.z.level (L.word x y z) = z := by
  have haligned {size k : Nat} (hsize : 2 ^ (3 * k) ≤ 256 ^ size) (ht : t ≠ .unormShort565)
      (hx : x ≤ 2 ^ k - 1) (hy : y ≤ 2 ^ k - 1) (hz : z ≤ 2 ^ k - 1) :
      ((aligned size k).x.level ((aligned size k).word x y z) = x ↔ (t = .unormShort565 → y < 2 ^ 5 ∨ x % 2 = 1)) ∧
        ((aligned size k).y.level ((aligned size k).word x y z) = y ↔ (t = .unormShort565 → y = 0)) ∧
          (aligned size k).z.level ((aligned size k).word x y z) = z := by
    have hpos := Nat.two_pow_pos k
    have hlevels := levels_word_aligned hsize (show x < 2 ^ k by omega) (show y < 2 ^ k by omega) (show z < 2 ^ k by omega)
    simp only [PackedLayout.levels, Prod.mk.injEq] at hlevels
    exact ⟨iff_of_true hlevels.1 fun h => absurd h ht, iff_of_true hlevels.2.1 fun h => absurd h ht, hlevels.2.2⟩
  cases t with
  | unormShort565 =>
    obtain rfl : unormShort565 = L := Option.some.inj hL
    have hx' : x < 2 ^ 5 := Nat.lt_succ_of_le hx
    have hy' : y < 2 ^ 6 := Nat.lt_succ_of_le hy
    have hlevels := levels_word_565 hx' hy' (Nat.lt_succ_of_le hz)
    have hcarry := or_carry_iff x hx' (y / 2 ^ 5) (by omega)
    simp only [PackedLayout.levels, Prod.mk.injEq] at hlevels
    rw [hlevels.1, hlevels.2.1, hcarry, imp_iff_right rfl, imp_iff_right rfl]
    exact ⟨by omega, by omega, hlevels.2.2⟩
  | unormShort555 =>
    obtain rfl : unormShort555 = L := Option.some.inj hL
    exact @haligned 2 5 (by decide) (by decide) hx hy hz
  | unormInt101010 =>
    obtain rfl : unormInt101010 = L := Option.some.inj hL
    exact @haligned 4 10 (by decide) (by decide) hx hy hz
  | _ => cases hL

/-- Levels come back from their word, but for the type whose fields differ. -/
theorem levels_word_iff {x y z : Nat} (hx : x ≤ L.x.mask) (hy : y ≤ L.y.mask) (hz : z ≤ L.z.mask) :
    L.levels (L.word x y z) = (x, y, z) ↔ (t = .unormShort565 → y = 0) := by
  obtain ⟨hxlevel, hylevel, hzlevel⟩ := level_word_iff hL hx hy hz
  rw [PackedLayout.levels, Prod.mk.injEq, Prod.mk.injEq, hxlevel, hylevel]
  constructor
  · exact fun h => h.2.1
  · exact fun h => ⟨fun ht => .inl (by rw [h ht]; decide), h, hzlevel⟩

/-- The bits of a word come back from its levels, but for the type whose fields differ. -/
theorem word_levels_iff {denorm : Nat} (hd : denorm < 256 ^ L.size) :
    L.word (L.x.level denorm) (L.y.level denorm) (L.z.level denorm) = denorm &&& L.used ↔
      (t = .unormShort565 → L.y.level denorm = 0) := by
  cases t with
  | unormShort565 =>
    obtain rfl : unormShort565 = L := Option.some.inj hL
    rw [word_levels_565_iff hd]
    exact ⟨fun h _ => h, fun h => h rfl⟩
  | unormShort555 =>
    obtain rfl : unormShort555 = L := Option.some.inj hL
    exact iff_of_true (@word_levels_aligned 2 5 (by decide) denorm) fun h => by cases h
  | unormInt101010 =>
    obtain rfl : unormInt101010 = L := Option.some.inj hL
    exact iff_of_true (@word_levels_aligned 4 10 (by decide) denorm) fun h => by cases h
  | _ => cases hL

theorem mask_le : L.x.mask ≤ 1023 ∧ L.y.mask ≤ 1023 ∧ L.z.mask ≤ 1023 := by
  cases t <;> cases hL <;> decide

theorem size_le : L.size ≤ 4 := by
  cases t <;> cases hL <;> decide

end Types

end OpenCRun.ImageAccess
