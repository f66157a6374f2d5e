import OpenCRun.Device.PackedPixel
import OpenCRun.Lib.BinaryFormat
/-!
# A pixel that has just been written

What a read of the pixel returns, for each order of the channels and each of
the integer and packed data types.
-/
open Lib.Bytes Lib.BinaryFormat

namespace OpenCRun.ImageAccess

/-! ## What a write keeps -/

def Vec4.map {V W : Type} (f : V → W) (color : Vec4 V) : Vec4 W := ⟨f color.x, f color.y, f color.z, f color.w⟩

/-- The range of a signed data type. -/
def signedRange : ChannelDataType → Option (Int × Int)
  | .signedInt8 => some (-2 ^ 7, 2 ^ 7 - 1)
  | .signedInt16 => some (-2 ^ 15, 2 ^ 15 - 1)
  | .signedInt32 => some (-2 ^ 31, 2 ^ 31 - 1)
  | _ => none

/-- The greatest number of an unsigned data type. -/
def unsignedMax : ChannelDataType → Option Nat
  | .unsignedInt8 => some (2 ^ 8 - 1)
  | .unsignedInt16 => some (2 ^ 16 - 1)
  | .unsignedInt32 => some (2 ^ 32 - 1)
  | _ => none

/-- What a colour is when the order stores its channels as `f` makes them, by their place, and the rest has the
defaults of the order. -/
def keptColor {V : Type} (P : PixelType V) (order : ChannelOrder) (f : Nat → V → V) (color : Vec4 V) : Vec4 V :=
  match order with
  | .r | .rx => ⟨f 0 color.x, P.zero, P.zero, P.one⟩
  | .a => ⟨P.zero, P.zero, P.zero, f 0 color.w⟩
  | .rg | .rgx => ⟨f 0 color.x, f 1 color.y, P.zero, P.one⟩
  | .ra => ⟨f 0 color.x, P.zero, P.zero, f 1 color.w⟩
  | .rgb | .rgbx => ⟨f 0 color.x, f 1 color.y, f 2 color.z, P.one⟩
  | .rgba => ⟨f 0 color.x, f 1 color.y, f 2 color.z, f 3 color.w⟩
  | .bgra => ⟨f 2 color.x, f 1 color.y, f 0 color.z, f 3 color.w⟩
  | .argb => ⟨f 1 color.x, f 2 color.y, f 3 color.z, f 0 color.w⟩
  | .intensity => ⟨f 0 color.x, f 0 color.x, f 0 color.x, f 0 color.x⟩
  | .luminance => ⟨f 0 color.x, f 0 color.x, f 0 color.x, P.one⟩

/-- The colour at the levels of the fields. There is no field for a fourth channel. -/
def LevelOps.quantised {F : Type} (ops : LevelOps F) (L : PackedLayout) : Nat → F → F
  | 0, c => ops.divide L.x.mask (ops.quantise L.x.mask c)
  | 1, c => ops.divide L.y.mask (ops.quantise L.y.mask c)
  | 2, c => ops.divide L.z.mask (ops.quantise L.z.mask c)
  | _, c => c

/-- The pixel is one of the image, whose header has the number of channels of its order. -/
structure IsPixel (img : DeviceImage) (coord : Vec4 (BitVec 32)) : Prop where
  inside : outside img coord = false
  numChannels : img.numChannels = BitVec.ofNat 32 (computeImageNumChannels img.imageChannelOrder)

/-! ## Integers -/

section Integers
variable {img : DeviceImage} {coord : Vec4 (BitVec 32)}

theorem held_eq_keptColor {V : Type} (P : PixelType V) (order : ChannelOrder) (f : V → V) (color : Vec4 V) :
    held P order f color = keptColor P order (fun _ => f) color := by
  cases order <;> rfl

theorem readPixel_writeImage {V : Type} {P : PixelType V} (hP : P.Fitting) (h : IsPixel img coord) {c : Channel V}
    (hc : P.channel img.imageChannelDataType = some c) (m : Memory 64) (color : Vec4 V) :
    readPixel P (writeImage P m img coord color) img coord =
      keptColor P img.imageChannelOrder (fun _ v => c.decode (c.encode v)) color := by
  have hsize : computeImageNumChannels img.imageChannelOrder * c.size ≤ 2 ^ 64 := by
    rw [(hP _ c hc).1]
    cases img.imageChannelOrder <;> cases img.imageChannelDataType <;> decide
  rw [readPixel, if_neg (ne_true_of_eq_false h.inside), hc, writeImage, writePixel, hc, h.numChannels]
  dsimp only
  rw [mapChannelsRead_colorAt, colorOf_store _ _ _ _ hsize, held_eq_keptColor]

theorem keptColor_map_congr {V W : Type} {P : PixelType V} (order : ChannelOrder) {f g : V → V} {toV : W → V}
    (h : ∀ v, f (toV v) = g (toV v)) (color : Vec4 W) :
    keptColor P order (fun _ => f) (color.map toV) = keptColor P order (fun _ => g) (color.map toV) := by
  cases order <;> simp only [keptColor, Vec4.map, h]

/-- A number in the range of the bytes comes back from its residue. -/
theorem toInt_residue {size : Nat} (hsize : 0 < size) {v : Int} (hlo : -(128 * 256 ^ (size - 1)) ≤ v)
    (hhi : v ≤ 128 * 256 ^ (size - 1) - 1) : (BitVec.ofNat (8 * size) (v % 256 ^ size).toNat).toInt = v := by
  have hpow : (256 : Int) ^ size = 2 * (128 * 256 ^ (size - 1)) := by
    obtain ⟨k, rfl⟩ := Nat.exists_eq_succ_of_ne_zero hsize.ne'
    rw [Nat.succ_sub_one, pow_succ]
    ring
  have hwidth : ((2 ^ (8 * size) : Nat) : Int) = 256 ^ size := by
    push_cast
    rw [pow_mul]
    norm_num
  have hpos : (0 : Int) < 256 ^ size := Int.pow_pos (by decide)
  rw [BitVec.toInt_ofNat', Int.toNat_of_nonneg (Int.emod_nonneg v hpos.ne'), ← hwidth, Int.emod_bmod]
  apply Int.bmod_eq_of_le_mul_two
  · rw [hwidth]
    omega
  · rw [hwidth]
    omega

/-- A signed channel keeps the nearest number of its range. -/
theorem signed_saturates {t : ChannelDataType} {lo hi : Int} (ht : signedRange t = some (lo, hi)) :
    ∃ c, pixelsi.channel t = some c ∧ ∀ v : BitVec 32, c.decode (c.encode v.toInt) = max lo (min hi v.toInt) := by
  cases t with
  | signedInt8 =>
    obtain ⟨rfl, rfl⟩ := Prod.mk.inj (Option.some.inj ht)
    exact ⟨_, rfl, fun v => @toInt_residue 1 (by decide) _ (le_max_left _ _) (max_le (by decide) (min_le_left _ _))⟩
  | signedInt16 =>
    obtain ⟨rfl, rfl⟩ := Prod.mk.inj (Option.some.inj ht)
    exact ⟨_, rfl, fun v => @toInt_residue 2 (by decide) _ (le_max_left _ _) (max_le (by decide) (min_le_left _ _))⟩
  | signedInt32 =>
    obtain ⟨rfl, rfl⟩ := Prod.mk.inj (Option.some.inj ht)
    refine ⟨_, rfl, fun v => ?_⟩
    have hlo := BitVec.le_toInt v
    have hhi := BitVec.toInt_lt (x := v)
    rw [min_eq_right (by omega), max_eq_right (by omega)]
    exact @toInt_residue 4 (by decide) _ (by omega) (by omega)
  | _ => cases ht

theorem unsigned_saturates {t : ChannelDataType} {hi : Nat} (ht : unsignedMax t = some hi) :
    ∃ c, pixelsui.channel t = some c ∧ ∀ v : BitVec 32, c.decode (c.encode v.toNat) = min hi v.toNat := by
  cases t with
  | unsignedInt8 =>
    obtain rfl := Option.some.inj ht
    exact ⟨_, rfl, fun v => min_comm _ _⟩
  | unsignedInt16 =>
    obtain rfl := Option.some.inj ht
    exact ⟨_, rfl, fun v => min_comm _ _⟩
  | unsignedInt32 =>
    obtain rfl := Option.some.inj ht
    refine ⟨_, rfl, fun v => ?_⟩
    rw [min_eq_right (show v.toNat ≤ 2 ^ 32 - 1 from Nat.le_pred_of_lt v.isLt)]
    exact Nat.mod_eq_of_lt v.isLt
  | _ => cases ht

end Integers

/-! ## Packed types -/

/-- The fourth channel, if the order has one, is what is read for it. -/
def FourthKept {F : Type} (ops : LevelOps F) (order : ChannelOrder) (color : Vec4 F) : Prop :=
  match order with
  | .rgba | .bgra => color.w = ops.zero
  | .argb => color.z = ops.zero
  | _ => True

/-- With fields of 5, 6 and 5 bits: the second channel is zero, or, when the order has none, what happens to be written
for it leaves the first alone. -/
def SecondKept {F : Type} (ops : LevelOps F) (unset : Vec4 F) (order : ChannelOrder) (color : Vec4 F) : Prop :=
  match order with
  | .r | .rx | .intensity | .luminance => ops.quantise 0x3f unset.y < 2 ^ 5 ∨ ops.quantise 0x1f color.x % 2 = 1
  | .a => ops.quantise 0x3f unset.y < 2 ^ 5 ∨ ops.quantise 0x1f color.w % 2 = 1
  | .rg | .rgx | .rgb | .rgbx | .rgba | .bgra => ops.quantise 0x3f color.y = 0
  | .ra => ops.quantise 0x3f color.w = 0
  | .argb => ops.quantise 0x3f color.x = 0

section Packed
variable {F : Type} (ops : LevelOps F)

theorem LevelOps.quantise_le (n : Nat) (c : F) : ops.quantise n c ≤ n := Nat.min_le_right _ _

theorem LevelOps.divide_inj {n : Nat} (hn : n ≤ 1023) {k l : Nat} (hk : k ≤ n) (hl : l ≤ n) :
    ops.divide n k = ops.divide n l ↔ k = l := by
  constructor
  · intro h
    rw [← ops.convert_divide n hn k hk, h, ops.convert_divide n hn l hl]
  · exact congrArg _

theorem PackedField.level_le (f : PackedField) (denorm : Nat) : f.level denorm ≤ f.mask := Nat.and_le_right

variable {t : ChannelDataType} {L : PackedLayout} (hL : packedLayout t = some L)
include hL

/-- What comes back of three components. -/
theorem divide_level_iff (c : Vec4 F) {w : Nat}
    (hw : L.word (ops.quantise L.x.mask c.x) (ops.quantise L.y.mask c.y) (ops.quantise L.z.mask c.z) = w) :
    (ops.divide L.x.mask (L.x.level w) = ops.quantised L 0 c.x ↔
        (t = .unormShort565 → ops.quantise 0x3f c.y < 2 ^ 5 ∨ ops.quantise 0x1f c.x % 2 = 1)) ∧
      (ops.divide L.y.mask (L.y.level w) = ops.quantised L 1 c.y ↔ (t = .unormShort565 → ops.quantise 0x3f c.y = 0)) ∧
        ops.divide L.z.mask (L.z.level w) = ops.quantised L 2 c.z := by
  obtain ⟨hx, hy, hz⟩ := mask_le hL
  obtain ⟨hxlevel, hylevel, hzlevel⟩ :=
    level_word_iff hL (ops.quantise_le L.x.mask c.x) (ops.quantise_le L.y.mask c.y) (ops.quantise_le L.z.mask c.z)
  rw [hw] at hxlevel hylevel hzlevel
  have hmask : t = .unormShort565 → L.x.mask = 0x1f ∧ L.y.mask = 0x3f := by
    rintro rfl
    cases hL
    exact ⟨rfl, rfl⟩
  refine ⟨(ops.divide_inj hx (L.x.level_le w) (ops.quantise_le _ _)).trans (hxlevel.trans ?_),
    (ops.divide_inj hy (L.y.level_le w) (ops.quantise_le _ _)).trans (hylevel.trans ?_), congrArg _ hzlevel⟩
  · exact forall_congr' fun ht => by rw [(hmask ht).1, (hmask ht).2]
  · exact forall_congr' fun ht => by rw [(hmask ht).2]

end Packed

theorem ofBytes_load_store {size n : Nat} (hn : n < 256 ^ size) (hsize : size ≤ 2 ^ 64) (m : Memory 64) (a : SizeT) :
    ofBytes (load (store m a (toBytes size n)) a size) = n := by
  rw [load_store_all m a (length_toBytes size n) hsize, ofBytes_toBytes hn]

theorem PackedLayout.word_lt (L : PackedLayout) (x y z : Nat) : L.word x y z < 256 ^ L.size :=
  Nat.mod_lt _ (Nat.pow_pos (by decide))

section PackedImages
variable {F : Type} (ops : LevelOps F) {img : DeviceImage} {coord : Vec4 (BitVec 32)} (h : IsPixel img coord)
  {L : PackedLayout} (hL : packedLayout img.imageChannelDataType = some L)
include h hL

theorem readPacked_writeImagePacked_iff (m : Memory 64) (unset color : Vec4 F) :
    readPacked ops L (writeImagePacked ops L unset m img coord color) img coord =
        keptColor ops.pixels img.imageChannelOrder (ops.quantised L) color ↔
      FourthKept ops img.imageChannelOrder color ∧
        (img.imageChannelDataType = .unormShort565 → SecondKept ops unset img.imageChannelOrder color) := by
  rw [readPacked, if_neg (ne_true_of_eq_false h.inside), writeImagePacked, writePacked,
    ofBytes_load_store (L.word_lt _ _ _) ((size_le hL).trans (by decide))]
  obtain ⟨hx, hy, hz⟩ := divide_level_iff ops hL (mapChannelsWriteOver unset img.imageChannelOrder color) rfl
  generalize img.imageChannelOrder = order at hx hy hz ⊢
  generalize L.word _ _ _ = w at hx hy hz ⊢
  dsimp only
  -- A second channel of zero leaves the first alone.
  have hyx := fun hlevel => hx.2 fun ht => .inl (hy.1 hlevel ht ▸ Nat.two_pow_pos 5)
  have hxy := and_iff_right_of_imp hyx
  have hfourth (c : F) : ops.quantised L 3 c = c := rfl
  cases order with
  | r | rx | a =>
    simp only [mapChannelsRead, keptColor, mapChannelsWriteOver, Vec4.mk.injEq, FourthKept, SecondKept, true_and, and_true] at *
    exact hx
  | intensity | luminance =>
    simp only [mapChannelsRead, keptColor, mapChannelsWriteOver, Vec4.mk.injEq, FourthKept, SecondKept, true_and, and_true,
      and_self] at *
    exact hx
  | rg | rgx | ra | rgb | rgbx =>
    simp only [mapChannelsRead, keptColor, mapChannelsWriteOver, Vec4.mk.injEq, FourthKept, SecondKept, true_and, and_true,
      hz] at *
    exact hxy.trans hy
  | rgba =>
    simp only [mapChannelsRead, keptColor, mapChannelsWriteOver, Vec4.mk.injEq, FourthKept, SecondKept, true_and, hz,
      hfourth] at *
    exact and_assoc.symm.trans ((and_congr (hxy.trans hy) eq_comm).trans and_comm)
  | bgra =>
    simp only [mapChannelsRead, keptColor, mapChannelsWriteOver, Vec4.mk.injEq, FourthKept, SecondKept, true_and, hz,
      hfourth] at *
    exact (and_left_comm.trans and_assoc.symm).trans ((and_congr (hxy.trans hy) eq_comm).trans and_comm)
  | argb =>
    simp only [mapChannelsRead, keptColor, mapChannelsWriteOver, Vec4.mk.injEq, FourthKept, SecondKept, true_and, hz,
      hfourth] at *
    exact and_left_comm.trans (and_congr eq_comm (and_comm.trans (hxy.trans hy)))

end PackedImages

/-! ## All types -/

/-- Integers come back saturated, and the levels of packed types come back, but for a fourth channel that is not zero, and
for what the type with fields of 5, 6 and 5 bits does to its second channel. -/
theorem pixel_round_trip_iff {img : DeviceImage} {coord : Vec4 (BitVec 32)} (h : IsPixel img coord) (m : Memory 64) :
    (∀ lo hi, signedRange img.imageChannelDataType = some (lo, hi) → ∀ color : Vec4 (BitVec 32),
        readPixeli (writeImage pixelsi m img coord (color.map BitVec.toInt)) img coord =
          keptColor pixelsi img.imageChannelOrder (fun _ v => max lo (min hi v)) (color.map BitVec.toInt)) ∧
      (∀ hi, unsignedMax img.imageChannelDataType = some hi → ∀ color : Vec4 (BitVec 32),
        readPixelui (writeImage pixelsui m img coord (color.map BitVec.toNat)) img coord =
          keptColor pixelsui img.imageChannelOrder (fun _ v => min hi v) (color.map BitVec.toNat)) ∧
      ∀ L, packedLayout img.imageChannelDataType = some L →
        (∀ (F : Type) (ops : LevelOps F) (unset color : Vec4 F),
          readPacked ops L (writeImagePacked ops L unset m img coord color) img coord =
              keptColor ops.pixels img.imageChannelOrder (ops.quantised L) color ↔
            FourthKept ops img.imageChannelOrder color ∧
              (img.imageChannelDataType = .unormShort565 → SecondKept ops unset img.imageChannelOrder color)) ∧
          (∀ x ≤ L.x.mask, ∀ y ≤ L.y.mask, ∀ z ≤ L.z.mask,
            L.levels (L.word x y z) = (x, y, z) ↔ (img.imageChannelDataType = .unormShort565 → y = 0)) ∧
          ∀ denorm < 256 ^ L.size,
            L.word (L.x.level denorm) (L.y.level denorm) (L.z.level denorm) = denorm &&& L.used ↔
              (img.imageChannelDataType = .unormShort565 → L.y.level denorm = 0) := by
  refine ⟨fun lo hi ht color => ?_, fun hi ht color => ?_, fun L hL => ⟨fun F ops unset color => ?_, ?_, ?_⟩⟩
  · obtain ⟨c, hc, hkept⟩ := signed_saturates ht
    rw [readPixeli, readPixel_writeImage fitting_pixelsi h hc]
    exact keptColor_map_congr _ hkept color
  · obtain ⟨c, hc, hkept⟩ := unsigned_saturates ht
    rw [readPixelui, readPixel_writeImage fitting_pixelsui h hc]
    exact keptColor_map_congr _ hkept color
  · exact readPacked_writeImagePacked_iff ops h hL m unset color
  · exact fun x hx y hy z hz => levels_word_iff hL hx hy hz
  · exact fun denorm hd => word_levels_iff hL hd

/-- Exact numbers, rounded to the nearest level, and to the even one of two. -/
def rationalOps : LevelOps ℚ where
  zero := 0
  one := 1
  convert n c := (roundEven (c * n)).toNat
  divide n k := k / n
  convert_divide := by
    intro n _ k hk
    rcases Nat.eq_zero_or_pos n with rfl | hpos
    · rw [Nat.min_zero, Nat.le_zero.1 hk]
    · have hcancel : (k : ℚ) / n * n = (k : Int) := by
        rw [div_mul_cancel₀ _ (Nat.cast_ne_zero.2 hpos.ne'), Int.cast_natCast]
      have hround : roundEven ((k : Int) : ℚ) = k := by
        rw [roundEven, Int.fract_intCast, if_pos (by norm_num), Int.floor_intCast]
      rw [hcancel, hround, Int.toNat_natCast, Nat.min_eq_left hk]

/-- One pixel of fields of 5, 6 and 5 bits. -/
def image565 : DeviceImage where
  imageChannelOrder := .rgb
  imageChannelDataType := .unormShort565
  numChannels := 3
  elementSize := 2
  width := 1
  height := 1
  depth := 1
  rowPitch := 2
  slicePitch := 2
  arraySize := 1
  numMipLevels := 0
  numSamples := 0
  data := 0

theorem isPixel_image565 : IsPixel image565 ⟨0, 0, 0, 0⟩ := ⟨by decide, by decide⟩

theorem pixel_round_trip_black : readPacked rationalOps unormShort565 (writeImagePacked rationalOps unormShort565 ⟨0, 0, 0, 0⟩
    (fun _ => 0) image565 ⟨0, 0, 0, 0⟩ ⟨1, 0, 1, 1⟩) image565 ⟨0, 0, 0, 0⟩ =
      keptColor rationalOps.pixels .rgb (rationalOps.quantised unormShort565) ⟨1, 0, 1, 1⟩ :=
  (((pixel_round_trip_iff isPixel_image565 (fun _ => 0)).2.2 unormShort565 rfl).1 ℚ rationalOps _ _).2
    ⟨trivial, fun _ => (by decide +kernel : rationalOps.quantise 0x3f 0 = 0)⟩

/-- A second channel that is not zero does not come back. -/
theorem pixel_round_trip_green :
    ¬ (∀ (img : DeviceImage) (coord : Vec4 (BitVec 32)) (m : Memory 64) (L : PackedLayout) (unset color : Vec4 ℚ),
        IsPixel img coord → packedLayout img.imageChannelDataType = some L →
          readPacked rationalOps L (writeImagePacked rationalOps L unset m img coord color) img coord =
            keptColor rationalOps.pixels img.imageChannelOrder (rationalOps.quantised L) color) ∧
      unormShort565.levels (unormShort565.word 0 1 0) = (0, 2, 0) ∧
      unormShort565.word (unormShort565.x.level 0x20) (unormShort565.y.level 0x20) (unormShort565.z.level 0x20) = 0x40 := by
  refine ⟨fun hall => ?_, by decide, by decide⟩
  have hread := hall image565 ⟨0, 0, 0, 0⟩ (fun _ => 0) unormShort565 ⟨0, 0, 0, 0⟩ ⟨0, 1 / 63, 0, 0⟩ isPixel_image565 rfl
  have hkept := ((readPacked_writeImagePacked_iff rationalOps isPixel_image565 rfl _ _ _).1 hread).2 rfl
  have hlevel : rationalOps.quantise 0x3f (1 / 63) = 1 := by decide +kernel
  exact absurd (hlevel.symm.trans hkept) (by decide)

end OpenCRun.ImageAccess
