import OpenCRun.Device.ImageAccess
import OpenCRun.Lib.BinaryFormat
import OpenCRun.Lib.CInteger
/-!
# Addressing of texels

The texels that a sampler picks for coordinates, and their weights. Coordinates
are exact rational numbers; sizes and texels are 32-bit integers, as in the
code.
-/
open Lib Lib.BinaryFormat OpenCRun.ImageAccess

namespace OpenCRun.SamplerAddressing

/-! ## The code -/

abbrev DeviceSampler := BitVec 32

def clkNormalizedCoordsTrue : DeviceSampler := 0x10
def clkAddressNone : DeviceSampler := 0x00
def clkAddressMirroredRepeat : DeviceSampler := 0x01
def clkAddressRepeat : DeviceSampler := 0x02
def clkAddressClampToEdge : DeviceSampler := 0x03
def clkAddressClamp : DeviceSampler := 0x04

/-- `dev_sampler & 0x07` -/
def addressing (devSampler : DeviceSampler) : DeviceSampler := devSampler &&& 0x07

/-- `dev_sampler & CLK_NORMALIZED_COORDS_TRUE` -/
def isNormalized (devSampler : DeviceSampler) : Bool := devSampler &&& clkNormalizedCoordsTrue != 0

/-- A conversion to `int`, which has no result outside the range. -/
def convertInt (x : ℚ) : Checked (BitVec 32) := do
  Checked.check (decide (CInteger.IntType.int.InRange (truncate x)))
  pure (BitVec.ofInt 32 (truncate x))

def convertInt4 (v : Vec4 ℚ) : Checked (Vec4 (BitVec 32)) := do
  let x ← convertInt v.x
  let y ← convertInt v.y
  let z ← convertInt v.z
  let w ← convertInt v.w
  pure ⟨x, y, z, w⟩

/-- `max` and `min` of `int`. -/
def maxInt (a b : BitVec 32) : BitVec 32 := if a.slt b then b else a
def minInt (a b : BitVec 32) : BitVec 32 := if b.slt a then b else a

def clamp (x minval maxval : BitVec 32) : BitVec 32 := minInt (maxInt x minval) maxval

def clamp4 (v minval maxval : Vec4 (BitVec 32)) : Vec4 (BitVec 32) :=
  ⟨clamp v.x minval.x maxval.x, clamp v.y minval.y maxval.y, clamp v.z minval.z maxval.z, clamp v.w minval.w maxval.w⟩

def addressMode (devImage : DeviceImage) (devSampler : DeviceSampler) (coord : Vec4 (BitVec 32)) : Vec4 (BitVec 32) :=
  if addressing devSampler = clkAddressNone then coord
  else if addressing devSampler = clkAddressClamp then
    clamp4 coord ⟨-1, -1, -1, -1⟩ ⟨devImage.width, devImage.height, devImage.depth, 0⟩
  else if addressing devSampler = clkAddressClampToEdge then
    clamp4 coord ⟨0, 0, 0, 0⟩ ⟨devImage.width - 1, devImage.height - 1, devImage.depth - 1, 0⟩
  else coord

section Axes
variable (coord : ℚ) (size : BitVec 32)

/-- The position of a wrapped coordinate. -/
def repeatPosition : ℚ := (coord - ⌊coord⌋) * size.toNat

/-- The position of a mirrored coordinate. -/
def mirroredPosition : ℚ := |coord - 2 * roundEven (1 / 2 * coord)| * size.toNat

def repeatTexel : ℚ :=
  let t : ℚ := ⌊repeatPosition coord size⌋
  if t > (size - 1).toNat then t - size.toNat else t

def mirroredTexel : ℚ := min (⌊mirroredPosition coord size⌋ : ℚ) (size - 1).toNat

/-- Two neighbours, and how far the position is from the first. -/
structure Neighbours where
  i0 : BitVec 32
  i1 : BitVec 32
  a : ℚ

/-- `u - 0.5f - floor(u - 0.5f)` -/
def fraction (u : ℚ) : ℚ := u - 1 / 2 - ⌊u - 1 / 2⌋

def repeatNeighbours : Checked Neighbours := do
  let u := repeatPosition coord size
  let i0 ← convertInt ⌊u - 1 / 2⌋
  let i1 := i0 + 1
  let i0 := if i0.slt 0 then i0 + size else i0
  let i1 := if (size - 1).slt i1 then i1 - size else i1
  pure ⟨i0, i1, fraction u⟩

def mirroredNeighbours : Checked Neighbours := do
  let u := mirroredPosition coord size
  let i0 ← convertInt ⌊u - 1 / 2⌋
  let i1 := i0 + 1
  pure ⟨maxInt i0 0, minInt i1 (size - 1), fraction u⟩

end Axes

section Filters
variable (devImage : DeviceImage) (devSampler : DeviceSampler) (coord : Vec4 ℚ)

/-- What `apply_filter_nearest` makes of the coordinates. -/
def coordTmp : Vec4 ℚ :=
  if isNormalized devSampler then
    if addressing devSampler = clkAddressRepeat then
      ⟨repeatTexel coord.x devImage.width, repeatTexel coord.y devImage.height, repeatTexel coord.z devImage.depth, 0⟩
    else if addressing devSampler = clkAddressMirroredRepeat then
      ⟨mirroredTexel coord.x devImage.width, mirroredTexel coord.y devImage.height,
        mirroredTexel coord.z devImage.depth, 0⟩
    else
      ⟨coord.x * devImage.width.toNat, coord.y * devImage.height.toNat, coord.z * devImage.depth.toNat, 0⟩
  else coord

/-- The cases of the switches for which positions are given to `address_mode`. -/
def Clamps : Prop :=
  addressing devSampler = clkAddressNone ∨ addressing devSampler = clkAddressClamp ∨
    addressing devSampler = clkAddressClampToEdge

instance : Decidable (Clamps devSampler) := inferInstanceAs (Decidable (_ ∨ _ ∨ _))

def applyFilterNearest : Checked (Vec4 (BitVec 32)) :=
  let t := coordTmp devImage devSampler coord
  if Clamps devSampler then do
    let texel ← convertInt4 ⟨⌊t.x⌋, ⌊t.y⌋, ⌊t.z⌋, ⌊t.w⌋⟩
    pure (addressMode devImage devSampler texel)
  else convertInt4 t

/-- `u`, `v` and `w` of `apply_filter_linear`, where coordinates are not wrapped. -/
def position (c : ℚ) (size : BitVec 32) : ℚ := if isNormalized devSampler then c * size.toNat else c

/-- The neighbours on the three axes, unless the mode is none of those of the switch. -/
def neighbours : Checked (Option (Neighbours × Neighbours × Neighbours)) :=
  if Clamps devSampler then do
    let u := position devSampler coord.x devImage.width
    let v := position devSampler coord.y devImage.height
    let w := position devSampler coord.z devImage.depth
    let texel0 ← convertInt4 ⟨⌊u - 1 / 2⌋, ⌊v - 1 / 2⌋, ⌊w - 1 / 2⌋, 0⟩
    let coord0 := addressMode devImage devSampler texel0
    let texel1 ← convertInt4 ⟨⌊u - 1 / 2⌋ + 1, ⌊v - 1 / 2⌋ + 1, ⌊w - 1 / 2⌋ + 1, 0⟩
    let coord1 := addressMode devImage devSampler texel1
    pure (some (⟨coord0.x, coord1.x, fraction u⟩, ⟨coord0.y, coord1.y, fraction v⟩, ⟨coord0.z, coord1.z, fraction w⟩))
  else if addressing devSampler = clkAddressRepeat then do
    let x ← repeatNeighbours coord.x devImage.width
    let y ← repeatNeighbours coord.y devImage.height
    let z ← repeatNeighbours coord.z devImage.depth
    pure (some (x, y, z))
  else if addressing devSampler = clkAddressMirroredRepeat then do
    let x ← mirroredNeighbours coord.x devImage.width
    let y ← mirroredNeighbours coord.y devImage.height
    let z ← mirroredNeighbours coord.z devImage.depth
    pure (some (x, y, z))
  else pure none

/-- The texels that are read, with their weights. -/
def taps (x y z : Neighbours) : Nat → List (ℚ × Vec4 (BitVec 32))
  | 1 => [(1 - x.a, ⟨x.i0, 0, 0, 0⟩), (x.a, ⟨x.i1, 0, 0, 0⟩)]
  | 2 => [((1 - x.a) * (1 - y.a), ⟨x.i0, y.i0, 0, 0⟩), (x.a * (1 - y.a), ⟨x.i1, y.i0, 0, 0⟩),
      ((1 - x.a) * y.a, ⟨x.i0, y.i1, 0, 0⟩), (x.a * y.a, ⟨x.i1, y.i1, 0, 0⟩)]
  | _ => [((1 - x.a) * (1 - y.a) * (1 - z.a), ⟨x.i0, y.i0, z.i0, 0⟩), (x.a * (1 - y.a) * (1 - z.a), ⟨x.i1, y.i0, z.i0, 0⟩),
      ((1 - x.a) * y.a * (1 - z.a), ⟨x.i0, y.i1, z.i0, 0⟩), (x.a * y.a * (1 - z.a), ⟨x.i1, y.i1, z.i0, 0⟩),
      ((1 - x.a) * (1 - y.a) * z.a, ⟨x.i0, y.i0, z.i1, 0⟩), (x.a * (1 - y.a) * z.a, ⟨x.i1, y.i0, z.i1, 0⟩),
      ((1 - x.a) * y.a * z.a, ⟨x.i0, y.i1, z.i1, 0⟩), (x.a * y.a * z.a, ⟨x.i1, y.i1, z.i1, 0⟩)]

/-- A color that is added with a weight. -/
def addWeighted (color : Vec4 ℚ) (weight : ℚ) (c : Vec4 ℚ) : Vec4 ℚ :=
  ⟨color.x + weight * c.x, color.y + weight * c.y, color.z + weight * c.z, color.w + weight * c.w⟩

def applyFilterLinear (readPixelf : Vec4 (BitVec 32) → Vec4 ℚ) (size : Nat) : Checked (Vec4 ℚ) := do
  match ← neighbours devImage devSampler coord with
  | some (x, y, z) =>
    pure ((taps x y z size).foldl (fun color tap => addWeighted color tap.1 (readPixelf tap.2)) ⟨0, 0, 0, 0⟩)
  | none => pure ⟨0, 0, 0, 0⟩

end Filters

/-! ## Integers -/

section Integers
variable {size i : BitVec 32} {n : Int}

/-- A size that an `int` holds. -/
def IsSize (size : BitVec 32) : Prop := 0 < size.toNat ∧ size.toNat < 2 ^ 31

/-- A texel of an axis. -/
def Inside (size i : BitVec 32) : Prop := 0 ≤ i.toInt ∧ i.toInt < size.toNat

/-- A texel, or the place before the first or after the last one. -/
def OneOutside (size i : BitVec 32) : Prop := -1 ≤ i.toInt ∧ i.toInt ≤ size.toNat

theorem toInt_ofInt (h : CInteger.IntType.int.InRange n) : (BitVec.ofInt 32 n).toInt = n :=
  CInteger.IntType.wrap_of_inRange h

theorem convertInt_intCast (h : CInteger.IntType.int.InRange n) : convertInt n = pure (BitVec.ofInt 32 n) := by
  unfold convertInt
  rw [truncate_intCast]
  exact Checked.ext rfl (by simp [decide_eq_true h])

theorem toInt_eq_toNat (h : i.toNat < 2 ^ 31) : i.toInt = i.toNat := BitVec.toInt_eq_toNat_of_lt (by omega)

theorem IsSize.toInt (h : IsSize size) : size.toInt = size.toNat := toInt_eq_toNat h.2

theorem IsSize.toNat_sub_one (h : IsSize size) : (size - 1).toNat = size.toNat - 1 := by
  obtain ⟨hpos, hlt⟩ := h
  rw [BitVec.toNat_sub]
  simp
  omega

theorem IsSize.toInt_sub_one (h : IsSize size) : (size - 1).toInt = size.toNat - 1 := by
  have hnat := h.toNat_sub_one
  obtain ⟨hpos, hlt⟩ := h
  rw [toInt_eq_toNat (by omega), hnat]
  omega

theorem toInt_maxInt (a b : BitVec 32) : (maxInt a b).toInt = max a.toInt b.toInt := by
  unfold maxInt BitVec.slt
  simp only [decide_eq_true_eq]
  split <;> omega

theorem toInt_minInt (a b : BitVec 32) : (minInt a b).toInt = min a.toInt b.toInt := by
  unfold minInt BitVec.slt
  simp only [decide_eq_true_eq]
  split <;> omega

theorem clamp_bounds {x lo hi : BitVec 32} (h : lo.toInt ≤ hi.toInt) :
    lo.toInt ≤ (clamp x lo hi).toInt ∧ (clamp x lo hi).toInt ≤ hi.toInt := by
  unfold clamp
  rw [toInt_minInt, toInt_maxInt]
  omega

theorem IsSize.inside_clamp (h : IsSize size) (x : BitVec 32) : Inside size (clamp x 0 (size - 1)) := by
  have hlast := h.toInt_sub_one
  have hzero : (0 : BitVec 32).toInt = 0 := rfl
  have hpos := h.1
  have hbounds := @clamp_bounds x 0 (size - 1) (by omega)
  unfold Inside
  omega

theorem IsSize.oneOutside_clamp (h : IsSize size) (x : BitVec 32) : OneOutside size (clamp x (-1) size) := by
  have hsize := h.toInt
  have hminus : (-1 : BitVec 32).toInt = -1 := rfl
  have hbounds := @clamp_bounds x (-1) size (by omega)
  unfold OneOutside
  omega

end Integers

/-! ## Positions -/

section Positions
variable {size : BitVec 32} {coord : ℚ}

theorem repeatPosition_bounds (h : IsSize size) : 0 ≤ repeatPosition coord size ∧ repeatPosition coord size < size.toNat := by
  have hsize : (0 : ℚ) < size.toNat := by exact_mod_cast h.1
  exact ⟨mul_nonneg (Int.fract_nonneg coord) hsize.le, mul_lt_of_lt_one_left hsize (Int.fract_lt_one coord)⟩

theorem repeatPosition_add (coord : ℚ) (size : BitVec 32) (n : Int) :
    repeatPosition (coord + n) size = repeatPosition coord size := by
  have hfract : coord + n - ⌊coord + n⌋ = coord - ⌊coord⌋ := Int.fract_add_intCast coord n
  unfold repeatPosition
  rw [hfract]

/-- Mirrored coordinates rise and fall between zero and one. -/
theorem mirroredPosition_eq (coord : ℚ) (size : BitVec 32) :
    mirroredPosition coord size = 2 * min (Int.fract (coord / 2)) (1 - Int.fract (coord / 2)) * size.toNat := by
  have hhalf : 1 / 2 * coord = coord / 2 := by ring
  have hsplit := floor_eq_sub_fract (coord / 2)
  have hnonneg := Int.fract_nonneg (coord / 2)
  have hlt := Int.fract_lt_one (coord / 2)
  have hfolded : |coord - 2 * roundEven (coord / 2)| = 2 * min (Int.fract (coord / 2)) (1 - Int.fract (coord / 2)) := by
    by_cases hnear : NearFloor (coord / 2)
    · have hle : Int.fract (coord / 2) ≤ 1 / 2 := by
        rcases hnear with hlt | ⟨heq, -⟩
        · exact hlt.le
        · exact heq.le
      rw [(roundEven_eq_floor_iff _).2 hnear, min_eq_left (by linarith), abs_of_nonneg (by linarith)]
      linarith
    · have hge : 1 / 2 ≤ Int.fract (coord / 2) := le_of_not_gt fun hlt => hnear (.inl hlt)
      have hup := (roundEven_cases (coord / 2)).resolve_left fun h => hnear ((roundEven_eq_floor_iff _).1 h)
      rw [hup, min_eq_right (by linarith)]
      push_cast
      rw [abs_of_nonpos (by linarith)]
      linarith
  unfold mirroredPosition
  rw [hhalf, hfolded]

theorem mirroredPosition_bounds (h : IsSize size) :
    0 ≤ mirroredPosition coord size ∧ mirroredPosition coord size ≤ size.toNat := by
  have hsize : (0 : ℚ) < size.toNat := by exact_mod_cast h.1
  have hnonneg := Int.fract_nonneg (coord / 2)
  have hlt := Int.fract_lt_one (coord / 2)
  have hmin : 0 ≤ min (Int.fract (coord / 2)) (1 - Int.fract (coord / 2)) := le_min hnonneg (by linarith)
  have hle : 2 * min (Int.fract (coord / 2)) (1 - Int.fract (coord / 2)) ≤ 1 := by
    have hleft := min_le_left (Int.fract (coord / 2)) (1 - Int.fract (coord / 2))
    have hright := min_le_right (Int.fract (coord / 2)) (1 - Int.fract (coord / 2))
    linarith
  rw [mirroredPosition_eq]
  exact ⟨mul_nonneg (mul_nonneg zero_le_two hmin) hsize.le, mul_le_of_le_one_left hsize.le hle⟩

theorem mirroredPosition_add (coord : ℚ) (size : BitVec 32) (n : Int) :
    mirroredPosition (coord + 2 * n) size = mirroredPosition coord size := by
  have hhalf : (coord + 2 * n) / 2 = coord / 2 + n := by ring
  rw [mirroredPosition_eq, mirroredPosition_eq, hhalf, Int.fract_add_intCast]

theorem mirroredPosition_neg (coord : ℚ) (size : BitVec 32) : mirroredPosition (-coord) size = mirroredPosition coord size := by
  rw [mirroredPosition_eq, mirroredPosition_eq, neg_div]
  by_cases hzero : Int.fract (coord / 2) = 0
  · rw [Int.fract_neg_eq_zero.2 hzero, hzero]
  · rw [Int.fract_neg hzero, sub_sub_cancel, min_comm]

/-- Positions that are the same after a shift or in a mirror. -/
inductive Mirrors : ℚ → ℚ → Prop
  | add (c : ℚ) (n : Int) : Mirrors c (c + 2 * n)
  | neg (c : ℚ) : Mirrors c (-c)

theorem Mirrors.position_eq {c c' : ℚ} (h : Mirrors c c') (size : BitVec 32) :
    mirroredPosition c' size = mirroredPosition c size := by
  cases h with
  | add n => exact mirroredPosition_add c size n
  | neg => exact mirroredPosition_neg c size

theorem fraction_bounds (u : ℚ) : 0 ≤ fraction u ∧ fraction u < 1 :=
  ⟨Int.fract_nonneg (u - 1 / 2), Int.fract_lt_one (u - 1 / 2)⟩

end Positions

/-! ## Axes -/

section AxisTexels
variable {size : BitVec 32} {coord : ℚ} {n : Int}

theorem IsSize.inRange (h : IsSize size) (hlo : -1 ≤ n) (hhi : n ≤ size.toNat) : CInteger.IntType.int.InRange n := by
  have hlt := h.2
  have hmin : CInteger.IntType.int.minValue = -2 ^ 31 := rfl
  have hmax : CInteger.IntType.int.maxValue = 2 ^ 31 - 1 := rfl
  unfold CInteger.IntType.InRange
  omega

theorem IsSize.texel (h : IsSize size) (hlo : 0 ≤ n) (hhi : n < size.toNat) :
    convertInt n = pure (BitVec.ofInt 32 n) ∧ Inside size (BitVec.ofInt 32 n) := by
  have hrange := h.inRange (n := n) (by omega) (by omega)
  refine ⟨convertInt_intCast hrange, ?_⟩
  unfold Inside
  rw [toInt_ofInt hrange]
  exact ⟨hlo, hhi⟩

theorem repeatTexel_inside (h : IsSize size) (coord : ℚ) :
    ∃ i, convertInt (repeatTexel coord size) = pure i ∧ Inside size i := by
  obtain ⟨hnonneg, hlt⟩ : 0 ≤ repeatPosition coord size ∧ repeatPosition coord size < size.toNat := repeatPosition_bounds h
  have hlo : 0 ≤ ⌊repeatPosition coord size⌋ := Int.floor_nonneg.2 hnonneg
  have hhi : ⌊repeatPosition coord size⌋ < size.toNat := Int.floor_lt.2 (by exact_mod_cast hlt)
  have htexel : repeatTexel coord size = ⌊repeatPosition coord size⌋ := by
    have hlast : ⌊repeatPosition coord size⌋ ≤ ((size - 1).toNat : Int) := by
      have hnat := h.toNat_sub_one
      omega
    exact if_neg (not_lt.2 (by exact_mod_cast hlast))
  rw [htexel]
  exact ⟨_, h.texel hlo hhi⟩

theorem mirroredTexel_inside (h : IsSize size) (coord : ℚ) :
    ∃ i, convertInt (mirroredTexel coord size) = pure i ∧ Inside size i := by
  have hlo : 0 ≤ ⌊mirroredPosition coord size⌋ := Int.floor_nonneg.2 (mirroredPosition_bounds h).1
  have hnat := h.toNat_sub_one
  have hpos := h.1
  have htexel : mirroredTexel coord size = ((min ⌊mirroredPosition coord size⌋ ((size - 1).toNat : Int) : Int) : ℚ) := by
    unfold mirroredTexel
    push_cast
    rfl
  rw [htexel]
  exact ⟨_, h.texel (by omega) (by omega)⟩

/-- Both neighbours are texels. -/
structure Neighbours.Within (size : BitVec 32) (r : Neighbours) : Prop where
  i0 : Inside size r.i0
  i1 : Inside size r.i1

/-- How far it is from the first neighbour to the second. -/
def Neighbours.Fractional (r : Neighbours) : Prop := 0 ≤ r.a ∧ r.a < 1

theorem neighbour_bounds {u : ℚ} (hlo : 0 ≤ u) (hhi : u ≤ size.toNat) :
    -1 ≤ ⌊u - 1 / 2⌋ ∧ ⌊u - 1 / 2⌋ < size.toNat := by
  refine ⟨Int.le_floor.2 (by push_cast; linarith), Int.floor_lt.2 ?_⟩
  push_cast
  linarith

theorem repeatNeighbours_within (h : IsSize size) (coord : ℚ) :
    ∃ r, repeatNeighbours coord size = pure r ∧ r.Within size ∧ r.Fractional := by
  obtain ⟨hnonneg, hlt⟩ : 0 ≤ repeatPosition coord size ∧ repeatPosition coord size < size.toNat := repeatPosition_bounds h
  have hfraction := fraction_bounds (repeatPosition coord size)
  obtain ⟨hlo, hhi⟩ := neighbour_bounds hnonneg hlt.le
  have hpos := h.1
  have hlast := h.toInt_sub_one
  have hzero : (0 : BitVec 32).toInt = 0 := rfl
  unfold repeatNeighbours
  simp only [convertInt_intCast (h.inRange hlo hhi.le), pure_bind]
  generalize ⌊repeatPosition coord size - 1 / 2⌋ = n at hlo hhi
  have hsize : size = BitVec.ofInt 32 size.toNat := by rw [BitVec.ofInt_natCast, BitVec.ofNat_toNat, BitVec.setWidth_eq]
  have hi0 := toInt_ofInt (h.inRange hlo hhi.le)
  have hi1 : (BitVec.ofInt 32 n + 1).toInt = n + 1 := by
    rw [show (1 : BitVec 32) = BitVec.ofInt 32 1 from rfl, ← BitVec.ofInt_add, toInt_ofInt (h.inRange (by omega) hhi)]
  -- Only the place before the first texel and the one after the last are wrapped.
  have hbefore : n = -1 → (BitVec.ofInt 32 n + size).toInt = size.toNat - 1 := by
    rintro rfl
    have hadd : BitVec.ofInt 32 (-1) + size = BitVec.ofInt 32 (-1 + size.toNat) := by
      rw [BitVec.ofInt_add, ← hsize]
    rw [hadd, toInt_ofInt (h.inRange (by omega) (by omega))]
    omega
  have hafter : n = size.toNat - 1 → (BitVec.ofInt 32 n + 1 - size).toInt = 0 := by
    rintro rfl
    have hend : BitVec.ofInt 32 (size.toNat - 1) + 1 = size := by
      rw [show (1 : BitVec 32) = BitVec.ofInt 32 1 from rfl, ← BitVec.ofInt_add, sub_add_cancel, ← hsize]
    rw [hend, BitVec.sub_self]
    rfl
  refine ⟨_, rfl, ⟨?_, ?_⟩, hfraction⟩
  · unfold Inside BitVec.slt
    simp only [decide_eq_true_eq, hi0, hzero]
    split
    · rw [hbefore (by omega)]
      omega
    · omega
  · unfold Inside BitVec.slt
    simp only [decide_eq_true_eq, hi1, hlast]
    split
    · rw [hafter (by omega)]
      omega
    · omega

theorem mirroredNeighbours_within (h : IsSize size) (coord : ℚ) :
    ∃ r, mirroredNeighbours coord size = pure r ∧ r.Within size ∧ r.Fractional := by
  obtain ⟨hnonneg, hle⟩ : 0 ≤ mirroredPosition coord size ∧ mirroredPosition coord size ≤ size.toNat :=
    mirroredPosition_bounds h
  have hfraction := fraction_bounds (mirroredPosition coord size)
  obtain ⟨hlo, hhi⟩ := neighbour_bounds hnonneg hle
  have hpos := h.1
  have hlast := h.toInt_sub_one
  have hzero : (0 : BitVec 32).toInt = 0 := rfl
  unfold mirroredNeighbours
  simp only [convertInt_intCast (h.inRange hlo hhi.le), pure_bind]
  generalize ⌊mirroredPosition coord size - 1 / 2⌋ = n at hlo hhi
  have hi0 := toInt_ofInt (h.inRange hlo hhi.le)
  have hi1 : (BitVec.ofInt 32 n + 1).toInt = n + 1 := by
    rw [show (1 : BitVec 32) = BitVec.ofInt 32 1 from rfl, ← BitVec.ofInt_add, toInt_ofInt (h.inRange (by omega) hhi)]
  refine ⟨_, rfl, ⟨?_, ?_⟩, hfraction⟩
  · unfold Inside
    rw [toInt_maxInt, hi0, hzero]
    omega
  · unfold Inside
    rw [toInt_minInt, hi1, hlast]
    omega

theorem repeatTexel_add (coord : ℚ) (size : BitVec 32) (n : Int) : repeatTexel (coord + n) size = repeatTexel coord size := by
  unfold repeatTexel
  rw [repeatPosition_add]

theorem repeatNeighbours_add (coord : ℚ) (size : BitVec 32) (n : Int) :
    repeatNeighbours (coord + n) size = repeatNeighbours coord size := by
  unfold repeatNeighbours
  rw [repeatPosition_add]

theorem Mirrors.texel_eq {c c' : ℚ} (h : Mirrors c c') (size : BitVec 32) : mirroredTexel c' size = mirroredTexel c size := by
  unfold mirroredTexel
  rw [h.position_eq]

theorem Mirrors.neighbours_eq {c c' : ℚ} (h : Mirrors c c') (size : BitVec 32) :
    mirroredNeighbours c' size = mirroredNeighbours c size := by
  unfold mirroredNeighbours
  rw [h.position_eq]

end AxisTexels

/-! ## Filters -/

section FilterTexels
variable (devImage : DeviceImage) (devSampler : DeviceSampler) (coord : Vec4 ℚ)

/-- The sizes on all axes. A dimension that is missing has one texel. -/
structure Sized : Prop where
  width : IsSize devImage.width
  height : IsSize devImage.height
  depth : IsSize devImage.depth

structure AllInside (texel : Vec4 (BitVec 32)) : Prop where
  x : Inside devImage.width texel.x
  y : Inside devImage.height texel.y
  z : Inside devImage.depth texel.z

structure AllOneOutside (texel : Vec4 (BitVec 32)) : Prop where
  x : OneOutside devImage.width texel.x
  y : OneOutside devImage.height texel.y
  z : OneOutside devImage.depth texel.z

/-- An `int` holds the texel positions that are given to `address_mode`. -/
def FitsNearest : Prop :=
  let t := coordTmp devImage devSampler coord
  Clamps devSampler → ∀ c ∈ [t.x, t.y, t.z, t.w], CInteger.IntType.int.InRange ⌊c⌋

def FitsLinear : Prop :=
  Clamps devSampler →
    ∀ u ∈ [position devSampler coord.x devImage.width, position devSampler coord.y devImage.height,
      position devSampler coord.z devImage.depth],
      CInteger.IntType.int.InRange ⌊u - 1 / 2⌋ ∧ CInteger.IntType.int.InRange (⌊u - 1 / 2⌋ + 1)

/-- The modes that pick texels of the image only. -/
def StaysInside : Prop :=
  addressing devSampler = clkAddressClampToEdge ∨ addressing devSampler = clkAddressRepeat ∨
    addressing devSampler = clkAddressMirroredRepeat

structure NearestRight : Prop where
  inside : StaysInside devSampler → ∃ t, applyFilterNearest devImage devSampler coord = pure t ∧ AllInside devImage t
  clamp : addressing devSampler = clkAddressClamp →
    ∃ t, applyFilterNearest devImage devSampler coord = pure t ∧ AllOneOutside devImage t
  repeats : addressing devSampler = clkAddressRepeat → ∀ nx ny nz : Int,
    applyFilterNearest devImage devSampler ⟨coord.x + nx, coord.y + ny, coord.z + nz, coord.w⟩ =
      applyFilterNearest devImage devSampler coord
  mirrors : addressing devSampler = clkAddressMirroredRepeat →
    ∀ x y z, Mirrors coord.x x → Mirrors coord.y y → Mirrors coord.z z →
      applyFilterNearest devImage devSampler ⟨x, y, z, coord.w⟩ = applyFilterNearest devImage devSampler coord

/-- The neighbours that are picked on the axes, which have this property at all texels that are read. -/
def Picks (P : Vec4 (BitVec 32) → Prop) : Prop :=
  ∃ x y z : Neighbours, neighbours devImage devSampler coord = pure (some (x, y, z)) ∧
    (∀ size, ∀ tap ∈ taps x y z size, P tap.2) ∧ x.Fractional ∧ y.Fractional ∧ z.Fractional

structure LinearRight : Prop where
  inside : StaysInside devSampler → Picks devImage devSampler coord (AllInside devImage)
  clamp : addressing devSampler = clkAddressClamp → Picks devImage devSampler coord (AllOneOutside devImage)
  repeats : addressing devSampler = clkAddressRepeat → ∀ nx ny nz : Int,
    neighbours devImage devSampler ⟨coord.x + nx, coord.y + ny, coord.z + nz, coord.w⟩ =
      neighbours devImage devSampler coord
  mirrors : addressing devSampler = clkAddressMirroredRepeat →
    ∀ x y z, Mirrors coord.x x → Mirrors coord.y y → Mirrors coord.z z →
      neighbours devImage devSampler ⟨x, y, z, coord.w⟩ = neighbours devImage devSampler coord

variable {devImage devSampler coord}

theorem not_clamps (h : addressing devSampler = clkAddressRepeat ∨ addressing devSampler = clkAddressMirroredRepeat) :
    ¬ Clamps devSampler := by
  unfold Clamps
  rcases h with h | h <;> rw [h] <;> decide

/-- Neighbours on each axis, and with them all texels that are read. -/
theorem taps_all {P : BitVec 32 → BitVec 32 → Prop} {x y z : Neighbours} (hh : P devImage.height 0) (hd : P devImage.depth 0)
    (hx : P devImage.width x.i0 ∧ P devImage.width x.i1)
    (hy : P devImage.height y.i0 ∧ P devImage.height y.i1) (hz : P devImage.depth z.i0 ∧ P devImage.depth z.i1) (size : Nat) :
    ∀ tap ∈ taps x y z size, P devImage.width tap.2.x ∧ P devImage.height tap.2.y ∧ P devImage.depth tap.2.z := by
  unfold taps
  split <;> simp only [List.forall_mem_cons, List.not_mem_nil, false_implies, implies_true, and_true, hh, hd, hx, hy, hz]

theorem IsSize.inside_zero {size : BitVec 32} (h : IsSize size) : Inside size 0 :=
  ⟨le_rfl, Int.natCast_pos.2 h.1⟩

theorem Sized.taps_inside (h : Sized devImage) {x y z : Neighbours} (hx : x.Within devImage.width)
    (hy : y.Within devImage.height) (hz : z.Within devImage.depth) (size : Nat) :
    ∀ tap ∈ taps x y z size, AllInside devImage tap.2 := by
  intro tap htap
  obtain ⟨hx', hy', hz'⟩ := taps_all (P := Inside) h.height.inside_zero h.depth.inside_zero
    ⟨hx.i0, hx.i1⟩ ⟨hy.i0, hy.i1⟩ ⟨hz.i0, hz.i1⟩ size tap htap
  exact ⟨hx', hy', hz'⟩

theorem taps_oneOutside {x y z : Neighbours} (hx : OneOutside devImage.width x.i0 ∧ OneOutside devImage.width x.i1)
    (hy : OneOutside devImage.height y.i0 ∧ OneOutside devImage.height y.i1)
    (hz : OneOutside devImage.depth z.i0 ∧ OneOutside devImage.depth z.i1) (size : Nat) :
    ∀ tap ∈ taps x y z size, AllOneOutside devImage tap.2 := by
  have hzero : ∀ size : BitVec 32, OneOutside size 0 := fun size => ⟨by decide, Int.natCast_nonneg _⟩
  intro tap htap
  obtain ⟨hx', hy', hz'⟩ := taps_all (P := OneOutside) (hzero _) (hzero _) hx hy hz size tap htap
  exact ⟨hx', hy', hz'⟩

theorem addressMode_edge (h : Sized devImage) (hmode : addressing devSampler = clkAddressClampToEdge)
    (texel : Vec4 (BitVec 32)) : AllInside devImage (addressMode devImage devSampler texel) := by
  have hcode : addressMode devImage devSampler texel =
      clamp4 texel ⟨0, 0, 0, 0⟩ ⟨devImage.width - 1, devImage.height - 1, devImage.depth - 1, 0⟩ := by
    unfold addressMode
    rw [hmode]
    rfl
  rw [hcode]
  exact ⟨h.width.inside_clamp _, h.height.inside_clamp _, h.depth.inside_clamp _⟩

theorem addressMode_clamp (h : Sized devImage) (hmode : addressing devSampler = clkAddressClamp)
    (texel : Vec4 (BitVec 32)) : AllOneOutside devImage (addressMode devImage devSampler texel) := by
  have hcode : addressMode devImage devSampler texel =
      clamp4 texel ⟨-1, -1, -1, -1⟩ ⟨devImage.width, devImage.height, devImage.depth, 0⟩ := by
    unfold addressMode
    rw [hmode]
    rfl
  rw [hcode]
  exact ⟨h.width.oneOutside_clamp _, h.height.oneOutside_clamp _, h.depth.oneOutside_clamp _⟩

theorem convertInt4_intCast {x y z w : Int} (h : ∀ n ∈ [x, y, z, w], CInteger.IntType.int.InRange n) :
    convertInt4 ⟨x, y, z, w⟩ = pure ⟨.ofInt 32 x, .ofInt 32 y, .ofInt 32 z, .ofInt 32 w⟩ := by
  simp only [List.forall_mem_cons, List.not_mem_nil, false_implies, implies_true, and_true] at h
  obtain ⟨hx, hy, hz, hw⟩ := h
  unfold convertInt4
  simp only [convertInt_intCast hx, convertInt_intCast hy, convertInt_intCast hz, convertInt_intCast hw, pure_bind]

/-- Where positions are given to `address_mode`, its result is that of the filter. -/
theorem nearest_of_clamps (hclamps : Clamps devSampler) (h : FitsNearest devImage devSampler coord) :
    ∃ texel, applyFilterNearest devImage devSampler coord = pure (addressMode devImage devSampler texel) := by
  have hfits := h hclamps
  have hconvert := convertInt4_intCast (x := ⌊(coordTmp devImage devSampler coord).x⌋)
    (y := ⌊(coordTmp devImage devSampler coord).y⌋) (z := ⌊(coordTmp devImage devSampler coord).z⌋)
    (w := ⌊(coordTmp devImage devSampler coord).w⌋) (by
      simp only [List.forall_mem_cons, List.not_mem_nil, false_implies, implies_true, and_true] at hfits ⊢
      exact hfits)
  unfold applyFilterNearest
  simp only [if_pos hclamps, hconvert, pure_bind]
  exact ⟨_, rfl⟩

theorem neighbours_of_clamps (hclamps : Clamps devSampler) (h : FitsLinear devImage devSampler coord) :
    ∃ texel0 texel1 a b c,
      neighbours devImage devSampler coord = pure (some
        (⟨(addressMode devImage devSampler texel0).x, (addressMode devImage devSampler texel1).x, fraction a⟩,
          ⟨(addressMode devImage devSampler texel0).y, (addressMode devImage devSampler texel1).y, fraction b⟩,
          ⟨(addressMode devImage devSampler texel0).z, (addressMode devImage devSampler texel1).z, fraction c⟩)) := by
  have hfits := h hclamps
  simp only [List.forall_mem_cons, List.not_mem_nil, false_implies, implies_true, and_true] at hfits
  obtain ⟨⟨hu, hu'⟩, ⟨hv, hv'⟩, hw, hw'⟩ := hfits
  have hzero : CInteger.IntType.int.InRange 0 := by decide
  have hfirst := convertInt4_intCast (x := ⌊position devSampler coord.x devImage.width - 1 / 2⌋)
    (y := ⌊position devSampler coord.y devImage.height - 1 / 2⌋) (z := ⌊position devSampler coord.z devImage.depth - 1 / 2⌋)
    (w := 0) (by simp only [List.forall_mem_cons, hu, hv, hw, hzero, List.not_mem_nil, false_implies, implies_true, and_true])
  have hsecond := convertInt4_intCast (x := ⌊position devSampler coord.x devImage.width - 1 / 2⌋ + 1)
    (y := ⌊position devSampler coord.y devImage.height - 1 / 2⌋ + 1)
    (z := ⌊position devSampler coord.z devImage.depth - 1 / 2⌋ + 1) (w := 0)
    (by simp only [List.forall_mem_cons, hu', hv', hw', hzero, List.not_mem_nil, false_implies, implies_true, and_true])
  push_cast at hfirst hsecond
  unfold neighbours
  simp only [if_pos hclamps, hfirst, hsecond, pure_bind]
  exact ⟨_, _, _, _, _, rfl⟩

theorem neighbours_of_repeat (h : addressing devSampler = clkAddressRepeat) :
    neighbours devImage devSampler coord = (do
      let x ← repeatNeighbours coord.x devImage.width
      let y ← repeatNeighbours coord.y devImage.height
      let z ← repeatNeighbours coord.z devImage.depth
      pure (some (x, y, z))) := by
  unfold neighbours
  rw [if_neg (not_clamps (.inl h)), if_pos h]

theorem neighbours_of_mirrored (h : addressing devSampler = clkAddressMirroredRepeat) :
    neighbours devImage devSampler coord = (do
      let x ← mirroredNeighbours coord.x devImage.width
      let y ← mirroredNeighbours coord.y devImage.height
      let z ← mirroredNeighbours coord.z devImage.depth
      pure (some (x, y, z))) := by
  have hne : addressing devSampler ≠ clkAddressRepeat := by rw [h]; decide
  unfold neighbours
  rw [if_neg (not_clamps (.inr h)), if_neg hne, if_pos h]

theorem nearest_of_repeat (h : addressing devSampler = clkAddressRepeat) (hnorm : isNormalized devSampler = true) :
    applyFilterNearest devImage devSampler coord = convertInt4
      ⟨repeatTexel coord.x devImage.width, repeatTexel coord.y devImage.height, repeatTexel coord.z devImage.depth, 0⟩ := by
  unfold applyFilterNearest coordTmp
  simp only [if_neg (not_clamps (.inl h)), hnorm, if_true, h]

theorem nearest_of_mirrored (h : addressing devSampler = clkAddressMirroredRepeat) (hnorm : isNormalized devSampler = true) :
    applyFilterNearest devImage devSampler coord = convertInt4
      ⟨mirroredTexel coord.x devImage.width, mirroredTexel coord.y devImage.height, mirroredTexel coord.z devImage.depth, 0⟩ := by
  have hne : clkAddressMirroredRepeat ≠ clkAddressRepeat := by decide
  unfold applyFilterNearest coordTmp
  simp only [if_neg (not_clamps (.inr h)), hnorm, if_true, h, if_neg hne]

theorem convertInt4_axes {x y z : ℚ} {i j k : BitVec 32} (hx : convertInt x = pure i) (hy : convertInt y = pure j)
    (hz : convertInt z = pure k) : ∃ l, convertInt4 ⟨x, y, z, 0⟩ = pure ⟨i, j, k, l⟩ := by
  have hzero := convertInt_intCast (n := 0) (by decide)
  rw [Int.cast_zero] at hzero
  unfold convertInt4
  simp only [hx, hy, hz, hzero, pure_bind]
  exact ⟨_, rfl⟩

theorem nearest_right (hsize : Sized devImage)
    (hnorm : addressing devSampler = clkAddressRepeat ∨ addressing devSampler = clkAddressMirroredRepeat →
      isNormalized devSampler = true) (h : FitsNearest devImage devSampler coord) :
    NearestRight devImage devSampler coord where
  inside := by
    rintro (hmode | hmode | hmode)
    · obtain ⟨texel, heq⟩ := nearest_of_clamps (.inr (.inr hmode)) h
      exact ⟨_, heq, addressMode_edge hsize hmode texel⟩
    · obtain ⟨i, hi, hx⟩ := repeatTexel_inside hsize.width coord.x
      obtain ⟨j, hj, hy⟩ := repeatTexel_inside hsize.height coord.y
      obtain ⟨k, hk, hz⟩ := repeatTexel_inside hsize.depth coord.z
      obtain ⟨l, hl⟩ := convertInt4_axes hi hj hk
      exact ⟨_, (nearest_of_repeat hmode (hnorm (.inl hmode))).trans hl, hx, hy, hz⟩
    · obtain ⟨i, hi, hx⟩ := mirroredTexel_inside hsize.width coord.x
      obtain ⟨j, hj, hy⟩ := mirroredTexel_inside hsize.height coord.y
      obtain ⟨k, hk, hz⟩ := mirroredTexel_inside hsize.depth coord.z
      obtain ⟨l, hl⟩ := convertInt4_axes hi hj hk
      exact ⟨_, (nearest_of_mirrored hmode (hnorm (.inr hmode))).trans hl, hx, hy, hz⟩
  clamp := by
    intro hmode
    obtain ⟨texel, heq⟩ := nearest_of_clamps (.inr (.inl hmode)) h
    exact ⟨_, heq, addressMode_clamp hsize hmode texel⟩
  repeats := by
    intro hmode nx ny nz
    have hn := hnorm (.inl hmode)
    rw [nearest_of_repeat hmode hn, nearest_of_repeat hmode hn, repeatTexel_add, repeatTexel_add, repeatTexel_add]
  mirrors := by
    intro hmode x y z hx hy hz
    have hn := hnorm (.inr hmode)
    rw [nearest_of_mirrored hmode hn, nearest_of_mirrored hmode hn, hx.texel_eq, hy.texel_eq, hz.texel_eq]

theorem linear_right (hsize : Sized devImage) (h : FitsLinear devImage devSampler coord) :
    LinearRight devImage devSampler coord where
  inside := by
    rintro (hmode | hmode | hmode)
    · obtain ⟨texel0, texel1, a, b, c, heq⟩ := neighbours_of_clamps (.inr (.inr hmode)) h
      have h0 := addressMode_edge hsize hmode texel0
      have h1 := addressMode_edge hsize hmode texel1
      exact ⟨_, _, _, heq, hsize.taps_inside ⟨h0.x, h1.x⟩ ⟨h0.y, h1.y⟩ ⟨h0.z, h1.z⟩, fraction_bounds a, fraction_bounds b,
        fraction_bounds c⟩
    · obtain ⟨x, hx, hxin, hxa⟩ := repeatNeighbours_within hsize.width coord.x
      obtain ⟨y, hy, hyin, hya⟩ := repeatNeighbours_within hsize.height coord.y
      obtain ⟨z, hz, hzin, hza⟩ := repeatNeighbours_within hsize.depth coord.z
      refine ⟨x, y, z, ?_, hsize.taps_inside hxin hyin hzin, hxa, hya, hza⟩
      rw [neighbours_of_repeat hmode, hx, hy, hz]
      rfl
    · obtain ⟨x, hx, hxin, hxa⟩ := mirroredNeighbours_within hsize.width coord.x
      obtain ⟨y, hy, hyin, hya⟩ := mirroredNeighbours_within hsize.height coord.y
      obtain ⟨z, hz, hzin, hza⟩ := mirroredNeighbours_within hsize.depth coord.z
      refine ⟨x, y, z, ?_, hsize.taps_inside hxin hyin hzin, hxa, hya, hza⟩
      rw [neighbours_of_mirrored hmode, hx, hy, hz]
      rfl
  clamp := by
    intro hmode
    obtain ⟨texel0, texel1, a, b, c, heq⟩ := neighbours_of_clamps (.inr (.inl hmode)) h
    have h0 := addressMode_clamp hsize hmode texel0
    have h1 := addressMode_clamp hsize hmode texel1
    exact ⟨_, _, _, heq, taps_oneOutside ⟨h0.x, h1.x⟩ ⟨h0.y, h1.y⟩ ⟨h0.z, h1.z⟩, fraction_bounds a, fraction_bounds b,
      fraction_bounds c⟩
  repeats := by
    intro hmode nx ny nz
    rw [neighbours_of_repeat hmode, neighbours_of_repeat hmode, repeatNeighbours_add, repeatNeighbours_add,
      repeatNeighbours_add]
  mirrors := by
    intro hmode x y z hx hy hz
    rw [neighbours_of_mirrored hmode, neighbours_of_mirrored hmode, hx.neighbours_eq, hy.neighbours_eq, hz.neighbours_eq]

end FilterTexels

/-- Both filters. The word of the sampler has the flags of the library. -/
theorem sampler_addressing (devImage : DeviceImage) (devSampler : DeviceSampler) (coord : Vec4 ℚ) (hsize : Sized devImage)
    (hnorm : addressing devSampler = clkAddressRepeat ∨ addressing devSampler = clkAddressMirroredRepeat →
      isNormalized devSampler = true) :
    (FitsNearest devImage devSampler coord → NearestRight devImage devSampler coord) ∧
      (FitsLinear devImage devSampler coord → LinearRight devImage devSampler coord) :=
  ⟨nearest_right hsize hnorm, linear_right hsize⟩

/-- To the right of an image of four by four texels, which has no depth. -/
theorem sampler_addressing_edge :
    NearestRight (header fourByFour 0) 0x13 ⟨5 / 4, 1 / 8, 0, 0⟩ ∧
      LinearRight (header fourByFour 0) 0x13 ⟨5 / 4, 1 / 8, 0, 0⟩ := by
  have hsize : Sized (header fourByFour 0) :=
    ⟨by unfold IsSize; decide +kernel, by unfold IsSize; decide +kernel, by unfold IsSize; decide +kernel⟩
  have hright := sampler_addressing (header fourByFour 0) 0x13 ⟨5 / 4, 1 / 8, 0, 0⟩ hsize (fun _ => by decide)
  exact ⟨hright.1 (by unfold FitsNearest; decide +kernel), hright.2 (by unfold FitsLinear; decide +kernel)⟩

end OpenCRun.SamplerAddressing
