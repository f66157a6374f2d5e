import OpenCRun.Lib.BitFields
import OpenCRun.Lib.FloatPattern
/-!
# Half-precision conversions

`FloatToHalf` and `HalfToFloat` of `CPUThread.cpp`. Both are written for the
bit patterns, but get at the pattern of a float, and give one back, by an
assignment between `cl_float` and `cl_uint`, which converts the number.
-/
open Lib.BitFields Lib.FloatPattern

namespace OpenCRun.HalfFloat

/-! ## The code -/

/-- What an assignment between `cl_float` and `cl_uint` does: convert the number, as the
language has it, or keep the pattern, as the code was meant. -/
inductive Reading where
  | value | pattern
  deriving DecidableEq, Repr

/-- A float as an unsigned integer, truncated. There is no result out of range. -/
def floatToUint (f : BitVec 32) : Option (BitVec 32) :=
  let a := f.toNat % 2 ^ 31
  let n := wholePart 23 127 a
  if 0x7f800000 ≤ a then none
  else if f.msb ∧ n ≠ 0 then none
  else if 2 ^ 32 ≤ n then none
  else some (BitVec.ofNat 32 n)

/-- An unsigned integer as a float, rounded to the nearest even. -/
def uintToFloat (n : BitVec 32) : BitVec 32 := BitVec.ofNat 32 (ofNat 23 127 n.toNat)

def Reading.toUint : Reading → BitVec 32 → Option (BitVec 32)
  | value => floatToUint
  | pattern => some

def Reading.toFloat : Reading → BitVec 32 → BitVec 32
  | value => uintToFloat
  | pattern => id

/-- `fp16_m` and `round` after the branches for underflow. -/
def underflow (exp : Int) (fp32_m : BitVec 32) : BitVec 16 × Bool :=
  if exp < -9 then (0#16, false)
  else if exp < 1 then
    let m := fp32_m ||| 0x00800000#32
    ((m >>> (14 - exp).toNat).setWidth 16, decide ((m >>> (13 - exp).toNat) &&& 1#32 ≠ 0#32))
  else ((fp32_m >>> 13).setWidth 16, false)

def pack (fp16_s fp16_e fp16_m : BitVec 16) (round : Bool) : BitVec 16 :=
  let fp16 := fp16_s ||| fp16_e ||| fp16_m
  if round then fp16 + 1#16 else fp16

/-- `FloatToHalf` from the pattern on. -/
def roundToHalf (fp32 : BitVec 32) : BitVec 16 :=
  let fp32_s := fp32 &&& 0x80000000#32
  let fp32_e := fp32 &&& 0x7f800000#32
  let fp32_m := fp32 &&& 0x007fffff#32
  let fp16_s := (fp32_s >>> 16).setWidth 16
  let exp := ((fp32_e >>> 23) - 127#32 + 15#32).toInt
  let (fp16_m, round) := underflow exp fp32_m
  -- an `if`, not an `else if`; the shift of a negative `exp` is one of its two's complement
  if 31 ≤ exp then pack fp16_s (0x001f#16 <<< 10) (if fp32_m ≠ 0#32 then 0x0200#16 else 0#16) round
  else pack fp16_s (BitVec.ofInt 16 (exp * 2 ^ 10)) fp16_m (round || decide (fp32_m &&& 0x00001000#32 ≠ 0#32))

def floatToHalf (r : Reading) (f : BitVec 32) : Option (BitVec 16) := (r.toUint f).map roundToHalf

/-- `do { ++e; m <<= 1; } while((m & 0x400U) == 0);`, with fuel. -/
def normalize : Nat → Int → BitVec 32 → Option (Int × BitVec 32)
  | 0, _, _ => none
  | fuel + 1, e, m =>
    let e := e + 1
    let m := m <<< 1
    if m &&& 0x400#32 = 0#32 then normalize fuel e m else some (e, m)

/-- The pattern that `HalfToFloat` puts together. -/
def widen (fp16 : BitVec 16) : Option (BitVec 32) :=
  let fp16_s := fp16 &&& 0x8000#16
  let fp16_e := fp16 &&& 0x7c00#16
  let fp16_m := fp16 &&& 0x03ff#16
  let fp32_s := fp16_s.setWidth 32 <<< 16
  let fp32_m := fp16_m.setWidth 32 <<< 13
  let exp := fp16_e >>> 10
  if exp = 31#16 then some (fp32_s ||| 255#32 <<< 23 ||| fp32_m)
  else if exp = 0#16 then
    if fp16_m ≠ 0#16 then
      (normalize 10 (-1) (fp16_m.setWidth 32)).map fun (e, m) =>
        fp32_s ||| BitVec.ofInt 32 (127 - 15 - e) <<< 23 ||| (m &&& 0x3ff#32) <<< 13
    else some (fp32_s ||| 0#32 ||| fp32_m)
  else some (fp32_s ||| (exp.setWidth 32 - 15#32 + 127#32) <<< 23 ||| fp32_m)

def halfToFloat (r : Reading) (h : BitVec 16) : Option (BitVec 32) :=
  -- `fp32 = (cl_float)(..)`, and `return fp32`
  ((widen h).bind fun fp32 => r.toUint (r.toFloat fp32)).map r.toFloat

/-! ## Fields -/

/-- One bit of an unsigned integer. -/
theorem odd_iff {x : BitVec 32} : x &&& 1#32 ≠ 0#32 ↔ x.toNat % 2 = 1 := by
  rw [ne_eq, ← BitVec.toNat_inj, toNat_field x 0 1 (by decide), BitVec.toNat_ofNat]
  omega

/-- What the branches before the missing `else` leave. -/
def leadingBits (e m : Nat) : Nat :=
  if e < 103 then 0 else if e < 113 then (2 ^ 23 + m) / 2 ^ (126 - e) else m / 2 ^ 13

def roundUp (e m : Nat) : Bool :=
  decide (103 ≤ e ∧ e < 113 ∧ (2 ^ 23 + m) / 2 ^ (125 - e) % 2 = 1) || decide (m / 2 ^ 12 % 2 = 1)

theorem leadingBits_lt {m : Nat} (hm : m < 2 ^ 23) (e : Nat) : leadingBits e m < 2 ^ 10 := by
  unfold leadingBits
  split
  · exact Nat.two_pow_pos 10
  · split
    · rw [Nat.div_lt_iff_lt_mul (Nat.two_pow_pos _), ← pow_add]
      exact (show 2 ^ 23 + m < 2 ^ 24 by omega).trans_le (Nat.pow_le_pow_right (by decide) (by omega))
    · omega

theorem toNat_pack {s x m : Nat} {fp16_e : BitVec 16} (hs : s < 2) (hx : x < 2 ^ 6) (he : fp16_e.toNat = x * 2 ^ 10)
    (hm : m < 2 ^ 10) (round : Bool) :
    (pack (BitVec.ofNat 16 (s * 2 ^ 15)) fp16_e (BitVec.ofNat 16 m) round).toNat =
      ((s * 2 ^ 5 ||| x) * 2 ^ 10 + m + round.toNat) % 2 ^ 16 := by
  have hfields : (s * 2 ^ 15 ||| x * 2 ^ 10) ||| m = (s * 2 ^ 5 ||| x) * 2 ^ 10 + m := by
    rw [← or_field _ hm, ← Nat.shiftLeft_eq (s * 2 ^ 5 ||| x), Nat.shiftLeft_or_distrib, Nat.shiftLeft_eq, Nat.shiftLeft_eq,
      Nat.mul_assoc, ← pow_add]
  have hor : s * 2 ^ 5 ||| x < 2 ^ 6 := Nat.or_lt_two_pow (by omega) hx
  have hpack : (BitVec.ofNat 16 (s * 2 ^ 15) ||| fp16_e ||| BitVec.ofNat 16 m).toNat = (s * 2 ^ 5 ||| x) * 2 ^ 10 + m := by
    rw [BitVec.toNat_or, BitVec.toNat_or, BitVec.toNat_ofNat, BitVec.toNat_ofNat, he,
      Nat.mod_eq_of_lt (show s * 2 ^ 15 < 2 ^ 16 by omega), Nat.mod_eq_of_lt (show m < 2 ^ 16 by omega), hfields]
  unfold pack
  cases round with
  | true =>
    rw [if_pos rfl, BitVec.toNat_add, hpack]
    rfl
  | false =>
    rw [if_neg Bool.false_ne_true, hpack, Bool.toNat_false, Nat.add_zero, Nat.mod_eq_of_lt (by omega)]

section Float
variable {f : BitVec 32} {s e m : Nat} (h : Fields 8 23 f.toNat s e m)
include h

theorem sign_field : ((f &&& 0x80000000#32) >>> 16).setWidth 16 = BitVec.ofNat 16 (s * 2 ^ 15) := by
  apply BitVec.eq_of_toNat_eq
  obtain ⟨hs, he, hm, hf⟩ := h
  rw [BitVec.toNat_setWidth, BitVec.toNat_ushiftRight, toNat_field f 31 1 (by decide), Nat.shiftRight_eq_div_pow,
    BitVec.toNat_ofNat]
  omega

theorem exponent_field : (((f &&& 0x7f800000#32) >>> 23) - 127#32 + 15#32).toInt = (e : Int) - 112 := by
  have hexp : ((f &&& 0x7f800000#32) >>> 23).toNat = e := by
    obtain ⟨hs, he, hm, hf⟩ := h
    rw [BitVec.toNat_ushiftRight, toNat_field f 23 8 (by decide), Nat.shiftRight_eq_div_pow]
    omega
  have he := h.exponent_lt
  have hnat : ((f &&& 0x7f800000#32) >>> 23 - 127#32 + 15#32).toNat = (e + (2 ^ 32 - 112)) % 2 ^ 32 := by
    rw [BitVec.toNat_add, BitVec.toNat_sub, hexp, BitVec.toNat_ofNat, BitVec.toNat_ofNat]
    omega
  rw [BitVec.toInt_eq_toNat_cond, hnat]
  split <;> omega

theorem mantissa_field : f &&& 0x007fffff#32 = BitVec.ofNat 32 m := by
  apply BitVec.eq_of_toNat_eq
  obtain ⟨hs, he, hm, hf⟩ := h
  rw [toNat_field f 0 23 (by decide), BitVec.toNat_ofNat]
  omega

theorem hidden_bit : BitVec.ofNat 32 m ||| 0x00800000#32 = BitVec.ofNat 32 (2 ^ 23 + m) := by
  apply BitVec.eq_of_toNat_eq
  have hor := or_field 1 h.mantissa_lt
  have hm := h.mantissa_lt
  rw [BitVec.toNat_or, BitVec.toNat_ofNat, BitVec.toNat_ofNat, BitVec.toNat_ofNat, Nat.or_comm,
    Nat.mod_eq_of_lt (show m < 2 ^ 32 by omega), Nat.mod_eq_of_lt (show 2 ^ 23 + m < 2 ^ 32 by omega)]
  simpa using hor

theorem round_bit : BitVec.ofNat 32 m &&& 0x00001000#32 ≠ 0#32 ↔ m / 2 ^ 12 % 2 = 1 := by
  have hm := h.mantissa_lt
  rw [ne_eq, ← BitVec.toNat_inj, toNat_field _ 12 1 (by decide), BitVec.toNat_ofNat, BitVec.toNat_ofNat,
    Nat.mod_eq_of_lt (show m < 2 ^ 32 by omega)]
  omega

theorem underflow_eq : underflow ((e : Int) - 112) (BitVec.ofNat 32 m) =
    (BitVec.ofNat 16 (leadingBits e m), decide (103 ≤ e ∧ e < 113 ∧ (2 ^ 23 + m) / 2 ^ (125 - e) % 2 = 1)) := by
  have hm := h.mantissa_lt
  unfold underflow leadingBits
  rcases Nat.lt_or_ge e 103 with he | he
  · rw [if_pos (by omega), if_pos he, decide_eq_false (by omega)]
  rw [if_neg (by omega), if_neg (not_lt.2 he)]
  rcases Nat.lt_or_ge e 113 with he' | he'
  · rw [if_pos (by omega), if_pos he']
    simp only [hidden_bit h, odd_iff]
    rw [show (14 - ((e : Int) - 112)).toNat = 126 - e by omega, show (13 - ((e : Int) - 112)).toNat = 125 - e by omega]
    have hlead : ((BitVec.ofNat 32 (2 ^ 23 + m) >>> (126 - e)).setWidth 16) =
        BitVec.ofNat 16 ((2 ^ 23 + m) / 2 ^ (126 - e)) := by
      apply BitVec.eq_of_toNat_eq
      rw [BitVec.toNat_setWidth, BitVec.toNat_ushiftRight, BitVec.toNat_ofNat, BitVec.toNat_ofNat,
        Nat.mod_eq_of_lt (show 2 ^ 23 + m < 2 ^ 32 by omega), Nat.shiftRight_eq_div_pow]
    rw [hlead, BitVec.toNat_ushiftRight, BitVec.toNat_ofNat, Nat.mod_eq_of_lt (show 2 ^ 23 + m < 2 ^ 32 by omega),
      Nat.shiftRight_eq_div_pow]
    simp only [he, he', true_and]
  · rw [if_neg (by omega), if_neg (not_lt.2 he'), decide_eq_false (by omega)]
    have hlead : (BitVec.ofNat 32 m >>> 13).setWidth 16 = BitVec.ofNat 16 (m / 2 ^ 13) := by
      apply BitVec.eq_of_toNat_eq
      rw [BitVec.toNat_setWidth, BitVec.toNat_ushiftRight, BitVec.toNat_ofNat, BitVec.toNat_ofNat,
        Nat.mod_eq_of_lt (show m < 2 ^ 32 by omega), Nat.shiftRight_eq_div_pow]
    rw [hlead]

/-- Infinity and beyond. -/
theorem roundToHalf_overflow (he : 143 ≤ e) :
    (roundToHalf f).toNat = s * 2 ^ 15 + 31 * 2 ^ 10 + if m = 0 then 0 else 2 ^ 9 := by
  unfold roundToHalf
  simp only [sign_field h, exponent_field h, mantissa_field h, underflow_eq h]
  rw [if_pos (by omega), decide_eq_false (by omega)]
  have hs := h.sign_lt
  have hm : (if BitVec.ofNat 32 m ≠ 0#32 then 0x0200#16 else 0#16) = BitVec.ofNat 16 (if m = 0 then 0 else 2 ^ 9) := by
    have hzero : BitVec.ofNat 32 m = 0#32 ↔ m = 0 := by
      have hm := h.mantissa_lt
      rw [← BitVec.toNat_inj, BitVec.toNat_ofNat, Nat.mod_eq_of_lt (by omega)]
      rfl
    simp only [ne_eq, hzero, ite_not, apply_ite (BitVec.ofNat 16)]
    rfl
  have hlt : (if m = 0 then 0 else 2 ^ 9) < 2 ^ 10 := by split <;> decide
  rw [hm, toNat_pack (x := 31) hs (by decide) (by decide) hlt, or_field s (show 31 < 2 ^ 5 by decide),
    Bool.toNat_false, Nat.add_zero, Nat.mod_eq_of_lt (by omega)]
  ring

/-- The exponent shares its bits with the sign when it is negative. -/
theorem roundToHalf_toNat (he : e ≤ 142) :
    (roundToHalf f).toNat = ((s * 2 ^ 5 ||| (e + 16) % 64) * 2 ^ 10 + leadingBits e m + (roundUp e m).toNat) % 2 ^ 16 := by
  unfold roundToHalf
  simp only [sign_field h, exponent_field h, mantissa_field h, underflow_eq h, round_bit h]
  rw [if_neg (show ¬ 31 ≤ (e : Int) - 112 by omega)]
  have hfield : (BitVec.ofInt 16 (((e : Int) - 112) * 2 ^ 10)).toNat = (e + 16) % 64 * 2 ^ 10 := by
    have hint := BitVec.toNat_ofInt (n := 16) (((e : Int) - 112) * 2 ^ 10)
    omega
  rw [toNat_pack h.sign_lt (Nat.mod_lt _ (by decide)) hfield (leadingBits_lt h.mantissa_lt e)]
  rfl

end Float

/-! ## The pattern of a half, widened -/

theorem toNat_normalize {fuel : Nat} {e : Int} {m : BitVec 32} (hm : m.toNat < 2 ^ 10) (hfuel : 2 ^ 10 ≤ m.toNat * 2 ^ fuel) :
    ∃ j < fuel, ∃ m', normalize fuel e m = some (e + 1 + j, m') ∧
      m'.toNat = m.toNat * 2 ^ (j + 1) ∧ 2 ^ 10 ≤ m'.toNat ∧ m'.toNat < 2 ^ 11 := by
  induction fuel generalizing e m with
  | zero => omega
  | succ fuel ih =>
    have hshift : (m <<< 1).toNat = m.toNat * 2 := by
      rw [BitVec.toNat_shiftLeft, Nat.shiftLeft_eq]
      omega
    have hbit : m <<< 1 &&& 0x400#32 = 0#32 ↔ m.toNat * 2 < 2 ^ 10 := by
      rw [← BitVec.toNat_inj, toNat_field _ 10 1 (by decide), hshift, BitVec.toNat_ofNat]
      omega
    unfold normalize
    by_cases hlt : m.toNat * 2 < 2 ^ 10
    · obtain ⟨j, hj, m', hrun, hm', hge, hlt'⟩ := ih (e := e + 1) (m := m <<< 1) (by omega)
        (by rw [hshift, Nat.mul_assoc, ← pow_succ']; exact hfuel)
      refine ⟨j + 1, by omega, m', ?_, ?_, hge, hlt'⟩
      · simp only [hbit.2 hlt, if_true, hrun]
        push_cast
        congr 2
        omega
      · rw [hm', hshift, Nat.mul_assoc, ← pow_succ']
    · refine ⟨0, Nat.succ_pos _, m <<< 1, ?_, by omega, by omega, by omega⟩
      simp only [mt hbit.1 hlt, if_false, Int.natCast_zero, Int.add_zero]

theorem join_fields {fp32_s fp32_e fp32_m : BitVec 32} {s e m : Nat} (hs : fp32_s.toNat = s * 2 ^ 31)
    (he : fp32_e.toNat = e * 2 ^ 23) (hm : fp32_m.toNat = m) (hslt : s < 2) (helt : e < 2 ^ 8) (hmlt : m < 2 ^ 23) :
    Fields 8 23 (fp32_s ||| fp32_e ||| fp32_m).toNat s e m := by
  refine ⟨hslt, helt, hmlt, ?_⟩
  rw [BitVec.toNat_or, BitVec.toNat_or, hs, he, hm, or_field s (show e * 2 ^ 23 < 2 ^ 31 by omega),
    show s * 2 ^ 31 + e * 2 ^ 23 = (s * 2 ^ 8 + e) * 2 ^ 23 by omega, or_field _ hmlt]

/-- The exponent and significand of a half, and those of the float with its value. -/
inductive Widened : Nat → Nat → Nat → Nat → Prop
  | special (m : Nat) : Widened 31 m 255 (m * 2 ^ 13)
  | zero : Widened 0 0 0 0
  | normal {e : Nat} (m : Nat) (hpos : 0 < e) (hlt : e < 31) : Widened e m (e + 112) (m * 2 ^ 13)
  | denormal {j m m' : Nat} (hj : j < 10) (hm' : 2 ^ 23 + m' = m * 2 ^ (j + 1) * 2 ^ 13) : Widened 0 m (112 - j) m'

section Half
variable {x : BitVec 16} {s e m : Nat} (h : Fields 5 10 x.toNat s e m)
include h

theorem half_sign_field : ((x &&& 0x8000#16).setWidth 32 <<< 16).toNat = s * 2 ^ 31 := by
  obtain ⟨hs, he, hm, hx⟩ := h
  rw [BitVec.toNat_shiftLeft, BitVec.toNat_setWidth, toNat_field x 15 1 (by decide), Nat.shiftLeft_eq]
  omega

theorem half_exponent_field : (x &&& 0x7c00#16) >>> 10 = BitVec.ofNat 16 e := by
  apply BitVec.eq_of_toNat_eq
  obtain ⟨hs, he, hm, hx⟩ := h
  rw [BitVec.toNat_ushiftRight, toNat_field x 10 5 (by decide), Nat.shiftRight_eq_div_pow, BitVec.toNat_ofNat]
  omega

theorem half_mantissa_field : x &&& 0x03ff#16 = BitVec.ofNat 16 m := by
  apply BitVec.eq_of_toNat_eq
  obtain ⟨hs, he, hm, hx⟩ := h
  rw [toNat_field x 0 10 (by decide), BitVec.toNat_ofNat]
  omega

theorem widen_fields : ∃ w e' m', widen x = some w ∧ Fields 8 23 w.toNat s e' m' ∧ Widened e m e' m' := by
  have hs := h.sign_lt
  have he := h.exponent_lt
  have hm := h.mantissa_lt
  have hm32 : ((BitVec.ofNat 16 m).setWidth 32).toNat = m := by
    rw [BitVec.toNat_setWidth, BitVec.toNat_ofNat]
    omega
  have hshift : ((BitVec.ofNat 16 m).setWidth 32 <<< 13).toNat = m * 2 ^ 13 := by
    rw [BitVec.toNat_shiftLeft, hm32, Nat.shiftLeft_eq]
    omega
  have hmax : BitVec.ofNat 16 e = 31#16 ↔ e = 31 := by
    rw [← BitVec.toNat_inj, BitVec.toNat_ofNat, BitVec.toNat_ofNat]
    omega
  have hmin : BitVec.ofNat 16 e = 0#16 ↔ e = 0 := by
    rw [← BitVec.toNat_inj, BitVec.toNat_ofNat, BitVec.toNat_ofNat]
    omega
  have hzero : BitVec.ofNat 16 m = 0#16 ↔ m = 0 := by
    rw [← BitVec.toNat_inj, BitVec.toNat_ofNat, BitVec.toNat_ofNat]
    omega
  unfold widen
  simp only [half_exponent_field h, half_mantissa_field h, hmax, hmin, ne_eq, hzero, ite_not]
  split
  · next hexp =>
    subst hexp
    exact ⟨_, 255, m * 2 ^ 13, rfl, join_fields (half_sign_field h) (by decide) hshift hs (by decide) (by omega), .special m⟩
  split
  · next hexp =>
    subst hexp
    split
    · next hm0 =>
      subst hm0
      exact ⟨_, 0, 0, rfl, join_fields (half_sign_field h) rfl hshift hs (by decide) (by decide), .zero⟩
    · next hm0 =>
      obtain ⟨j, hj, x', hrun, hx', hge, hlt⟩ := @toNat_normalize 10 (-1) _ (hm32.trans_lt hm)
        (by rw [hm32]; exact Nat.le_mul_of_pos_left _ (Nat.pos_of_ne_zero hm0))
      rw [hm32] at hx'
      have hfield : (BitVec.ofInt 32 (127 - 15 - (-1 + 1 + (j : Int))) <<< 23).toNat = (112 - j) * 2 ^ 23 := by
        have hint := BitVec.toNat_ofInt (n := 32) (127 - 15 - (-1 + 1 + (j : Int)))
        rw [BitVec.toNat_shiftLeft, Nat.shiftLeft_eq]
        omega
      have hlow : ((x' &&& 0x3ff#32) <<< 13).toNat = (x'.toNat - 2 ^ 10) * 2 ^ 13 := by
        rw [BitVec.toNat_shiftLeft, Nat.shiftLeft_eq, toNat_field x' 0 10 (by decide)]
        omega
      rw [hrun]
      exact ⟨_, 112 - j, (x'.toNat - 2 ^ 10) * 2 ^ 13, rfl,
        join_fields (half_sign_field h) hfield hlow hs (by omega) (by omega), .denormal hj (by omega)⟩
  · next hne31 hne0 =>
    have hfield : (((BitVec.ofNat 16 e).setWidth 32 - 15#32 + 127#32) <<< 23).toNat = (e + 112) * 2 ^ 23 := by
      rw [BitVec.toNat_shiftLeft, Nat.shiftLeft_eq, BitVec.toNat_add, BitVec.toNat_sub, BitVec.toNat_setWidth,
        BitVec.toNat_ofNat, BitVec.toNat_ofNat, BitVec.toNat_ofNat]
      omega
    exact ⟨_, e + 112, m * 2 ^ 13, rfl, join_fields (half_sign_field h) hfield hshift hs (by omega) (by omega),
      .normal m (Nat.pos_of_ne_zero hne0) (by omega)⟩

end Half

end OpenCRun.HalfFloat
