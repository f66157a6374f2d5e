import OpenCRun.Device.HalfFloat
/-!
# What the half-precision conversions compute

Read on patterns, `FloatToHalf` is right for the normal halves and for some of
the rest, and `HalfToFloat` for all. Read as the language has it, they are
right for almost nothing, but undo each other where they did before.
-/
open Lib.BitFields Lib.FloatPattern

namespace OpenCRun.HalfFloat

/-! ## What they are for -/

/-- The magnitude of a half, in multiples of the least magnitude of a float. Infinity comes after the greatest. -/
def halfMagnitude (b : Nat) : Nat := magnitude 10 b * 2 ^ 125

theorem halfMagnitude_strictMono : StrictMono halfMagnitude :=
  (magnitude_strictMono 10).mul_const (Nat.two_pow_pos 125)

theorem halfMagnitude_succ (b : Nat) : halfMagnitude (b + 1) = halfMagnitude b + 2 ^ (b / 2 ^ 10 - 1) * 2 ^ 125 := by
  rw [halfMagnitude, magnitude_succ, Nat.add_mul]
  rfl

theorem halfMagnitude_normal {x m : Nat} (hx : 0 < x) (hm : m < 2 ^ 10) :
    halfMagnitude (x * 2 ^ 10 + m) = (2 ^ 10 + m) * 2 ^ 13 * 2 ^ (x + 111) := by
  rw [halfMagnitude, magnitude_normal hx hm, Nat.mul_assoc, Nat.mul_assoc, ← pow_add, ← pow_add]
  congr 2
  omega

theorem halfMagnitude_subnormal {m : Nat} (hm : m < 2 ^ 10) : halfMagnitude m = m * 2 ^ 125 := by
  rw [halfMagnitude, magnitude_subnormal hm]

/-- The half is a nearest one, and of the same sign. -/
structure IsHalfOf (f : BitVec 32) (h : BitVec 16) : Prop where
  sign : h.msb = f.msb
  nan : 0x7f800000 < f.toNat % 2 ^ 31 → 0x7c00 < h.toNat % 2 ^ 15
  infinite : f.toNat % 2 ^ 31 = 0x7f800000 → h.toNat % 2 ^ 15 = 0x7c00
  finite : f.toNat % 2 ^ 31 < 0x7f800000 →
    Nearest halfMagnitude 0x7c00 (magnitude 23 (f.toNat % 2 ^ 31)) (h.toNat % 2 ^ 15)

def IsNaN (h : BitVec 16) : Prop := 0x7c00 < h.toNat % 2 ^ 15

instance (h : BitVec 16) : Decidable (IsNaN h) := inferInstanceAs (Decidable (_ < _))

/-- The float has the sign and the value of the half. -/
structure IsFloatOf (h : BitVec 16) (f : BitVec 32) : Prop where
  sign : f.msb = h.msb
  infinite : h.toNat % 2 ^ 15 = 0x7c00 → f.toNat % 2 ^ 31 = 0x7f800000
  finite : h.toNat % 2 ^ 15 < 0x7c00 →
    f.toNat % 2 ^ 31 < 0x7f800000 ∧ magnitude 23 (f.toNat % 2 ^ 31) = halfMagnitude (h.toNat % 2 ^ 15)

/-- `FloatToHalf` returns a nearest half. -/
def ConvertsToHalf (r : Reading) (f : BitVec 32) : Prop := ∃ h, floatToHalf r f = some h ∧ IsHalfOf f h

/-- `HalfToFloat` is exact. -/
def ConvertsToFloat (r : Reading) (h : BitVec 16) : Prop := ∃ f, halfToFloat r h = some f ∧ IsFloatOf h f

def RoundTrips (r : Reading) (h : BitVec 16) : Prop := (halfToFloat r h).bind (floatToHalf r) = some h

/-! ## Patterns -/

section Pattern
variable {f : BitVec 32} {s e m : Nat} (hf : Fields 8 23 f.toNat s e m)
include hf

theorem msb_iff : f.msb = true ↔ s = 1 := by
  obtain ⟨hs, he, hm, heq⟩ := hf
  rw [BitVec.msb_eq_decide, decide_eq_true_iff]
  omega

theorem low_eq : f.toNat % 2 ^ 31 = e * 2 ^ 23 + m := by
  obtain ⟨hs, he, hm, heq⟩ := hf
  omega

end Pattern

/-- By the sign and the rest of the result. -/
theorem isHalfOf_iff {f : BitVec 32} {h : BitVec 16} {s e m b : Nat} {neg : Prop} (hf : Fields 8 23 f.toNat s e m)
    (hneg : h.msb = true ↔ neg) (hb : h.toNat % 2 ^ 15 = b) (he : e < 255) :
    IsHalfOf f h ↔ (neg ↔ s = 1) ∧ Nearest halfMagnitude 0x7c00 (magnitude 23 (e * 2 ^ 23 + m)) b := by
  have hlow := low_eq hf
  have hm := hf.mantissa_lt
  rw [← hlow, ← hb, ← msb_iff hf, ← hneg, ← Bool.eq_iff_iff]
  constructor
  · exact fun h => ⟨h.sign, h.finite (by omega)⟩
  · rintro ⟨hsign, hnear⟩
    exact ⟨hsign, fun hnan => by omega, fun hinf => by omega, fun _ => hnear⟩

/-! ## The result of the code -/

theorem or_sign : ∀ s < 2, ∀ y < 2 ^ 6, s * 2 ^ 5 ||| y = (if s = 1 ∨ 32 ≤ y then 32 else 0) + y % 32 := by decide

theorem leadingBits_lt_of_le {e m : Nat} (hm : m < 2 ^ 23) (he : e ≤ 111) : leadingBits e m < 2 ^ 9 := by
  unfold leadingBits
  rw [if_pos (show e < 113 by omega)]
  split
  · exact Nat.two_pow_pos 9
  · rw [Nat.div_lt_iff_lt_mul (Nat.two_pow_pos _), ← pow_add]
    exact (show 2 ^ 23 + m < 2 ^ 24 by omega).trans_le (Nat.pow_le_pow_right (by decide) (by omega))

/-- The bits below the sign, when the exponent does not overflow. -/
def lowBits (e m : Nat) : Nat := (e + 16) % 32 * 2 ^ 10 + leadingBits e m + (roundUp e m).toNat

/-- Rounding does not carry into the sign. -/
theorem lowBits_lt {e m : Nat} (hm : m < 2 ^ 23) (he : e ≤ 142) : lowBits e m < 2 ^ 15 := by
  have hround := Bool.toNat_le (roundUp e m)
  have hlead := leadingBits_lt hm e
  unfold lowBits
  rcases Nat.lt_or_ge ((e + 16) % 32) 31 with hlt | hge
  · omega
  · have hlead' := leadingBits_lt_of_le hm (show e ≤ 111 by omega)
    omega

/-- Away from the denormal halves. -/
theorem toNat_roundUp {e : Nat} (m : Nat) (he : e < 103 ∨ 113 ≤ e) : (roundUp e m).toNat = m / 2 ^ 12 % 2 := by
  rw [roundUp, decide_eq_false (show ¬ (103 ≤ e ∧ e < 113 ∧ _) by omega), Bool.false_or]
  by_cases hbit : m / 2 ^ 12 % 2 = 1
  · rw [decide_eq_true hbit, hbit, Bool.toNat_true]
  · rw [decide_eq_false hbit, Bool.toNat_false]
    omega

theorem lowBits_underflow {e : Nat} (m : Nat) (he : e < 103) : lowBits e m = (e + 16) % 32 * 2 ^ 10 + m / 2 ^ 12 % 2 := by
  rw [lowBits, toNat_roundUp m (.inl he), leadingBits, if_pos he, Nat.add_zero]

theorem lowBits_normal {e : Nat} (m : Nat) (he : 113 ≤ e) :
    lowBits e m = (e + 16) % 32 * 2 ^ 10 + m / 2 ^ 13 + m / 2 ^ 12 % 2 := by
  rw [lowBits, toNat_roundUp m (.inr he), leadingBits, if_neg (by omega), if_neg (by omega)]

section Pattern
variable {f : BitVec 32} {s e m : Nat} (hf : Fields 8 23 f.toNat s e m)
include hf

theorem roundToHalf_eq (he : e ≤ 142) :
    (roundToHalf f).toNat = (if s = 1 ∨ 32 ≤ (e + 16) % 64 then 2 ^ 15 else 0) + lowBits e m := by
  have hlow := lowBits_lt hf.mantissa_lt he
  rw [roundToHalf_toNat hf he, or_sign s hf.sign_lt ((e + 16) % 64) (Nat.mod_lt _ (by decide)),
    Nat.mod_mod_of_dvd _ (show 32 ∣ 64 by decide)]
  unfold lowBits at hlow ⊢
  split <;> omega

theorem msb_roundToHalf (he : e ≤ 142) : (roundToHalf f).msb = true ↔ s = 1 ∨ 32 ≤ (e + 16) % 64 := by
  have hlow := lowBits_lt hf.mantissa_lt he
  rw [BitVec.msb_eq_decide, decide_eq_true_iff, roundToHalf_eq hf he]
  split <;> omega

theorem low_roundToHalf (he : e ≤ 142) : (roundToHalf f).toNat % 2 ^ 15 = lowBits e m := by
  have hlow := lowBits_lt hf.mantissa_lt he
  rw [roundToHalf_eq hf he]
  split <;> omega

theorem msb_overflow (he : 143 ≤ e) : (roundToHalf f).msb = true ↔ s = 1 := by
  have hs := hf.sign_lt
  rw [BitVec.msb_eq_decide, decide_eq_true_iff, roundToHalf_overflow hf he]
  split <;> omega

theorem low_overflow (he : 143 ≤ e) : (roundToHalf f).toNat % 2 ^ 15 = 0x7c00 + if m = 0 then 0 else 2 ^ 9 := by
  have hs := hf.sign_lt
  rw [roundToHalf_overflow hf he]
  split <;> omega

end Pattern

/-! ## The pattern of the float -/

/-- The patterns that are converted as they should be. -/
def PatternOk (f : BitVec 32) : Prop :=
  let e := f.toNat / 2 ^ 23 % 2 ^ 8
  let m := f.toNat % 2 ^ 23
  (113 ≤ e ∧ e ≤ 142) ∨ e = 255 ∨ (143 ≤ e ∧ m = 0) ∨ (e = 112 ∧ (m / 2 ^ 13 % 2 = 1 ∨ m / 2 ^ 12 % 2 = 0)) ∨
    (m / 2 ^ 12 % 2 = 0 ∧ (e = 48 ∨ (f.msb ∧ (e = 16 ∨ e = 80))))

section Pattern
variable {f : BitVec 32} {s e m : Nat} (hf : Fields 8 23 f.toNat s e m)
include hf

/-- From infinity on. -/
theorem isHalfOf_overflow (he : 143 ≤ e) : IsHalfOf f (roundToHalf f) ↔ e = 255 ∨ m = 0 := by
  have hlow := low_overflow hf he
  have hm := hf.mantissa_lt
  have hlt := hf.exponent_lt
  rcases Nat.lt_or_ge e 255 with hfin | hspecial
  · have hgreatest : halfMagnitude 0x7c00 ≤ magnitude 23 (e * 2 ^ 23 + m) := by
      have hmono := (magnitude_strictMono 23).monotone (show 143 * 2 ^ 23 ≤ e * 2 ^ 23 + m by omega)
      exact le_trans (by decide) hmono
    rw [isHalfOf_iff hf (msb_overflow hf he) hlow hfin, nearest_of_greatest_le halfMagnitude_strictMono hgreatest]
    split <;> omega
  · obtain rfl : e = 255 := by omega
    refine iff_of_true ⟨?_, fun hnan => ?_, fun hinf => ?_, fun hfin => ?_⟩ (.inl rfl)
    · rw [Bool.eq_iff_iff, msb_overflow hf he, msb_iff hf]
    all_goals rw [low_eq hf] at *
    · rw [hlow, if_neg (by omega)]
      omega
    · rw [hlow, if_pos (by omega)]
    · omega

/-- The normal halves, and infinity by a carry. -/
theorem isHalfOf_normal (he : 113 ≤ e) (he' : e ≤ 142) : IsHalfOf f (roundToHalf f) := by
  have hm := hf.mantissa_lt
  have hs := hf.sign_lt
  have hq : m / 2 ^ 13 < 2 ^ 10 := by omega
  rw [isHalfOf_iff hf (msb_roundToHalf hf he') (low_roundToHalf hf he') (by omega)]
  refine ⟨by omega, ?_⟩
  obtain ⟨x, rfl⟩ : ∃ x, e = x + 112 := ⟨e - 112, by omega⟩
  have hvalue : magnitude 23 ((x + 112) * 2 ^ 23 + m) =
      halfMagnitude (x * 2 ^ 10 + m / 2 ^ 13) + m % 2 ^ 13 * 2 ^ (x + 111) := by
    rw [magnitude_normal (by omega) hm, halfMagnitude_normal (by omega) hq, ← Nat.add_mul]
    congr 1
    omega
  have hstep : halfMagnitude (x * 2 ^ 10 + m / 2 ^ 13 + 1) =
      halfMagnitude (x * 2 ^ 10 + m / 2 ^ 13) + 2 * 2 ^ 12 * 2 ^ (x + 111) := by
    rw [halfMagnitude_succ, show (x * 2 ^ 10 + m / 2 ^ 13) / 2 ^ 10 = x by omega, ← pow_succ', ← pow_add, ← pow_add]
    congr 2
    omega
  rw [hvalue, nearest_step_iff halfMagnitude_strictMono (by omega) (Nat.two_pow_pos _) (by omega) hstep]
  rw [lowBits_normal m he]
  omega

/-- The greatest denormal halves. The bit below the last one of a normal half rounds too. -/
theorem isHalfOf_denormal (he : e = 112) : IsHalfOf f (roundToHalf f) ↔ m / 2 ^ 13 % 2 = 1 ∨ m / 2 ^ 12 % 2 = 0 := by
  subst he
  have hm := hf.mantissa_lt
  have hs := hf.sign_lt
  have hq : (2 ^ 23 + m) / 2 ^ 14 < 2 ^ 10 := by omega
  rw [isHalfOf_iff hf (msb_roundToHalf hf (by decide)) (low_roundToHalf hf (by decide)) (by decide), and_iff_right (by omega)]
  have hvalue : magnitude 23 (112 * 2 ^ 23 + m) =
      halfMagnitude ((2 ^ 23 + m) / 2 ^ 14) + (2 ^ 23 + m) % 2 ^ 14 * 2 ^ 111 := by
    rw [magnitude_normal (by decide) hm, halfMagnitude_subnormal hq]
    omega
  have hstep : halfMagnitude ((2 ^ 23 + m) / 2 ^ 14 + 1) = halfMagnitude ((2 ^ 23 + m) / 2 ^ 14) + 2 * 2 ^ 13 * 2 ^ 111 := by
    rw [halfMagnitude_succ, Nat.div_eq_of_lt hq]
    rfl
  rw [hvalue, nearest_step_iff halfMagnitude_strictMono (by omega) (Nat.two_pow_pos _) (by omega) hstep]
  have hlost : (2 ^ 23 + m) / 2 ^ (125 - 112) % 2 = 1 ↔ m / 2 ^ 13 % 2 = 1 := by omega
  have hround : (roundUp 112 m).toNat = if m / 2 ^ 13 % 2 = 1 ∨ m / 2 ^ 12 % 2 = 1 then 1 else 0 := by
    rw [roundUp, ← Bool.decide_or]
    by_cases hbit : m / 2 ^ 13 % 2 = 1 ∨ m / 2 ^ 12 % 2 = 1
    · rw [if_pos hbit, decide_eq_true (hbit.imp_left fun h => ⟨by decide, by decide, hlost.2 h⟩), Bool.toNat_true]
    · rw [if_neg hbit, decide_eq_false fun h => hbit (h.imp_left fun h => hlost.1 h.2.2), Bool.toNat_false]
  rw [lowBits, hround, leadingBits, if_neg (by decide), if_pos (by decide)]
  split <;> omega

/-- Below the halves that the code gets to. -/
theorem isHalfOf_small (he : e ≤ 111) :
    IsHalfOf f (roundToHalf f) ↔ m / 2 ^ 12 % 2 = 0 ∧ (e = 48 ∨ (s = 1 ∧ (e = 16 ∨ e = 80))) := by
  have hm := hf.mantissa_lt
  rw [isHalfOf_iff hf (msb_roundToHalf hf (by omega)) (low_roundToHalf hf (by omega)) (by omega)]
  have hzero : e ≤ 80 → (Nearest halfMagnitude 0x7c00 (magnitude 23 (e * 2 ^ 23 + m)) (lowBits e m) ↔ lowBits e m = 0) := by
    intro he80
    have htiny : magnitude 23 (e * 2 ^ 23 + m) < 2 ^ 124 :=
      ((magnitude_strictMono 23) (show e * 2 ^ 23 + m < 81 * 2 ^ 23 by omega)).trans (by decide)
    have hvalue : magnitude 23 (e * 2 ^ 23 + m) = halfMagnitude 0 + magnitude 23 (e * 2 ^ 23 + m) * 1 := by
      rw [halfMagnitude_subnormal (by decide), Nat.zero_mul, Nat.zero_add, Nat.mul_one]
    rw [hvalue, nearest_step_iff halfMagnitude_strictMono (by decide) Nat.one_pos (htiny.trans (by decide))
      (show halfMagnitude (0 + 1) = halfMagnitude 0 + 2 * 2 ^ 124 * 1 by decide)]
    omega
  constructor
  · rintro ⟨hsign, hnear⟩
    -- what is below 2 ^ -15 is not nearest to a half with bits in the exponent above
    have hbound : lowBits e m ≤ 2 ^ 9 := by
      apply hnear.le_of_le halfMagnitude_strictMono (by decide)
      exact ((magnitude_strictMono 23).monotone (show e * 2 ^ 23 + m ≤ 112 * 2 ^ 23 by omega)).trans (by decide)
    have hexp : (e + 16) % 32 = 0 := by
      unfold lowBits at hbound
      omega
    have he80 : e ≤ 80 := by omega
    have hbits := lowBits_underflow m (show e < 103 by omega)
    rw [hzero he80] at hnear
    omega
  · rintro ⟨hbit, hcases⟩
    have he80 : e ≤ 80 := by omega
    have hbits := lowBits_underflow m (show e < 103 by omega)
    rw [hzero he80]
    omega

end Pattern

theorem isHalfOf_roundToHalf_iff (f : BitVec 32) : IsHalfOf f (roundToHalf f) ↔ PatternOk f := by
  obtain ⟨s, e, m, hf⟩ := @exists_fields 8 23 f.toNat f.isLt
  have hexp : f.toNat / 2 ^ 23 % 2 ^ 8 = e := by
    obtain ⟨hs, he, hm, heq⟩ := hf
    omega
  have hmant : f.toNat % 2 ^ 23 = m := by
    obtain ⟨hs, he, hm, heq⟩ := hf
    omega
  have he := hf.exponent_lt
  unfold PatternOk
  simp only [hexp, hmant, msb_iff hf]
  rcases Nat.lt_or_ge e 112 with hsmall | hge
  · rw [isHalfOf_small hf (by omega)]
    omega
  rcases Nat.lt_or_ge 112 e with hgt | hle
  · rcases Nat.lt_or_ge e 143 with hnormal | hover
    · exact iff_of_true (isHalfOf_normal hf hgt (by omega)) (by omega)
    · rw [isHalfOf_overflow hf hover]
      omega
  · rw [isHalfOf_denormal hf (by omega)]
    omega

theorem converts_pattern_iff (f : BitVec 32) : ConvertsToHalf .pattern f ↔ PatternOk f := by
  rw [← isHalfOf_roundToHalf_iff]
  simp only [ConvertsToHalf, floatToHalf, Reading.toUint, Option.map_some, Option.some.injEq, exists_eq_left']

/-! ## The number of the float -/

/-- The floats whose truncated number, taken as a pattern, is converted to what the float should be. -/
def ValueOk (f : BitVec 32) : Prop :=
  let n := wholePart 23 127 f.toNat
  f.toNat < 0x7f800000 ∧
    ((0x3ffff000 ≤ f.toNat ∧ f.toNat ≤ 0x40001000) ∨
      (n < 2 ^ 31 ∧
        ((n / 2 ^ 12 % 2 = 0 ∧ (n / 2 ^ 23 = 15 ∨ n / 2 ^ 23 = 79)) ∨
          (142 * 2 ^ 23 + 0x7ff000 ≤ n ∧ n ≤ 143 * 2 ^ 23) ∨ (143 * 2 ^ 23 ≤ n ∧ n % 2 ^ 23 = 0))))

theorem floatToUint_eq_some_iff (f n : BitVec 32) :
    floatToUint f = some n ↔ f.toNat % 2 ^ 31 < 0x7f800000 ∧ (f.msb = true → n.toNat = 0) ∧
      wholePart 23 127 (f.toNat % 2 ^ 31) = n.toNat := by
  unfold floatToUint
  dsimp only
  split
  · next h => exact iff_of_false (Option.some_ne_none n).symm fun h' => absurd h'.1 (not_lt.2 h)
  split
  · next h =>
    refine iff_of_false (Option.some_ne_none n).symm ?_
    rintro ⟨-, hneg, hn⟩
    exact h.2 (hn.trans (hneg h.1))
  split
  · next h =>
    refine iff_of_false (Option.some_ne_none n).symm ?_
    rintro ⟨-, -, hn⟩
    exact absurd n.isLt (not_lt.2 (hn ▸ h))
  · next hfin hneg hlt =>
    rw [Option.some.injEq, ← BitVec.toNat_inj, BitVec.toNat_ofNat, Nat.mod_eq_of_lt (not_le.1 hlt)]
    constructor
    · intro hn
      refine ⟨not_le.1 hfin, fun hmsb => ?_, hn⟩
      rw [← hn]
      by_contra hne
      exact hneg ⟨hmsb, hne⟩
    · exact fun h => h.2.2

/-- Where the result is infinity. -/
theorem roundToHalf_infinite_iff {n : BitVec 32} {s e m : Nat} (hn : Fields 8 23 n.toNat s e m) :
    (roundToHalf n).msb = false ∧ (roundToHalf n).toNat % 2 ^ 15 = 0x7c00 ↔
      s = 0 ∧ ((m / 2 ^ 12 % 2 = 0 ∧ (e = 15 ∨ e = 79)) ∨ (e = 142 ∧ 0x7ff000 ≤ m) ∨ (143 ≤ e ∧ m = 0)) := by
  have hs := hn.sign_lt
  have hm := hn.mantissa_lt
  rw [← Bool.not_eq_true]
  rcases Nat.lt_or_ge e 143 with hlt | hover
  · rw [msb_roundToHalf hn (by omega), low_roundToHalf hn (by omega)]
    rcases Nat.lt_or_ge e 103 with hunder | hge
    · rw [lowBits_underflow m hunder]
      omega
    rcases Nat.lt_or_ge e 113 with hdenormal | hnormal
    · have hround := Bool.toNat_le (roundUp e m)
      have hlead := leadingBits_lt hm e
      unfold lowBits
      omega
    · have hfield : (e + 16) % 32 = e - 112 := by omega
      have hsign : (e + 16) % 64 < 32 := by omega
      have hcarry : m / 2 ^ 13 + m / 2 ^ 12 % 2 ≤ 2 ^ 10 := by omega
      have hfull : m / 2 ^ 13 + m / 2 ^ 12 % 2 = 2 ^ 10 ↔ 0x7ff000 ≤ m := by omega
      rw [lowBits_normal m hnormal, hfield]
      omega
  · rw [msb_overflow hn hover, low_overflow hn hover]
    split <;> omega

/-- About two, which the code returns for every small number. -/
theorem nearest_two_iff (a : Nat) :
    Nearest halfMagnitude 0x7c00 (magnitude 23 a) 0x4000 ↔ 0x3ffff000 ≤ a ∧ a ≤ 0x40001000 := by
  have hprev : halfMagnitude (0x4000 - 1) + halfMagnitude 0x4000 = 2 * magnitude 23 0x3ffff000 := by decide
  have hnext : halfMagnitude 0x4000 + halfMagnitude (0x4000 + 1) = 2 * magnitude 23 0x40001000 := by decide
  have hlo : magnitude 23 0x3ffff000 ≤ magnitude 23 a ↔ 0x3ffff000 ≤ a := (magnitude_strictMono 23).le_iff_le
  have hhi : magnitude 23 a ≤ magnitude 23 0x40001000 ↔ a ≤ 0x40001000 := (magnitude_strictMono 23).le_iff_le
  rw [nearest_iff halfMagnitude_strictMono, hprev, hnext]
  omega

theorem wholePart_le_two {a : Nat} (h : a ≤ 0x40001000) : wholePart 23 127 a ≤ 2 :=
  (Nat.div_le_div_right ((magnitude_strictMono 23).monotone h)).trans (by decide)

/-- A float whose number has an exponent of zero as a pattern. -/
theorem nearest_underflow_iff {a : Nat} (h : wholePart 23 127 a < 2 ^ 23) :
    Nearest halfMagnitude 0x7c00 (magnitude 23 a) (lowBits 0 (wholePart 23 127 a)) ↔ 0x3ffff000 ≤ a ∧ a ≤ 0x40001000 := by
  rw [lowBits_underflow _ (by decide), ← nearest_two_iff]
  rcases Nat.mod_two_eq_zero_or_one (wholePart 23 127 a / 2 ^ 12) with hbit | hbit
  · rw [hbit]
    exact Iff.rfl
  · rw [hbit]
    have hwhole : 2 ^ 12 ≤ wholePart 23 127 a := by omega
    have hlarge : 2 ^ 12 * 2 ^ 149 ≤ magnitude 23 a := by
      rw [← Nat.le_div_iff_mul_le (Nat.two_pow_pos _)]
      exact hwhole
    refine iff_of_false (fun hnear => ?_) fun hnear => ?_
    · have hle := ((nearest_iff halfMagnitude_strictMono _ _ _).1 hnear).2.2 (by decide)
      have hbound : halfMagnitude ((0 + 16) % 32 * 2 ^ 10 + 1) + halfMagnitude ((0 + 16) % 32 * 2 ^ 10 + 1 + 1) <
          2 * (2 ^ 12 * 2 ^ 149) := by decide
      exact absurd (hle.trans_lt hbound) (not_lt.2 (Nat.mul_le_mul_left 2 hlarge))
    · have hle := wholePart_le_two ((nearest_two_iff a).1 hnear).2
      exact absurd (hwhole.trans hle) (by decide)

/-- The truncated number of a positive float, as a pattern. -/
theorem isHalfOf_truncated_iff {f n : BitVec 32} (hfin : f.toNat < 0x7f800000) (hn : wholePart 23 127 f.toNat = n.toNat) :
    IsHalfOf f (roundToHalf n) ↔ ValueOk f := by
  have hmsb := BitVec.msb_eq_decide f
  rw [decide_eq_false (by omega)] at hmsb
  have hpositive : IsHalfOf f (roundToHalf n) ↔ (roundToHalf n).msb = false ∧
      Nearest halfMagnitude 0x7c00 (magnitude 23 f.toNat) ((roundToHalf n).toNat % 2 ^ 15) := by
    have hmod : f.toNat % 2 ^ 31 = f.toNat := Nat.mod_eq_of_lt (by omega)
    constructor
    · exact fun h => ⟨h.sign.trans hmsb, hmod ▸ h.finite (by omega)⟩
    · rintro ⟨hsign, hnear⟩
      exact ⟨hsign.trans hmsb.symm, fun hnan => by omega, fun hinf => by omega, fun _ => hmod.symm ▸ hnear⟩
  obtain ⟨s, e, m, hfields⟩ := @exists_fields 8 23 n.toNat n.isLt
  have hs := hfields.sign_lt
  have he := hfields.exponent_lt
  have hm := hfields.mantissa_lt
  have heq := hfields.eq
  have htwo : f.toNat ≤ 0x40001000 → n.toNat ≤ 2 := fun hle => hn ▸ wholePart_le_two hle
  unfold ValueOk
  dsimp only
  rw [hpositive, hn, and_iff_right hfin]
  rcases Nat.lt_or_ge n.toNat (2 ^ 23) with hsmall | hlarge
  · obtain ⟨rfl, rfl, rfl⟩ : s = 0 ∧ e = 0 ∧ m = n.toNat := by omega
    rw [← Bool.not_eq_true, msb_roundToHalf hfields (by decide), low_roundToHalf hfields (by decide), ← hn,
      nearest_underflow_iff (hn ▸ hsmall)]
    omega
  · have hgreatest : halfMagnitude 0x7c00 ≤ magnitude 23 f.toNat := by
      have hle : 2 ^ 23 * 2 ^ 149 ≤ magnitude 23 f.toNat := by
        rw [← Nat.le_div_iff_mul_le (Nat.two_pow_pos _)]
        show 2 ^ 23 ≤ wholePart 23 127 f.toNat
        omega
      exact le_trans (by decide) hle
    rw [nearest_of_greatest_le halfMagnitude_strictMono hgreatest, roundToHalf_infinite_iff hfields]
    omega

theorem converts_value_iff (f : BitVec 32) : ConvertsToHalf .value f ↔ ValueOk f := by
  have hconverts : ConvertsToHalf .value f ↔ ∃ n, floatToUint f = some n ∧ IsHalfOf f (roundToHalf n) := by
    simp only [ConvertsToHalf, floatToHalf, Reading.toUint, Option.map_eq_some_iff]
    exact ⟨fun ⟨_, ⟨n, hn, hg⟩, h⟩ => ⟨n, hn, hg ▸ h⟩, fun ⟨n, hn, h⟩ => ⟨_, ⟨n, hn, rfl⟩, h⟩⟩
  have hmsb := BitVec.msb_eq_decide f
  simp only [hconverts, floatToUint_eq_some_iff]
  constructor
  · rintro ⟨n, ⟨hfin, hneg, hn⟩, hhalf⟩
    cases hsign : f.msb with
    | true =>
      obtain rfl : n = 0#32 := BitVec.eq_of_toNat_eq (hneg hsign)
      have hhalfSign := hhalf.sign
      rw [hsign] at hhalfSign
      exact absurd hhalfSign (by decide)
    | false =>
      rw [hsign] at hmsb
      have hlt : f.toNat < 2 ^ 31 := by simpa using hmsb.symm
      rw [Nat.mod_eq_of_lt hlt] at hfin hn
      exact (isHalfOf_truncated_iff hfin hn).1 hhalf
  · intro hok
    have hfin := hok.1
    have hlt : wholePart 23 127 f.toNat < 2 ^ 32 := by
      rcases hok.2 with hnear | hlarge
      · exact (wholePart_le_two hnear.2).trans_lt (by decide)
      · omega
    have hn : wholePart 23 127 f.toNat = (BitVec.ofNat 32 (wholePart 23 127 f.toNat)).toNat := by
      rw [BitVec.toNat_ofNat, Nat.mod_eq_of_lt hlt]
    rw [decide_eq_false (by omega)] at hmsb
    refine ⟨_, ⟨?_, ?_, ?_⟩, (isHalfOf_truncated_iff hfin hn).2 hok⟩
    · omega
    · rw [hmsb]
      exact fun hfalse => (Bool.false_ne_true hfalse).elim
    · rw [Nat.mod_eq_of_lt (by omega)]
      exact hn

/-! ## The pattern of a half -/

section Widened
variable {e m e' m' : Nat} (hw : Widened e m e' m')
include hw

theorem Widened.infinite (hm : m < 2 ^ 10) (h : e * 2 ^ 10 + m = 0x7c00) : e' * 2 ^ 23 + m' = 0x7f800000 := by
  cases hw with
  | special => omega
  | zero => exact absurd h (by decide)
  | normal => exact absurd h (by omega)
  | denormal => exact absurd h (by omega)

theorem Widened.finite (hm' : m' < 2 ^ 23) (h : e * 2 ^ 10 + m < 0x7c00) : e' * 2 ^ 23 + m' < 0x7f800000 := by
  have hexp : e' < 255 := by
    cases hw with
    | special => omega
    | zero => decide
    | normal hpos hlt => omega
    | denormal hj heq => omega
  clear hw h
  omega

end Widened

section Half
variable {h : BitVec 16} {s e m : Nat} (hh : Fields 5 10 h.toNat s e m)
include hh

theorem half_msb_iff : h.msb = true ↔ s = 1 := by
  obtain ⟨hs, he, hm, heq⟩ := hh
  rw [BitVec.msb_eq_decide, decide_eq_true_iff]
  omega

theorem half_low_eq : h.toNat % 2 ^ 15 = e * 2 ^ 10 + m := by
  obtain ⟨hs, he, hm, heq⟩ := hh
  omega

/-- The wider pattern has the same value. -/
theorem magnitude_widened {e' m' : Nat} (hw : Widened e m e' m') (hm' : m' < 2 ^ 23) (hfin : e < 31) :
    magnitude 23 (e' * 2 ^ 23 + m') = halfMagnitude (e * 2 ^ 10 + m) := by
  have hm := hh.mantissa_lt
  cases hw with
  | special => omega
  | zero => decide
  | normal m hpos hlt =>
    rw [magnitude_normal (by omega) hm', halfMagnitude_normal hpos hm]
    congr 1
    omega
  | @denormal j m m' hj heq =>
    rw [magnitude_normal (by omega) hm', Nat.zero_mul, Nat.zero_add, halfMagnitude_subnormal hm, heq, Nat.mul_assoc,
      Nat.mul_assoc, ← pow_add, ← pow_add]
    congr 2
    omega

theorem isFloatOf_widened {w : BitVec 32} {e' m' : Nat} (hf : Fields 8 23 w.toNat s e' m') (hw : Widened e m e' m') :
    IsFloatOf h w := by
  have hlow := half_low_eq hh
  have hm := hh.mantissa_lt
  have hm' := hf.mantissa_lt
  refine ⟨?_, fun hinf => ?_, fun hfin => ?_⟩
  · rw [Bool.eq_iff_iff, msb_iff hf, half_msb_iff hh]
  · rw [hlow] at hinf
    rw [low_eq hf]
    exact hw.infinite hm hinf
  · rw [hlow] at hfin
    rw [low_eq hf, hlow]
    exact ⟨hw.finite hm' hfin, magnitude_widened hh hw hm' (by omega)⟩

end Half

theorem Widened.low_zero {e m e' m' : Nat} (hw : Widened e m e' m') : m' % 2 ^ 13 = 0 := by
  cases hw with
  | special => omega
  | zero => rfl
  | normal => omega
  | denormal hj heq =>
    generalize m * _ = k at heq
    omega

/-- An exact value has one nearest half. -/
theorem isHalfOf_iff_eq {h g : BitVec 16} {f : BitVec 32} (hnan : ¬ IsNaN h) (hexact : IsFloatOf h f) :
    IsHalfOf f g ↔ g = h := by
  have hlow : IsHalfOf f g ↔ g.msb = h.msb ∧ g.toNat % 2 ^ 15 = h.toNat % 2 ^ 15 := by
    rw [← hexact.sign]
    rcases Nat.lt_or_eq_of_le (not_lt.1 hnan) with hfin | hinf
    · obtain ⟨hfin', hvalue⟩ := hexact.finite hfin
      rw [← nearest_exact_iff halfMagnitude_strictMono (not_lt.1 hnan), ← hvalue]
      exact ⟨fun hg => ⟨hg.sign, hg.finite hfin'⟩,
        fun hg => ⟨hg.1, fun _ => by omega, fun _ => by omega, fun _ => hg.2⟩⟩
    · have hinf' := hexact.infinite hinf
      rw [hinf]
      exact ⟨fun hg => ⟨hg.sign, hg.infinite hinf'⟩,
        fun hg => ⟨hg.1, fun _ => by omega, fun _ => hg.2, fun _ => by omega⟩⟩
  rw [hlow]
  constructor
  · rintro ⟨hsign, hrest⟩
    have hg := BitVec.msb_eq_decide g
    have hh := BitVec.msb_eq_decide h
    rw [hsign, hh, decide_eq_decide] at hg
    apply BitVec.eq_of_toNat_eq
    omega
  · rintro rfl
    exact ⟨rfl, rfl⟩

theorem patternOk_widened_iff {h : BitVec 16} {w : BitVec 32} {s e m e' m' : Nat} (hh : Fields 5 10 h.toNat s e m)
    (hf : Fields 8 23 w.toNat s e' m') (hw : Widened e m e' m') : PatternOk w ↔ 2 ^ 9 ≤ h.toNat % 2 ^ 15 := by
  have hm := hh.mantissa_lt
  have hexp : w.toNat / 2 ^ 23 % 2 ^ 8 = e' := by
    obtain ⟨hs, he, hm, heq⟩ := hf
    omega
  have hmant : w.toNat % 2 ^ 23 = m' := by
    obtain ⟨hs, he, hm, heq⟩ := hf
    omega
  have hlow := hw.low_zero
  have hbit : m' / 2 ^ 12 % 2 = 0 := by omega
  unfold PatternOk
  dsimp only
  rw [hexp, hmant, half_low_eq hh, and_iff_right hbit]
  cases hw with
  | special => omega
  | zero => omega
  | normal => omega
  | @denormal j m m' hj heq =>
    have hm' := hf.mantissa_lt
    rcases Nat.eq_zero_or_pos j with rfl | hpos
    · have hge : 2 ^ 9 ≤ m := by
        apply Nat.le_of_mul_le_mul_right _ (show 0 < 2 ^ (0 + 1) * 2 ^ 13 by decide)
        rw [← Nat.mul_assoc m, ← heq]
        exact Nat.le_add_right (2 ^ 23) m'
      exact iff_of_true (.inr (.inr (.inr (.inl ⟨rfl, .inr hbit⟩)))) (by omega)
    · have hle : m * 4 ≤ m * 2 ^ (j + 1) := Nat.mul_le_mul_left m (Nat.pow_le_pow_right Nat.two_pos (show 2 ≤ j + 1 by omega))
      obtain ⟨k, hk⟩ : ∃ k, k = m * 2 ^ (j + 1) := ⟨_, rfl⟩
      rw [← hk] at heq hle
      omega

/-! ## The number of a half -/

/-- The pattern of a half, widened, is a number that a float holds. -/
theorem magnitude_uintToFloat {w : BitVec 32} (hw : w.toNat % 2 ^ 13 = 0) :
    (uintToFloat w).toNat < 159 * 2 ^ 23 ∧ magnitude 23 (uintToFloat w).toNat = w.toNat * 2 ^ 149 := by
  have hvalue : magnitude 23 (ofNat 23 127 w.toNat) = w.toNat * 2 ^ 149 := by
    apply magnitude_ofNat (by decide)
    intro hne
    have hlog : w.toNat.log2 < 32 := (Nat.log2_lt hne).2 w.isLt
    obtain ⟨q, hq⟩ := Nat.dvd_of_mod_eq_zero hw
    have hmul : w.toNat * 2 ^ 23 = 2 ^ 36 * q := by rw [hq]; ring
    rw [hmul]
    exact (pow_dvd_pow 2 (by omega)).mul_right q
  have hlt : ofNat 23 127 w.toNat < 159 * 2 ^ 23 := by
    rw [← (magnitude_strictMono 23).lt_iff_lt, hvalue]
    calc w.toNat * 2 ^ 149 < 2 ^ 32 * 2 ^ 149 := Nat.mul_lt_mul_of_pos_right w.isLt (Nat.two_pow_pos _)
      _ = magnitude 23 (159 * 2 ^ 23) := by decide
  have hnat : (uintToFloat w).toNat = ofNat 23 127 w.toNat := by
    rw [uintToFloat, BitVec.toNat_ofNat, Nat.mod_eq_of_lt (hlt.trans (by decide))]
  rw [hnat]
  exact ⟨hlt, hvalue⟩

theorem floatToUint_uintToFloat {w : BitVec 32} (hw : w.toNat % 2 ^ 13 = 0) : floatToUint (uintToFloat w) = some w := by
  obtain ⟨hlt, hvalue⟩ := magnitude_uintToFloat hw
  have hmsb := BitVec.msb_eq_decide (uintToFloat w)
  rw [decide_eq_false (by omega)] at hmsb
  rw [floatToUint_eq_some_iff, Nat.mod_eq_of_lt (by omega), wholePart, hvalue]
  refine ⟨by omega, fun h => ?_, Nat.mul_div_cancel _ (Nat.two_pow_pos _)⟩
  rw [hmsb] at h
  exact (Bool.false_ne_true h).elim

/-- A half and its wider pattern. -/
structure WidensTo (h : BitVec 16) (w : BitVec 32) : Prop where
  eq : widen h = some w
  exact : IsFloatOf h w
  ok_iff : PatternOk w ↔ 2 ^ 9 ≤ h.toNat % 2 ^ 15
  low_zero : w.toNat % 2 ^ 13 = 0
  zero_of_small : w.toNat < 2 ^ 16 → h = 0#16

theorem exists_widensTo (h : BitVec 16) : ∃ w, WidensTo h w := by
  obtain ⟨s, e, m, hh⟩ := @exists_fields 5 10 h.toNat h.isLt
  obtain ⟨w, e', m', hwiden, hf, hw⟩ := widen_fields hh
  have heq := hf.eq
  have hlow := hw.low_zero
  refine ⟨w, hwiden, isFloatOf_widened hh hf hw, patternOk_widened_iff hh hf hw, by omega, fun hsmall => ?_⟩
  have hzero : s = 0 ∧ e' = 0 := by omega
  have hhalf := hh.eq
  apply BitVec.eq_of_toNat_eq
  rw [hhalf, hzero.1]
  cases hw with
  | special => exact absurd hzero.2 (by decide)
  | zero => rfl
  | normal => omega
  | denormal hj => omega

section Widens
variable {h : BitVec 16} {w : BitVec 32} (hw : WidensTo h w)
include hw

/-- The code gets back at the pattern. -/
theorem WidensTo.toUint (r : Reading) : r.toUint (r.toFloat w) = some w := by
  cases r with
  | value => exact floatToUint_uintToFloat hw.low_zero
  | pattern => rfl

theorem WidensTo.halfToFloat (r : Reading) : halfToFloat r h = some (r.toFloat w) := by
  rw [HalfFloat.halfToFloat, hw.eq, Option.bind_some, hw.toUint, Option.map_some]

end Widens

theorem roundTrips_iff (r : Reading) {h : BitVec 16} (hnan : ¬ IsNaN h) : RoundTrips r h ↔ 2 ^ 9 ≤ h.toNat % 2 ^ 15 := by
  obtain ⟨w, hw⟩ := exists_widensTo h
  rw [← hw.ok_iff, ← isHalfOf_roundToHalf_iff, isHalfOf_iff_eq hnan hw.exact, RoundTrips, hw.halfToFloat, Option.bind_some,
    floatToHalf, hw.toUint, Option.map_some, Option.some.injEq]

theorem convertsToFloat_pattern (h : BitVec 16) : ConvertsToFloat .pattern h := by
  obtain ⟨w, hw⟩ := exists_widensTo h
  exact ⟨w, hw.halfToFloat .pattern, hw.exact⟩

theorem convertsToFloat_value_iff {h : BitVec 16} (hnan : ¬ IsNaN h) : ConvertsToFloat .value h ↔ h = 0#16 := by
  constructor
  · rintro ⟨f, hf, hexact⟩
    obtain ⟨w, hw⟩ := exists_widensTo h
    obtain ⟨hlt, hvalue⟩ := magnitude_uintToFloat hw.low_zero
    obtain rfl : uintToFloat w = f := Option.some.inj ((hw.halfToFloat .value).symm.trans hf)
    apply hw.zero_of_small
    rcases Nat.lt_or_eq_of_le (not_lt.1 hnan) with hfin | hinf
    · obtain ⟨-, heq⟩ := hexact.finite hfin
      have hbound := halfMagnitude_strictMono hfin
      have hgreatest : halfMagnitude 0x7c00 = 2 ^ 16 * 2 ^ 149 := by decide
      rw [Nat.mod_eq_of_lt (by omega), hvalue] at heq
      rw [← heq, hgreatest] at hbound
      exact Nat.lt_of_mul_lt_mul_right hbound
    · have hinf' := hexact.infinite hinf
      omega
  · rintro rfl
    exact ⟨0#32, by decide, by decide, by decide, fun _ => by decide⟩

/-! ## Both readings -/

/-- Read on patterns, `FloatToHalf` misses the tiny and the overflowing numbers, and with them the
small denormal halves. Read on numbers, it and `HalfToFloat` miss nearly all. -/
theorem half_conversion_iff (f : BitVec 32) (h : BitVec 16) :
    (ConvertsToHalf .pattern f ↔ PatternOk f) ∧ (ConvertsToHalf .value f ↔ ValueOk f) ∧
      (¬ IsNaN h → ConvertsToFloat .pattern h ∧ (RoundTrips .pattern h ↔ 2 ^ 9 ≤ h.toNat % 2 ^ 15) ∧
        (ConvertsToFloat .value h ↔ h = 0#16) ∧ (RoundTrips .value h ↔ 2 ^ 9 ≤ h.toNat % 2 ^ 15)) :=
  ⟨converts_pattern_iff f, converts_value_iff f, fun hnan => ⟨convertsToFloat_pattern h, roundTrips_iff .pattern hnan,
    convertsToFloat_value_iff hnan, roundTrips_iff .value hnan⟩⟩

/-- Zero becomes two, whichever way the code is read. -/
theorem half_conversion_zero :
    floatToHalf .pattern 0#32 = some 0x4000#16 ∧ ¬ ConvertsToHalf .pattern 0#32 ∧ ¬ RoundTrips .pattern 0#16 ∧
      floatToHalf .value 0#32 = some 0x4000#16 ∧ ¬ ConvertsToHalf .value 0#32 ∧ ¬ RoundTrips .value 0#16 := by
  have hzero (r : Reading) : floatToHalf r 0#32 = some 0x4000#16 := by cases r <;> decide
  have hfloat (r : Reading) : ¬ ConvertsToHalf r 0#32 := by
    rintro ⟨h, hh, hhalf⟩
    obtain rfl : 0x4000#16 = h := Option.some.inj ((hzero r).symm.trans hh)
    have hdist := (hhalf.finite (by decide)).2 0 (by decide)
    revert hdist
    decide
  have htrip (r : Reading) : ¬ RoundTrips r 0#16 := by
    unfold RoundTrips
    cases r <;> decide
  exact ⟨hzero _, hfloat _, htrip _, hzero _, hfloat _, htrip _⟩

end OpenCRun.HalfFloat
