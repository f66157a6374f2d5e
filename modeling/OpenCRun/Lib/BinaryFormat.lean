import Mathlib.Data.Rat.Floor
import Mathlib.Tactic.Linarith
import Mathlib.Tactic.NormNum
import Mathlib.Tactic.Positivity
import Mathlib.Tactic.Ring
/-!
# Binary floating-point formats

The finite numbers of a format are the integers of its precision, scaled by a
power of two. They are taken as exact rationals, and rounding to an integer
stays among them.
-/
namespace Lib.BinaryFormat

/-! ## Formats -/

/-- A precision in bits, and the range of the exponents by which an integer of that precision is scaled. -/
structure Format where
  precision : Nat
  minExp : Int
  maxExp : Int
  precision_pos : 0 < precision
  minExp_nonpos : minExp ≤ 0
  maxExp_nonneg : 0 ≤ maxExp

namespace Format

def half : Format := ⟨11, -24, 5, by decide, by decide, by decide⟩
def float : Format := ⟨24, -149, 104, by decide, by decide, by decide⟩
def double : Format := ⟨53, -1074, 971, by decide, by decide, by decide⟩

/-- The number is one of the finite ones. -/
def Finite (f : Format) (x : ℚ) : Prop :=
  ∃ m e : Int, |m| < 2 ^ f.precision ∧ f.minExp ≤ e ∧ e ≤ f.maxExp ∧ x = m * 2 ^ e

end Format

/-- A finite number of a format. -/
@[ext] structure Real (f : Format) where
  val : ℚ
  finite : f.Finite val

variable {f : Format} {x : ℚ}

/-! ## Rounding to an integer -/

/-- Toward zero. -/
def truncate (x : ℚ) : Int := if 0 ≤ x then ⌊x⌋ else ⌈x⌉

/-- To the nearest, and to the even one of two. -/
def roundEven (x : ℚ) : Int :=
  if Int.fract x < 1 / 2 then ⌊x⌋
  else if 1 / 2 < Int.fract x then ⌊x⌋ + 1
  else if ⌊x⌋ % 2 = 0 then ⌊x⌋
  else ⌊x⌋ + 1

theorem floor_eq_sub_fract (x : ℚ) : x = ⌊x⌋ + Int.fract x := (Int.floor_add_fract x).symm

theorem ceil_eq_floor_iff (x : ℚ) : ⌈x⌉ = ⌊x⌋ ↔ Int.fract x = 0 := by
  rw [Int.ceil_eq_iff]
  have hx := floor_eq_sub_fract x
  have hnonneg := Int.fract_nonneg x
  constructor
  · rintro ⟨-, hle⟩
    linarith
  · intro h
    rw [h] at hx
    exact ⟨by linarith, by linarith⟩

theorem ceil_eq_floor_add_one {x : ℚ} (h : Int.fract x ≠ 0) : ⌈x⌉ = ⌊x⌋ + 1 := by
  rw [Int.ceil_eq_iff]
  have hx := floor_eq_sub_fract x
  have hpos : 0 < Int.fract x := lt_of_le_of_ne (Int.fract_nonneg x) h.symm
  have hlt := Int.fract_lt_one x
  push_cast
  exact ⟨by linarith, by linarith⟩

theorem roundEven_cases (x : ℚ) : roundEven x = ⌊x⌋ ∨ roundEven x = ⌊x⌋ + 1 := by
  unfold roundEven
  split
  · exact .inl rfl
  · split
    · exact .inr rfl
    · split
      · exact .inl rfl
      · exact .inr rfl

/-- The lower neighbour is the nearer one, or the even one of two that are as near. -/
def NearFloor (x : ℚ) : Prop := Int.fract x < 1 / 2 ∨ (Int.fract x = 1 / 2 ∧ ⌊x⌋ % 2 = 0)

theorem roundEven_eq_floor_iff (x : ℚ) : roundEven x = ⌊x⌋ ↔ NearFloor x := by
  unfold roundEven NearFloor
  split
  · next h => exact iff_of_true rfl (.inl h)
  · next h =>
    split
    · next h' =>
      refine iff_of_false (by omega) ?_
      rintro (hlt | ⟨heq, -⟩)
      · exact h hlt
      · exact h'.ne' heq
    · next h' =>
      have heq : Int.fract x = 1 / 2 := le_antisymm (not_lt.1 h') (not_lt.1 h)
      split
      · next heven => exact iff_of_true rfl (.inr ⟨heq, heven⟩)
      · next hodd =>
        refine iff_of_false (by omega) ?_
        rintro (hlt | ⟨-, heven⟩)
        · exact h hlt
        · exact hodd heven

theorem truncate_intCast (n : Int) : truncate n = n := by
  unfold truncate
  split
  · exact Int.floor_intCast n
  · exact Int.ceil_intCast n

theorem truncate_eq_floor_iff (x : ℚ) : truncate x = ⌊x⌋ ↔ Int.fract x = 0 ∨ 0 ≤ x := by
  unfold truncate
  split
  · next h => exact iff_of_true rfl (.inr h)
  · next h => rw [ceil_eq_floor_iff, or_iff_left h]

/-- The neighbour toward zero is the one that is rounded to. -/
def NearZero (x : ℚ) : Prop := Int.fract x = 0 ∨ (0 ≤ x ∧ NearFloor x) ∨ (x < 0 ∧ ¬ NearFloor x)

theorem truncate_eq_roundEven_iff (x : ℚ) : truncate x = roundEven x ↔ NearZero x := by
  have hfloor := roundEven_eq_floor_iff x
  have hcases := roundEven_cases x
  unfold NearZero
  by_cases hint : Int.fract x = 0
  · have hnear : NearFloor x := .inl (by rw [hint]; norm_num)
    refine iff_of_true ?_ (.inl hint)
    rw [hfloor.2 hnear, truncate_eq_floor_iff]
    exact .inl hint
  · rw [or_iff_right hint]
    unfold truncate
    split
    · next h =>
      rw [eq_comm, hfloor]
      simp only [h, not_lt.2 h, true_and, false_and, or_false]
    · next h =>
      have hneg := not_le.1 h
      rw [ceil_eq_floor_add_one hint]
      simp only [h, hneg, true_and, false_and, false_or, ← hfloor]
      omega

/-! ## Finite numbers -/

namespace Format

theorem finite_intCast {n : Int} (h : |n| ≤ 2 ^ (f.precision - 1)) : f.Finite n := by
  have hlt : (2 : Int) ^ (f.precision - 1) < 2 ^ f.precision :=
    pow_lt_pow_right₀ (by decide) (Nat.sub_lt f.precision_pos (by decide))
  exact ⟨n, 0, h.trans_lt hlt, f.minExp_nonpos, f.maxExp_nonneg, by rw [zpow_zero, mul_one]⟩

theorem Finite.neg (h : f.Finite x) : f.Finite (-x) := by
  obtain ⟨m, e, hm, hmin, hmax, rfl⟩ := h
  exact ⟨-m, e, by rwa [abs_neg], hmin, hmax, by push_cast; ring⟩

/-- Numbers with a fractional part are small. -/
theorem Finite.int_or_small (h : f.Finite x) : (∃ n : Int, x = n) ∨ |x| < 2 ^ (f.precision - 1) := by
  obtain ⟨m, e, hm, -, -, rfl⟩ := h
  rcases le_or_gt 0 e with he | he
  · obtain ⟨k, rfl⟩ := Int.eq_ofNat_of_zero_le he
    exact .inl ⟨m * 2 ^ k, by push_cast; rw [zpow_natCast]⟩
  · right
    have hscale : (2 : ℚ) ^ e ≤ 2 ^ (-1 : Int) := zpow_le_zpow_right₀ (by norm_num) (by omega)
    have hm' : |(m : ℚ)| < 2 ^ f.precision := by exact_mod_cast hm
    have hpow : (2 : ℚ) ^ f.precision = 2 ^ (f.precision - 1) * 2 := by
      rw [← pow_succ, Nat.sub_add_cancel f.precision_pos]
    have hpos : (0 : ℚ) < 2 ^ e := zpow_pos (by norm_num) e
    calc |(m : ℚ) * 2 ^ e| = |(m : ℚ)| * 2 ^ e := by rw [abs_mul, abs_of_pos hpos]
      _ ≤ |(m : ℚ)| * 2 ^ (-1 : Int) := mul_le_mul_of_nonneg_left hscale (abs_nonneg _)
      _ < 2 ^ f.precision * 2 ^ (-1 : Int) := mul_lt_mul_of_pos_right hm' (by positivity)
      _ = 2 ^ (f.precision - 1) := by rw [hpow, zpow_neg_one, mul_assoc, mul_inv_cancel₀ (by norm_num), mul_one]

theorem Finite.floor (h : f.Finite x) : f.Finite ⌊x⌋ := by
  rcases h.int_or_small with ⟨n, rfl⟩ | hsmall
  · rwa [Int.floor_intCast]
  · have hbounds := abs_lt.1 hsmall
    apply finite_intCast
    rw [abs_le]
    constructor
    · rw [Int.le_floor]
      push_cast
      exact hbounds.1.le
    · rw [← Int.cast_le (R := ℚ)]
      push_cast
      exact (Int.floor_le x).trans hbounds.2.le

theorem Finite.ceil (h : f.Finite x) : f.Finite ⌈x⌉ := by
  have hfloor := h.neg.floor.neg
  rwa [Int.floor_neg, Int.cast_neg, neg_neg] at hfloor

theorem Finite.truncate (h : f.Finite x) : f.Finite (truncate x) := by
  unfold BinaryFormat.truncate
  split
  · exact h.floor
  · exact h.ceil

/-- A number below a power of two that the precision does not reach is at most the integer before it. -/
theorem Finite.le_of_lt_two_pow {k : Nat} (h : f.Finite x) (hk : f.precision ≤ k) (hx : x < 2 ^ k) : x ≤ 2 ^ k - 1 := by
  rcases h.int_or_small with ⟨n, rfl⟩ | hsmall
  · have hn : n < 2 ^ k := by exact_mod_cast hx
    have hle : n ≤ 2 ^ k - 1 := by omega
    exact_mod_cast hle
  · have hpow : (2 : ℚ) ^ (f.precision - 1) * 2 ≤ 2 ^ k := by
      rw [← pow_succ, Nat.sub_add_cancel f.precision_pos]
      exact pow_le_pow_right₀ (by norm_num) hk
    have hone : (1 : ℚ) ≤ 2 ^ (f.precision - 1) := one_le_pow₀ (by norm_num)
    have hlt := (abs_lt.1 hsmall).2
    linarith

/-- An integer, rounded to the precision. -/
def ofInt (f : Format) (n : Int) : ℚ :=
  let k := Nat.log2 n.natAbs + 1 - f.precision
  roundEven (n / 2 ^ k) * 2 ^ k

end Format

namespace Real

def floor (x : Real f) : Real f := ⟨⌊x.val⌋, x.finite.floor⟩
def ceil (x : Real f) : Real f := ⟨⌈x.val⌉, x.finite.ceil⟩
def trunc (x : Real f) : Real f := ⟨truncate x.val, x.finite.truncate⟩

end Real

end Lib.BinaryFormat
