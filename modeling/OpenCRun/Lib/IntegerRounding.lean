import Mathlib.Order.Bounds.Basic
import OpenCRun.Lib.BinaryFormat
/-!
# Integers, rounded to a format

An integer with more bits than the precision lies between two multiples of the
power of two that is left over, and these are the neighbours that the format
has.
-/
namespace Lib.BinaryFormat

namespace Format
variable {f : Format} {n : Int} {x y z : ℚ}

/-- The bits of an integer that the precision does not reach. -/
def excess (f : Format) (n : Int) : Nat := Nat.log2 n.natAbs + 1 - f.precision

/-- The integer in units of the last bit that the precision reaches. -/
def scaled (f : Format) (n : Int) : ℚ := n / 2 ^ f.excess n

theorem ofInt_eq (f : Format) (n : Int) : f.ofInt n = roundEven (f.scaled n) * 2 ^ f.excess n := rfl

theorem scaled_mul (f : Format) (n : Int) : f.scaled n * 2 ^ f.excess n = n :=
  div_mul_cancel₀ _ (by positivity)

theorem scaled_neg (f : Format) (n : Int) : f.scaled (-n) = -f.scaled n := by
  unfold scaled excess
  rw [Int.natAbs_neg, Int.cast_neg, neg_div]

theorem excess_neg (f : Format) (n : Int) : f.excess (-n) = f.excess n := by
  unfold excess
  rw [Int.natAbs_neg]

/-- The integer has bits that the precision does not reach, and then its absolute value is large. -/
theorem excess_cases (f : Format) (n : Int) :
    f.excess n = 0 ∨ (2 : ℚ) ^ (f.precision - 1) * 2 ^ f.excess n ≤ |(n : ℚ)| := by
  rcases Nat.eq_zero_or_pos (f.excess n) with hzero | hpos
  · exact .inl hzero
  · right
    have hn : n.natAbs ≠ 0 := by
      rintro h
      have hprecision := f.precision_pos
      unfold excess at hpos
      rw [h, Nat.log2_zero] at hpos
      omega
    have hlog : f.precision - 1 + f.excess n = Nat.log2 n.natAbs := by
      have hprecision := f.precision_pos
      unfold excess at hpos ⊢
      omega
    have hle : (2 : Nat) ^ (f.precision - 1 + f.excess n) ≤ n.natAbs := hlog ▸ Nat.log2_self_le hn
    rw [← pow_add, ← Int.cast_abs, Int.abs_eq_natAbs]
    exact_mod_cast hle

theorem abs_scaled_lt (f : Format) (n : Int) : |f.scaled n| < 2 ^ f.precision := by
  have hpow : (0 : ℚ) < 2 ^ f.excess n := by positivity
  have hlt : n.natAbs < 2 ^ (f.precision + f.excess n) := by
    refine Nat.lt_log2_self.trans_le (Nat.pow_le_pow_right (by decide) ?_)
    unfold excess
    omega
  unfold scaled
  rw [abs_div, abs_of_pos hpow, div_lt_iff₀ hpow, ← pow_add, ← Int.cast_abs, Int.abs_eq_natAbs]
  exact_mod_cast hlt

/-- The large numbers of a format are multiples of the unit. -/
theorem Finite.multiple_of_large {k : Nat} (h : f.Finite z) (hz : 2 ^ (f.precision - 1) * 2 ^ k ≤ |z|) :
    ∃ i : Int, z = i * 2 ^ k := by
  obtain ⟨m, e, hm, -, -, rfl⟩ := h
  have hm' : |(m : ℚ)| < 2 ^ f.precision := by exact_mod_cast hm
  have he : (k : Int) ≤ e := by
    by_contra! hlt
    have hscale : (2 : ℚ) ^ e ≤ 2 ^ ((k : Int) - 1) := zpow_le_zpow_right₀ (by norm_num) (by omega)
    have hhalf : (2 : ℚ) ^ f.precision * 2 ^ ((k : Int) - 1) = 2 ^ (f.precision - 1) * 2 ^ k := by
      rw [zpow_sub₀ (by norm_num), zpow_natCast, zpow_one, ← Nat.sub_add_cancel f.precision_pos, pow_succ,
        Nat.add_sub_cancel]
      ring
    have hpos : (0 : ℚ) < 2 ^ e := zpow_pos (by norm_num) e
    have habs : |(m : ℚ) * 2 ^ e| = |(m : ℚ)| * 2 ^ e := by rw [abs_mul, abs_of_pos hpos]
    have hsmall : |(m : ℚ)| * 2 ^ e < 2 ^ f.precision * 2 ^ ((k : Int) - 1) :=
      (mul_lt_mul_of_pos_right hm' hpos).trans_le (mul_le_mul_of_nonneg_left hscale (by positivity))
    linarith
  obtain ⟨j, hj⟩ := Int.le.dest he
  refine ⟨m * 2 ^ j, ?_⟩
  rw [← hj, zpow_add₀ (by norm_num), zpow_natCast, zpow_natCast]
  push_cast
  ring

/-- A multiple of a unit that the format has, up to the power that the precision reaches. -/
theorem finite_mul_two_pow {i : Int} {k : Nat} (hi : |i| ≤ 2 ^ f.precision) (hk : (k : Int) < f.maxExp) :
    f.Finite (i * 2 ^ k) := by
  have hmin := f.minExp_nonpos
  rcases hi.lt_or_eq with hlt | heq
  · exact ⟨i, k, hlt, by omega, hk.le, by rw [zpow_natCast]⟩
  · -- The power itself is half of it in units that are twice as large.
    obtain ⟨j, hj⟩ : (2 : Int) ∣ i := by
      rw [← dvd_abs, heq]
      exact dvd_pow_self 2 f.precision_pos.ne'
    refine ⟨j, k + 1, ?_, by omega, by omega, ?_⟩
    · have hpos : (0 : Int) < 2 ^ f.precision := Int.pow_pos (by decide)
      rw [hj, abs_mul, abs_of_pos (by decide : (0 : Int) < 2)] at heq
      omega
    · rw [hj, zpow_add₀ (by norm_num), zpow_natCast, zpow_one]
      push_cast
      ring

/-! ## Neighbours -/

/-- The multiple of the unit below an integer is the greatest number of the format that is not above it. -/
theorem isGreatest_floor (hn : (f.excess n : Int) < f.maxExp) :
    IsGreatest {z | f.Finite z ∧ z ≤ n} (⌊f.scaled n⌋ * 2 ^ f.excess n) := by
  have hunit : (0 : ℚ) < 2 ^ f.excess n := by positivity
  have hscaled := abs_lt.1 (f.abs_scaled_lt n)
  refine ⟨⟨finite_mul_two_pow (abs_le.2 ⟨?_, ?_⟩) hn, ?_⟩, ?_⟩
  · exact Int.le_floor.2 (by push_cast; exact hscaled.1.le)
  · have hle := (Int.floor_le (f.scaled n)).trans hscaled.2.le
    exact_mod_cast hle
  · calc (⌊f.scaled n⌋ : ℚ) * 2 ^ f.excess n ≤ f.scaled n * 2 ^ f.excess n :=
          mul_le_mul_of_nonneg_right (Int.floor_le _) hunit.le
      _ = n := f.scaled_mul n
  · rintro z ⟨hz, hle⟩
    -- A multiple of the unit is compared by its count of units.
    have hmultiple : ∀ i : Int, z = i * 2 ^ f.excess n → z ≤ ⌊f.scaled n⌋ * 2 ^ f.excess n := by
      rintro i rfl
      rw [← f.scaled_mul n] at hle
      have hi : i ≤ ⌊f.scaled n⌋ := Int.le_floor.2 (le_of_mul_le_mul_right hle hunit)
      exact mul_le_mul_of_nonneg_right (by exact_mod_cast hi) hunit.le
    rcases f.excess_cases n with hzero | hlarge
    · have hfloor : (⌊f.scaled n⌋ : ℚ) * 2 ^ f.excess n = n := by
        rw [scaled, hzero, pow_zero, div_one, Int.floor_intCast, mul_one]
      rwa [hfloor]
    · rcases le_or_gt (2 ^ (f.precision - 1) * 2 ^ f.excess n) |z| with hbig | hsmall
      · obtain ⟨i, hi⟩ := hz.multiple_of_large hbig
        exact hmultiple i hi
      · -- Only a positive integer has small numbers below it.
        have hpos : 2 ^ (f.precision - 1) * 2 ^ f.excess n ≤ (n : ℚ) := by
          rcases le_abs.1 hlarge with hpos | hneg
          · exact hpos
          · have hz' := neg_abs_le z
            linarith
        have hunits : (2 : ℚ) ^ (f.precision - 1) ≤ f.scaled n := by
          rw [← f.scaled_mul n] at hpos
          exact le_of_mul_le_mul_right hpos hunit
        have hfloor : ((2 ^ (f.precision - 1) : Int) : ℚ) ≤ ⌊f.scaled n⌋ := by
          exact_mod_cast Int.le_floor.2 (by push_cast; exact hunits)
        have hz' := le_abs_self z
        push_cast at hfloor
        have hle' := mul_le_mul_of_nonneg_right hfloor hunit.le
        linarith

/-- The multiple above is the least number that is not below it. -/
theorem isLeast_ceil (hn : (f.excess n : Int) < f.maxExp) :
    IsLeast {z | f.Finite z ∧ (n : ℚ) ≤ z} (⌈f.scaled n⌉ * 2 ^ f.excess n) := by
  have hneg := isGreatest_floor (by rwa [excess_neg] : (f.excess (-n) : Int) < f.maxExp)
  rw [scaled_neg, excess_neg, Int.floor_neg] at hneg
  push_cast at hneg
  rw [neg_mul] at hneg
  obtain ⟨⟨hfinite, hle⟩, hgreatest⟩ := hneg
  refine ⟨⟨?_, le_of_neg_le_neg hle⟩, ?_⟩
  · have hfinite' := hfinite.neg
    rwa [neg_neg] at hfinite'
  · rintro z ⟨hz, hle'⟩
    exact le_of_neg_le_neg (hgreatest ⟨hz.neg, neg_le_neg hle'⟩)

theorem scaled_nonneg_iff : 0 ≤ f.scaled n ↔ 0 ≤ n := by
  unfold scaled
  rw [le_div_iff₀ (by positivity), zero_mul, Int.cast_nonneg_iff]

end Format

end Lib.BinaryFormat
