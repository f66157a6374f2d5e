import Mathlib.Algebra.Order.Ring.Abs
import OpenCRun.Library.Saturation
/-!
# Saturating multiply-add

`mad_sat` divides the room that `param3` leaves by `param2`, as if that were
positive, and looks only at the limit on the side of `param3`.
-/
open Lib Lib.CInteger

namespace OpenCRun.Library

variable {t : IntType} {a b c : Expr t} {x y z : Int}

/-! ## Comparisons with a quotient -/

theorem tdiv_lt_iff {m : Int} (hy : 0 < y) (hm : 0 ≤ m) : m.tdiv y < x ↔ m < x * y := by
  rw [Int.tdiv_eq_ediv_of_nonneg hm, Int.ediv_lt_iff_lt_mul hy]

theorem lt_tdiv_iff {m : Int} (hy : 0 < y) (hm : m ≤ 0) : x < m.tdiv y ↔ x * y < m := by
  have h := tdiv_lt_iff (x := -x) hy (neg_nonneg.2 hm)
  rw [Int.neg_tdiv, neg_mul] at h
  omega

theorem tdiv_lt_iff_of_neg {m : Int} (hy : y < 0) (hm : 0 ≤ m) : m.tdiv y < x ↔ x * y - y ≤ m := by
  have h := tdiv_lt_iff (x := 1 - x) (neg_pos.2 hy) hm
  have hprod : (1 - x) * -y = x * y - y := by ring
  rw [Int.tdiv_neg, hprod] at h
  omega

theorem lt_tdiv_iff_of_neg {m : Int} (hy : y < 0) (hm : m ≤ 0) : x < m.tdiv y ↔ m ≤ x * y + y := by
  have h := tdiv_lt_iff (x := x + 1) (neg_pos.2 hy) (neg_nonneg.2 hm)
  have hprod : (x + 1) * -y = -(x * y + y) := by ring
  rw [Int.tdiv_neg, Int.neg_tdiv, neg_neg, hprod] at h
  omega

/-- A quotient of a number that is nearer to zero than both limits. -/
theorem inRange_tdiv {m : Int} (h : t.InRange m) (h' : t.InRange (-m)) (y : Int) : t.InRange (m.tdiv y) := by
  have habs : (m.tdiv y).natAbs ≤ m.natAbs := Int.natAbs_tdiv_le_natAbs m y
  obtain ⟨hlo, hhi⟩ := h
  obtain ⟨hlo', hhi'⟩ := h'
  constructor
  · omega
  · omega

/-! ## When the result is the exact one -/

/-- A number that a conversion leaves, or a limit that it makes of a number beyond that limit. -/
def WrapsToClamp (t : IntType) (n : Int) : Prop :=
  t.InRange n ∨ (t.maxValue < n ∧ 2 ^ t.width ∣ n - t.maxValue) ∨ (n < t.minValue ∧ 2 ^ t.width ∣ n - t.minValue)

theorem wrap_eq_clamp_iff (t : IntType) (n : Int) : t.wrap n = t.clamp n ↔ WrapsToClamp t n := by
  have hlimits := t.minValue_le_maxValue
  unfold WrapsToClamp
  rcases lt_trichotomy t.maxValue n with hgt | heq | hlt
  · have hnot : ¬ t.InRange n := fun h => not_lt.2 h.2 hgt
    have hlow : ¬ n < t.minValue := not_lt.2 (hlimits.trans hgt.le)
    simp only [hnot, hgt, hlow, false_or, true_and, false_and, or_false]
    rw [IntType.clamp_of_gt hgt, IntType.wrap_eq_iff_dvd t.inRange_maxValue]
  · have hrange : t.InRange n := heq ▸ t.inRange_maxValue
    exact iff_of_true (by rw [IntType.wrap_of_inRange hrange, IntType.clamp_of_inRange hrange]) (.inl hrange)
  · rcases lt_or_ge n t.minValue with hlow | hlow
    · have hnot : ¬ t.InRange n := fun h => not_lt.2 h.1 hlow
      simp only [hnot, hlow, not_lt.2 hlt.le, false_or, true_and, false_and]
      rw [IntType.clamp_of_lt hlow, IntType.wrap_eq_iff_dvd t.inRange_minValue]
    · have hrange : t.InRange n := ⟨hlow, hlt.le⟩
      exact iff_of_true (by rw [IntType.wrap_of_inRange hrange, IntType.clamp_of_inRange hrange]) (.inl hrange)

/-- The sum in the last branch is defined, and what is returned of it is the exact result, clamped. A narrow type is
promoted, so it has the sum whatever that is. -/
def Lands (t : IntType) (product sum : Int) : Prop :=
  if t.promote = t then t.InRange product ∧ t.InRange sum else WrapsToClamp t sum

/-- The condition on the operands of `mad_sat`. -/
def MadSatExact (t : IntType) (x y z : Int) : Prop :=
  t.signed = false ∨ x = 0 ∨ y = 0 ∨
    (0 < y ∧ ((0 < z ∧ t.maxValue < x * y + z) ∨ (z < 0 ∧ x * y + z < t.minValue) ∨ Lands t (x * y) (x * y + z))) ∨
      (y < 0 ∧ (0 < z → t.maxValue + y < x * y + z) ∧ (z < 0 → x * y + z < t.minValue - y) ∧
        Lands t (x * y) (x * y + z))

/-- A factor that is zero is noticed first. -/
theorem factors_eq (ha : Computes a x) (hb : Computes b y) :
    (eq a (lit 0) <||> eq b (lit 0)) = pure (decide (x = 0 ∨ y = 0)) := by
  have hlit : Computes (lit 0) 0 := computes_lit (IntType.inRange_zero _)
  rw [eq, eq, compare_eq ha hlit (by simp) ha.inRange.promote t.inRange_zero.promote,
    compare_eq hb hlit (by simp) hb.inRange.promote t.inRange_zero.promote]
  by_cases hx : x = 0
  · rw [decide_eq_true hx, pure_true_or, decide_eq_true (.inl hx)]
  · rw [decide_eq_false hx, pure_false_or]
    simp [hx]

theorem madSatUi_computes (ht : t.signed = false) (ha : Computes a x) (hb : Computes b y) (hc : Computes c z) :
    Computes (madSatUi a b c) (t.clamp (x * y + z)) := by
  have hmax := computes_allOnes ht
  have hzero := IntType.minValue_of_unsigned ht
  have hx := ha.inRange
  have hy := hb.inRange
  have hz := hc.inRange
  rw [madSatUi, factors_eq ha hb, pure_bind]
  by_cases hfactor : x = 0 ∨ y = 0
  · have hprod : x * y = 0 := mul_eq_zero.2 hfactor
    rw [decide_eq_true hfactor, if_pos rfl, hprod, zero_add, IntType.clamp_of_inRange hz]
    exact hc
  rw [decide_eq_false hfactor, if_neg Bool.false_ne_true, hmax.bind]
  push Not at hfactor
  have hxpos : 0 < x := lt_of_le_of_ne (hzero ▸ hx.1) (Ne.symm hfactor.1)
  have hypos : 0 < y := lt_of_le_of_ne (hzero ▸ hy.1) (Ne.symm hfactor.2)
  have hroom : t.InRange (t.maxValue - z) := ⟨by have := hz.2; omega, by have := hz.1; omega⟩
  have hroom0 : 0 ≤ t.maxValue - z := by have := hz.2; omega
  have hquot : t.InRange ((t.maxValue - z).tdiv y) := by
    rw [Int.tdiv_eq_ediv_of_nonneg hroom0]
    exact ⟨hzero ▸ Int.ediv_nonneg hroom0 hypos.le, (Int.ediv_le_self _ hroom0).trans hroom.2⟩
  have hlit : Computes (lit 0) 0 := computes_lit (IntType.inRange_zero _)
  have hdiff := hmax.var.sub hc (by simp) hmax.inRange.promote hz.promote hroom.promote
  have hdiv := hdiff.div hb (by simp) hroom.promote hy.promote hypos.ne' hquot.promote
  rw [ne, gt, compare_eq hb hlit (by simp) hy.promote t.inRange_zero.promote, decide_eq_true hypos.ne', pure_true_and,
    compare_eq ha hdiv (by simp) hx.promote hquot.promote]
  by_cases hgt : t.maxValue < x * y + z
  · have hover : x > (t.maxValue - z).tdiv y := (tdiv_lt_iff hypos hroom0).2 (by omega)
    rw [decide_eq_true hover, IntType.clamp_of_gt hgt]
    exact (hmax.var.ternary_true (by simp) t.inRange_maxValue.promote).cast t.inRange_maxValue
  · have hfits : ¬ x > (t.maxValue - z).tdiv y := fun h => hgt (by have := (tdiv_lt_iff hypos hroom0).1 h; omega)
    have hpos : 0 < x * y := Int.mul_pos hxpos hypos
    have hz0 := hz.1
    have hprod : t.InRange (x * y) := ⟨by omega, by omega⟩
    have hsum : t.InRange (x * y + z) := ⟨by omega, by omega⟩
    have hmul := ha.mul hb (by simp) hx.promote hy.promote hprod.promote
    have hadd := hmul.add hc (by simp) hprod.promote hz.promote hsum.promote
    rw [decide_eq_false hfits, IntType.clamp_of_inRange hsum]
    exact (hadd.ternary_false (by simp) hsum.promote).cast hsum

/-! ## Signed operands -/

theorem narrow_range (ht : t.signed = true) (h : t.promote ≠ t) {n : Int} (hn : t.InRange n) : |n| ≤ 2 ^ 15 := by
  obtain ⟨hlo, hhi⟩ := hn
  obtain ⟨rank, signed⟩ := t
  cases ht
  rw [abs_le]
  simp only [IntType.minValue, IntType.maxValue, if_true, IntType.width] at hlo hhi
  cases rank with
  | char | short =>
    simp only [Rank.width] at hlo hhi
    omega
  | int | long => exact absurd rfl h

theorem promote_eq_int (h : t.promote ≠ t) : t.promote = .int := by
  obtain ⟨rank, signed⟩ := t
  cases rank with
  | char | short => rfl
  | int | long => exact absurd rfl h

/-- What the last branch returns. -/
theorem sum_iff (ht : t.signed = true) (ha : Computes a x) (hb : Computes b y) (hc : Computes c z) :
    Computes (cast t (a * b + c)) (t.clamp (x * y + z)) ↔ Lands t (x * y) (x * y + z) := by
  have hx := ha.inRange
  have hy := hb.inRange
  have hz := hc.inRange
  unfold Lands
  split
  · next hwide =>
    have hmulok : (a * b).ok = true ↔ t.InRange (x * y) :=
      ha.ok_arith_iff hb ((IntType.common_self t).trans hwide) hx hy rfl ht
    have haddok (hprod : t.InRange (x * y)) : (a * b + c).ok = true ↔ t.InRange (x * y + z) :=
      (ha.mul hb ((IntType.common_self t).trans hwide) hx hy hprod).ok_arith_iff hc (by simp [hwide]) hprod hz rfl ht
    constructor
    · intro h
      have hsumok : (a * b + c).ok = true := by rw [← h.ok, CInteger.cast, Checked.ok_map]
      have hprod := hmulok.1 (ok_left hsumok)
      exact ⟨hprod, (haddok hprod).1 hsumok⟩
    · rintro ⟨hprod, hsum⟩
      rw [IntType.clamp_of_inRange hsum]
      have hmul := ha.mul hb (by simp) hx.promote hy.promote hprod.promote
      exact (hmul.add hc (by simp) hprod.promote hz.promote hsum.promote).cast hsum
  · next hnarrow =>
    have hint : t.promote = .int := promote_eq_int hnarrow
    have hprod : |x * y| ≤ 2 ^ 15 * 2 ^ 15 := by
      rw [abs_mul]
      exact mul_le_mul (narrow_range ht hnarrow hx) (narrow_range ht hnarrow hy) (abs_nonneg _) (by decide)
    have haddend := narrow_range ht hnarrow hz
    rw [abs_le] at hprod haddend
    have hprodRange : t.promote.InRange (x * y) := by
      rw [hint]
      exact ⟨by change -2 ^ 31 ≤ _; omega, by change _ ≤ 2 ^ 31 - 1; omega⟩
    have hsumRange : t.promote.InRange (x * y + z) := by
      rw [hint]
      exact ⟨by change -2 ^ 31 ≤ _; omega, by change _ ≤ 2 ^ 31 - 1; omega⟩
    have hmul := ha.mul hb (by simp) hx.promote hy.promote hprodRange
    have hadd := hmul.add hc (by simp) hprodRange hz.promote hsumRange
    rw [hadd.cast_wrap.iff_eq, wrap_eq_clamp_iff]

/-- The branches, as they are taken. -/
theorem madSatSi_eq (ht : t.signed = true) (ha : Computes a x) (hb : Computes b y) (hc : Computes c z) (hx0 : x ≠ 0)
    (hy0 : y ≠ 0) : ∃ hi lo : Expr t, Computes hi t.maxValue ∧ Computes lo t.minValue ∧ madSatSi a b c =
      if 0 < z ∧ (t.maxValue - z).tdiv y < x then hi else if z < 0 ∧ x < (t.minValue - z).tdiv y then lo
      else cast t (a * b + c) := by
  have hmax := computes_maxVal ht
  have hmin := computes_minVal ht
  have hx := ha.inRange
  have hy := hb.inRange
  have hz := hc.inRange
  have hmaxT := hmax.var.cast t.inRange_maxValue
  have hminT := hmin.var.cast_wrap (t := t)
  rw [wrap_neg_minValue ht] at hminT
  have hfactor : ¬ (x = 0 ∨ y = 0) := fun h => h.elim hx0 hy0
  have hsym : t.minValue = -t.maxValue - 1 := by
    rw [IntType.minValue, IntType.maxValue, if_pos ht, if_pos ht]
    ring
  refine ⟨_, _, hmaxT, hminT, ?_⟩
  rw [madSatSi, factors_eq ha hb, pure_bind, decide_eq_false hfactor, if_neg Bool.false_ne_true, hmax.bind, hmin.bind]
  apply branches_eq hc
  · intro hpos
    have hroom : t.InRange (t.maxValue - z) := ⟨by have := hz.2; have := t.inRange_zero.1; omega, by omega⟩
    have hquot : t.InRange ((t.maxValue - z).tdiv y) :=
      inRange_tdiv hroom ⟨by omega, by have := hz.2; have := t.inRange_zero.2; omega⟩ y
    have hdiff := hmaxT.sub hc (by simp) t.inRange_maxValue.promote hz.promote hroom.promote
    exact compare_eq ha (hdiff.div hb (by simp) hroom.promote hy.promote hy0 hquot.promote) (by simp) hx.promote
      hquot.promote
  · intro hneg
    have hroom : t.InRange (t.minValue - z) := ⟨by omega, by have := hz.1; have := t.inRange_zero.2; omega⟩
    have hquot : t.InRange ((t.minValue - z).tdiv y) :=
      inRange_tdiv hroom ⟨by have := hz.1; have := t.inRange_zero.1; omega, by omega⟩ y
    have hdiff := hminT.sub hc (by simp) t.inRange_minValue.promote hz.promote hroom.promote
    exact compare_eq ha (hdiff.div hb (by simp) hroom.promote hy.promote hy0 hquot.promote) (by simp) hx.promote
      hquot.promote

theorem madSatSi_iff (ht : t.signed = true) (ha : Computes a x) (hb : Computes b y) (hc : Computes c z) (hx0 : x ≠ 0)
    (hy0 : y ≠ 0) : Computes (madSatSi a b c) (t.clamp (x * y + z)) ↔ MadSatExact t x y z := by
  obtain ⟨hi, lo, hhi, hlo, heq⟩ := madSatSi_eq ht ha hb hc hx0 hy0
  have hsum := sum_iff ht ha hb hc
  have hz := hc.inRange
  have hlimits := t.minValue_le_maxValue
  have hstrict : t.minValue < t.maxValue := by
    have hlow := t.inRange_zero.1
    rw [IntType.minValue, IntType.maxValue, if_pos ht, if_pos ht]
    have hpow : (0 : Int) < 2 ^ (t.width - 1) := Int.pow_pos (by decide)
    omega
  unfold MadSatExact
  simp only [ht, hx0, hy0, Bool.true_eq_false, false_or]
  rw [heq]
  rcases lt_or_gt_of_ne hy0 with hneg | hpos
  · simp only [hneg, not_lt.2 hneg.le, true_and, false_and, false_or]
    split_ifs with hover hunder
    · -- The room was divided by a negative number, so the result is below the limit.
      rw [tdiv_lt_iff_of_neg hneg (by have := hz.2; omega)] at hover
      refine iff_of_false (fun h => ?_) fun h => ?_
      · have heq := hhi.iff_eq.1 h
        unfold IntType.clamp at heq
        omega
      · have := h.1 hover.1
        omega
    · rw [lt_tdiv_iff_of_neg hneg (by have := hz.1; omega)] at hunder
      refine iff_of_false (fun h => ?_) fun h => ?_
      · have heq := hlo.iff_eq.1 h
        unfold IntType.clamp at heq
        omega
      · have := h.2.1 hunder.1
        omega
    · rw [hsum]
      refine ⟨fun h => ⟨fun hz0 => ?_, fun hz0 => ?_, h⟩, fun h => h.2.2⟩
      · have hnot : ¬ (t.maxValue - z).tdiv y < x := fun hq => hover ⟨hz0, hq⟩
        rw [tdiv_lt_iff_of_neg hneg (by have := hz.2; omega)] at hnot
        omega
      · have hnot : ¬ x < (t.minValue - z).tdiv y := fun hq => hunder ⟨hz0, hq⟩
        rw [lt_tdiv_iff_of_neg hneg (by have := hz.1; omega)] at hnot
        omega
  · simp only [hpos, not_lt.2 hpos.le, true_and, false_and, or_false]
    split_ifs with hover hunder
    · have hprod := (tdiv_lt_iff hpos (by have := hz.2; omega)).1 hover.2
      have hgt : t.maxValue < x * y + z := by omega
      rw [IntType.clamp_of_gt hgt]
      exact iff_of_true hhi (.inl ⟨hover.1, hgt⟩)
    · have hprod := (lt_tdiv_iff hpos (by have := hz.1; omega)).1 hunder.2
      have hlt : x * y + z < t.minValue := by omega
      rw [IntType.clamp_of_lt hlt]
      exact iff_of_true hlo (.inr (.inl ⟨hunder.1, hlt⟩))
    · rw [hsum]
      refine ⟨fun h => .inr (.inr h), ?_⟩
      rintro (⟨hz0, hgt⟩ | ⟨hz0, hlt⟩ | h)
      · exact absurd ⟨hz0, (tdiv_lt_iff hpos (by have := hz.2; omega)).2 (by omega)⟩ hover
      · exact absurd ⟨hz0, (lt_tdiv_iff hpos (by have := hz.1; omega)).2 (by omega)⟩ hunder
      · exact h

/-- The exact result, clamped, and nothing undefined on the way. Unsigned operands always give it. -/
theorem mad_sat_iff (t : IntType) (x y z : Value t) :
    Computes (madSat (var x) (var y) (var z)) (t.clamp (x.int * y.int + z.int)) ↔ MadSatExact t x.int y.int z.int := by
  have hx := computes_var x
  have hy := computes_var y
  have hz := computes_var z
  cases ht : t.signed with
  | false =>
    rw [madSat, ht, if_neg Bool.false_ne_true]
    exact iff_of_true (madSatUi_computes ht hx hy hz) (.inl ht)
  | true =>
    rw [madSat, ht, if_pos rfl]
    by_cases hfactor : x.int = 0 ∨ y.int = 0
    · have hprod : x.int * y.int = 0 := mul_eq_zero.2 hfactor
      refine iff_of_true ?_ (.inr (hfactor.imp_right .inl))
      rw [madSatSi, factors_eq hx hy, pure_bind, decide_eq_true hfactor, if_pos rfl, hprod, zero_add,
        IntType.clamp_of_inRange hz.inRange]
      exact hz
    · push Not at hfactor
      exact madSatSi_iff ht hx hy hz hfactor.1 hfactor.2

/-- `1 * -1 + 1`, of chars. -/
theorem mad_sat_one_one : ¬ Computes (madSat (var (IntType.ofInt ⟨.char, true⟩ 1)) (var (IntType.ofInt ⟨.char, true⟩ (-1)))
    (var (IntType.ofInt ⟨.char, true⟩ 1))) (IntType.clamp ⟨.char, true⟩ (1 * -1 + 1)) :=
  fun h => absurd h.value (by decide)

end OpenCRun.Library
