import OpenCRun.Library.Integer
/-!
# Saturating arithmetic

`add_sat` and `sub_sat` decide by a difference from a limit whether a result
fits, and that difference always fits. `mad_sat` decides by a quotient.
-/
open Lib Lib.CInteger

namespace OpenCRun.Library

variable {t : IntType} {a b c : Expr t} {x y z : Int}

/-! ## The limits -/

theorem computes_allOnes (h : t.signed = false) : Computes (cast t (bnot (lit 0))) t.maxValue := by
  obtain ⟨rank, signed⟩ := t
  cases h
  cases rank <;> exact ⟨by decide, by decide⟩

theorem computes_maxVal (h : t.signed = true) :
    Computes (cast t.unsigned (cast t.unsigned (bnot (lit 0)) >>> lit 1)) t.maxValue := by
  obtain ⟨rank, signed⟩ := t
  cases h
  cases rank <;> exact ⟨by decide, by decide⟩

theorem computes_minVal (h : t.signed = true) :
    Computes (cast t.unsigned (cast t.unsigned (lit 1) <<< (sizeof t * lit 8 - lit 1))) (-t.minValue) := by
  obtain ⟨rank, signed⟩ := t
  cases h
  cases rank <;> exact ⟨by decide, by decide⟩

theorem wrap_neg_minValue (h : t.signed = true) : t.wrap (-t.minValue) = t.minValue := by
  obtain ⟨rank, signed⟩ := t
  cases h
  cases rank <;> decide

/-! ## Sums and differences -/

theorem addSatUi_computes (ht : t.signed = false) (ha : Computes a x) (hb : Computes b y) :
    Computes (addSatUi a b) (t.clamp (x + y)) := by
  have hmax := computes_allOnes ht
  have hzero := IntType.minValue_of_unsigned ht
  have hx := ha.inRange
  have hy := hb.inRange
  have hroom : t.InRange (t.maxValue - y) := ⟨by have := hy.2; omega, by have := hy.1; omega⟩
  rw [addSatUi, hmax.bind, gt, compare_eq ha (hmax.var.sub hb (by simp) hmax.inRange.promote hy.promote hroom.promote)
    (by simp) hx.promote hroom.promote]
  by_cases hgt : x > t.maxValue - y
  · rw [decide_eq_true hgt, IntType.clamp_of_gt (by omega)]
    exact (hmax.var.ternary_true (by simp) t.inRange_maxValue.promote).cast t.inRange_maxValue
  · have hsum : t.InRange (x + y) := ⟨by have := hx.1; have := hy.1; omega, by omega⟩
    rw [decide_eq_false hgt, IntType.clamp_of_inRange hsum]
    have hadd := ha.add hb (by simp) hx.promote hy.promote hsum.promote
    exact (hadd.ternary_false (by simp) hsum.promote).cast hsum

theorem subSatUi_computes (ht : t.signed = false) (ha : Computes a x) (hb : Computes b y) :
    Computes (subSatUi a b) (t.clamp (x - y)) := by
  have hzero := IntType.minValue_of_unsigned ht
  have hx := ha.inRange
  have hy := hb.inRange
  have hlit : Computes (lit 0) 0 := computes_lit (IntType.inRange_zero _)
  rw [subSatUi, lt, compare_eq ha hb (by simp) hx.promote hy.promote]
  by_cases hlt : x < y
  · rw [decide_eq_true hlt, IntType.clamp_of_lt (by omega), hzero]
    exact (hlit.ternary_true (by simp) t.inRange_zero.promote).cast t.inRange_zero
  · have hdiff : t.InRange (x - y) := ⟨by omega, by have := hx.2; have := hy.1; omega⟩
    rw [decide_eq_false hlt, IntType.clamp_of_inRange hdiff]
    have hsub := ha.sub hb (by simp) hx.promote hy.promote hdiff.promote
    exact (hsub.ternary_false (by simp) hdiff.promote).cast hdiff

/-- A test for each limit, which is made only if the sign of an operand lets the result pass that limit. -/
theorem branches_eq {above below : Checked Bool} {P Q : Prop} [Decidable P] [Decidable Q] {hi lo rest : Expr t}
    (hb : Computes b y) (habove : 0 < y → above = pure (decide P)) (hbelow : y < 0 → below = pure (decide Q)) :
    (do if ← gt b (lit 0) <&&> above then hi else if ← lt b (lit 0) <&&> below then lo else rest) =
      if 0 < y ∧ P then hi else if y < 0 ∧ Q then lo else rest := by
  have hlit : Computes (lit 0) 0 := computes_lit (IntType.inRange_zero _)
  have hy := hb.inRange.promote
  rw [gt, lt, compare_eq hb hlit (by simp) hy t.inRange_zero.promote,
    compare_eq hb hlit (by simp) hy t.inRange_zero.promote]
  rcases lt_trichotomy y 0 with hneg | hzero | hpos
  · rw [decide_eq_false (by omega : ¬ y > 0), decide_eq_true hneg, pure_false_and, pure_true_and, hbelow hneg]
    simp [hneg, not_lt.2 hneg.le]
  · subst hzero
    simp
  · rw [decide_eq_true hpos, decide_eq_false (not_lt.2 hpos.le), pure_true_and, pure_false_and, habove hpos]
    simp [hpos, not_lt.2 hpos.le]

theorem addSatSi_computes (ht : t.signed = true) (ha : Computes a x) (hb : Computes b y) :
    Computes (addSatSi a b) (t.clamp (x + y)) := by
  have hmax := computes_maxVal ht
  have hmin := computes_minVal ht
  have hx := ha.inRange
  have hy := hb.inRange
  have hmaxT := hmax.var.cast t.inRange_maxValue
  have hminT := hmin.var.cast_wrap (t := t)
  rw [wrap_neg_minValue ht] at hminT
  rw [addSatSi, hmax.bind, hmin.bind, branches_eq (P := x > t.maxValue - y) (Q := x < t.minValue - y) hb ?above ?below]
  case above =>
    intro hpos
    have hroom : t.InRange (t.maxValue - y) := ⟨by have := hy.2; have := t.inRange_zero.1; omega, by omega⟩
    exact compare_eq ha (hmaxT.sub hb (by simp) t.inRange_maxValue.promote hy.promote hroom.promote) (by simp) hx.promote
      hroom.promote
  case below =>
    intro hneg
    have hroom : t.InRange (t.minValue - y) := ⟨by omega, by have := hy.1; have := t.inRange_zero.2; omega⟩
    exact compare_eq ha (hminT.sub hb (by simp) t.inRange_minValue.promote hy.promote hroom.promote) (by simp) hx.promote
      hroom.promote
  split
  · next h =>
    rw [IntType.clamp_of_gt (by omega)]
    exact hmaxT
  · next h =>
    split
    · next h =>
      rw [IntType.clamp_of_lt (by omega)]
      exact hminT
    · next h' =>
      have hsum : t.InRange (x + y) := by
        obtain ⟨hx1, hx2⟩ := hx
        exact ⟨by omega, by omega⟩
      rw [IntType.clamp_of_inRange hsum]
      exact (ha.add hb (by simp) hx.promote hy.promote hsum.promote).cast hsum

theorem subSatSi_computes (ht : t.signed = true) (ha : Computes a x) (hb : Computes b y) :
    Computes (subSatSi a b) (t.clamp (x - y)) := by
  have hmax := computes_maxVal ht
  have hmin := computes_minVal ht
  have hx := ha.inRange
  have hy := hb.inRange
  have hmaxT := hmax.var.cast t.inRange_maxValue
  have hminT := hmin.var.cast_wrap (t := t)
  rw [wrap_neg_minValue ht] at hminT
  rw [subSatSi, hmax.bind, hmin.bind, branches_eq (P := x < t.minValue + y) (Q := x > t.maxValue + y) hb ?above ?below]
  case above =>
    intro hpos
    have hroom : t.InRange (t.minValue + y) := ⟨by omega, by have := hy.2; have := t.inRange_zero.1; omega⟩
    exact compare_eq ha (hminT.add hb (by simp) t.inRange_minValue.promote hy.promote hroom.promote) (by simp) hx.promote
      hroom.promote
  case below =>
    intro hneg
    have hroom : t.InRange (t.maxValue + y) := ⟨by have := hy.1; have := t.inRange_zero.2; omega, by omega⟩
    exact compare_eq ha (hmaxT.add hb (by simp) t.inRange_maxValue.promote hy.promote hroom.promote) (by simp) hx.promote
      hroom.promote
  split
  · next h =>
    rw [IntType.clamp_of_lt (by omega)]
    exact hminT
  · next h =>
    split
    · next h =>
      rw [IntType.clamp_of_gt (by omega)]
      exact hmaxT
    · next h' =>
      have hdiff : t.InRange (x - y) := by
        obtain ⟨hx1, hx2⟩ := hx
        exact ⟨by omega, by omega⟩
      rw [IntType.clamp_of_inRange hdiff]
      exact (ha.sub hb (by simp) hx.promote hy.promote hdiff.promote).cast hdiff

/-- No signed result on the way overflows, and the result is the exact one, clamped. -/
theorem add_sub_sat (t : IntType) (x y : Value t) :
    Computes (addSat (var x) (var y)) (t.clamp (x.int + y.int)) ∧
      Computes (subSat (var x) (var y)) (t.clamp (x.int - y.int)) := by
  unfold addSat subSat
  cases ht : t.signed with
  | false =>
    exact ⟨addSatUi_computes ht (computes_var x) (computes_var y), subSatUi_computes ht (computes_var x) (computes_var y)⟩
  | true =>
    exact ⟨addSatSi_computes ht (computes_var x) (computes_var y), subSatSi_computes ht (computes_var x) (computes_var y)⟩

end OpenCRun.Library
