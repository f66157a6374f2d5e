import OpenCRun.Library.Integer
/-!
# Halving adds

`hadd` and `rhadd` take the sum in the promoted type and then half of it. A
narrow type is promoted to one that holds the sum, a wide one is not.
-/
open Lib Lib.CInteger

namespace OpenCRun.Library

variable {s t : IntType} {n : Int}

/-! ## Half of a sum -/

theorem one_lt_promote (s : IntType) : 1 < s.promote.width := by
  obtain ⟨rank, signed⟩ := s
  cases rank <;> cases signed <;> decide

theorem halve {a : Expr s} (h : Computes a n) (hn : t.InRange (n / 2)) : Computes (cast t (a >>> lit 1)) (n / 2) := by
  have hone : Computes (lit 1) (1 : Nat) := computes_lit (by decide)
  have hshr := h.shr hone (one_lt_promote s)
  rw [pow_one] at hshr
  exact hshr.cast hn

/-- The lowest bit of a sum is right, so that a half that is right comes from a sum that is. -/
theorem halve_iff {a : Expr s} (hs : s.promote = t) (hn : t.InRange (n / 2)) (hmod : a.val.int ≡ n [ZMOD 2 ^ t.width]) :
    Computes (cast t (a >>> lit 1)) (n / 2) ↔ Computes a n := by
  refine ⟨fun h => ⟨?_, ?_⟩, fun h => halve h hn⟩
  · have hok := h.ok
    rw [CInteger.cast, Checked.ok_map] at hok
    have hshift := (Bool.and_eq_true_iff.1 hok).1
    rwa [CInteger.cast, Checked.ok_map] at hshift
  · have hvalue := h.value
    have hin : t.InRange (a.val.int / 2 ^ 1) := (hs ▸ (IntType.int_inRange a.val).promote).div_two_pow 1
    rw [value_cast, value_shr (k := 1) (by decide) (one_lt_promote s), IntType.wrap_of_inRange hin, pow_one] at hvalue
    have hbit : a.val.int % 2 = n % 2 := hmod.of_dvd (dvd_pow_self 2 t.width_pos.ne')
    omega

theorem inRange_half {x y : Int} (hx : t.InRange x) (hy : t.InRange y) :
    t.InRange ((x + y) / 2) ∧ t.InRange ((x + y + 1) / 2) := by
  obtain ⟨hx1, hx2⟩ := hx
  obtain ⟨hy1, hy2⟩ := hy
  refine ⟨⟨?_, ?_⟩, ⟨?_, ?_⟩⟩ <;> omega

/-- A type that is promoted to a wider one. -/
theorem promote_holds_sum {x y : Int} (ht : t.promote ≠ t) (hx : t.InRange x) (hy : t.InRange y) :
    t.promote.InRange (x + y) ∧ t.promote.InRange (x + y + 1) := by
  obtain ⟨rank, signed⟩ := t
  cases rank with
  | char | short =>
    cases signed <;>
      simp [IntType.InRange, IntType.minValue, IntType.maxValue, IntType.promote, IntType.int, IntType.width,
        Rank.width] at hx hy ⊢ <;> omega
  | int | long => exact absurd rfl ht

theorem computes_add_iff {x y : Int} {a b : Expr t} (ht : t.promote = t) (ha : Computes a x) (hb : Computes b y) :
    Computes (a + b) (x + y) ↔ t.InRange (x + y) := by
  have hcommon : t.common t = t := (IntType.common_self t).trans ht
  exact ⟨fun h => hcommon ▸ h.inRange, fun h => ha.add hb hcommon ha.inRange hb.inRange h⟩

theorem computes_add_one_iff {x y : Int} {a b : Expr t} (ht : t.promote = t) (ha : Computes a x) (hb : Computes b y) :
    Computes (a + b + lit 1) (x + y + 1) ↔ t.InRange (x + y) ∧ t.InRange (x + y + 1) := by
  have hcommon : t.common t = t := (IntType.common_self t).trans ht
  have hint : (t.common t).common .int = t := by rw [hcommon, IntType.common_int, ht]
  have hx := ha.inRange
  have hy := hb.inRange
  constructor
  · intro h
    have hsum : t.InRange (x + y + 1) := hint ▸ h.inRange
    refine ⟨?_, hsum⟩
    cases hs : t.signed with
    | true => exact (ha.ok_arith_iff hb hcommon hx hy rfl hs).1 (ok_left h.ok)
    | false =>
      have hzero := IntType.minValue_of_unsigned hs
      exact ⟨by have := hx.1; have := hy.1; omega, by have := hsum.2; omega⟩
  · rintro ⟨hsum, hsum'⟩
    have hone : t.InRange 1 := by
      obtain ⟨rank, signed⟩ := t
      cases rank <;> cases signed <;> decide
    exact (ha.add hb hcommon hx hy hsum).add (computes_lit (by decide)) hint hsum hone hsum'

/-- The sum of `rhadd` is taken in two steps, and either may leave a wide type. -/
theorem hadd_rhadd_iff (t : IntType) (x y : Value t) :
    (Computes (hadd (var x) (var y)) ((x.int + y.int) / 2) ↔ t.promote ≠ t ∨ t.InRange (x.int + y.int)) ∧
      (Computes (rhadd (var x) (var y)) ((x.int + y.int + 1) / 2) ↔
        t.promote ≠ t ∨ (t.InRange (x.int + y.int) ∧ t.InRange (x.int + y.int + 1))) := by
  have hx := IntType.int_inRange x
  have hy := IntType.int_inRange y
  obtain ⟨hhalf, hhalf'⟩ := inRange_half hx hy
  by_cases ht : t.promote = t
  · have hcommon : t.common t = t := (IntType.common_self t).trans ht
    have hint : (t.common t).common .int = t := by rw [hcommon, IntType.common_int, ht]
    have hmod : (var x + var y).val.int ≡ x.int + y.int [ZMOD 2 ^ t.width] :=
      modEq_add (t.width_le_common t) rfl rfl
    have hmod' : (var x + var y + lit 1).val.int ≡ x.int + y.int + 1 [ZMOD 2 ^ t.width] :=
      modEq_add ((t.width_le_common t).trans (IntType.width_le_common _ _)) hmod rfl
    have hpromote : (t.common t).promote = t := by rw [hcommon, ht]
    have hpromote' : ((t.common t).common .int).promote = t := by rw [hint, ht]
    simp only [hadd, rhadd, halve_iff hpromote hhalf hmod, halve_iff hpromote' hhalf' hmod', ht, ne_eq, not_true_eq_false,
      false_or]
    exact ⟨computes_add_iff ht (computes_var x) (computes_var y), computes_add_one_iff ht (computes_var x) (computes_var y)⟩
  · obtain ⟨hsum, hsum'⟩ := promote_holds_sum ht hx hy
    have hone : t.promote.InRange 1 := by
      obtain ⟨rank, signed⟩ := t
      cases rank <;> cases signed <;> decide
    have hadd := (computes_var x).add (computes_var y) (IntType.common_self t) hx.promote hy.promote hsum
    have hrhadd := hadd.add (computes_lit (n := 1) (by decide)) (by simp) hsum hone hsum'
    exact ⟨iff_of_true (halve hadd hhalf) (.inl ht), iff_of_true (halve hrhadd hhalf') (.inl ht)⟩

/-- The greatest `uint` and one. -/
theorem hadd_max_one : ¬ Computes (hadd (var (IntType.uint.ofInt (2 ^ 32 - 1))) (var (IntType.uint.ofInt 1)))
    ((2 ^ 32 - 1 + 1) / 2) := fun h => absurd h.value (by decide)

end OpenCRun.Library
