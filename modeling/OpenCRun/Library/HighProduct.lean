import Mathlib.Tactic.LinearCombination
import OpenCRun.Library.Integer
/-!
# The high half of a product

`mul_hi` multiplies half words, whose products fit in the type, and counts the
carries out of the low half by comparing wrapped sums with what was summed.
-/
open Lib Lib.CInteger

namespace OpenCRun.Library

variable {t : IntType}

/-! ## Half words -/

/-- A range in multiples of the base `B` that half words are written in. -/
structure Halves (t : IntType) (B lo hi : Int) : Prop where
  two_pow : 2 ^ t.width = B * B
  minValue : t.minValue = lo * B
  maxValue : t.maxValue = hi * B - 1
  length : hi - lo = B
  lo_nonpos : lo ≤ 0
  hi_pos : 0 < hi
  neg_lo_le : -lo ≤ hi

theorem exists_halves (t : IntType) : ∃ lo hi, Halves t (2 ^ (t.width / 2)) lo hi := by
  obtain ⟨rank, signed⟩ := t
  refine ⟨(if signed then -2 ^ (rank.width / 2 - 1) else 0),
    (if signed then 2 ^ (rank.width / 2 - 1) else 2 ^ (rank.width / 2)), ?_⟩
  cases rank <;> cases signed <;> constructor <;> decide

namespace Halves

variable {B lo hi x y : Int}

theorem base_pos (h : Halves t B lo hi) : 0 < B := by
  have := h.length
  have := h.lo_nonpos
  have := h.hi_pos
  omega

theorem inRange_iff (h : Halves t B lo hi) : t.InRange x ↔ lo * B ≤ x ∧ x < hi * B := by
  rw [IntType.InRange, h.minValue, h.maxValue]
  omega

theorem high (h : Halves t B lo hi) (hx : t.InRange x) : lo ≤ x / B ∧ x / B < hi := by
  rw [h.inRange_iff] at hx
  exact ⟨Int.le_ediv_of_mul_le h.base_pos hx.1, Int.ediv_lt_of_lt_mul h.base_pos hx.2⟩

theorem low (h : Halves t B lo hi) (x : Int) : 0 ≤ x % B ∧ x % B < B :=
  ⟨Int.emod_nonneg _ h.base_pos.ne', Int.emod_lt_of_pos _ h.base_pos⟩

theorem inRange_low (h : Halves t B lo hi) (x : Int) : t.InRange (x % B) := by
  have hB := h.base_pos
  have hx := h.low x
  have hlo : lo * B ≤ 0 := Int.mul_nonpos_of_nonpos_of_nonneg h.lo_nonpos hB.le
  have hhi : 1 * B ≤ hi * B := Int.mul_le_mul_of_nonneg_right h.hi_pos hB.le
  rw [h.inRange_iff]
  omega

/-- A low half word times a high one. -/
theorem inRange_mul (h : Halves t B lo hi) (hx : 0 ≤ x ∧ x < B) (hy : lo ≤ y ∧ y < hi) : t.InRange (x * y) := by
  have hB := h.base_pos
  have hlo : B * lo ≤ x * lo := Int.mul_le_mul_of_nonpos_right hx.2.le h.lo_nonpos
  have hlow : x * lo ≤ x * y := Int.mul_le_mul_of_nonneg_left hy.1 hx.1
  have hhi : x * hi < B * hi := Int.mul_lt_mul_of_pos_right hx.2 h.hi_pos
  have hhigh : x * y ≤ x * hi := Int.mul_le_mul_of_nonneg_left hy.2.le hx.1
  rw [h.inRange_iff, mul_comm lo, mul_comm hi]
  exact ⟨hlo.trans hlow, hhigh.trans_lt hhi⟩

/-- The high half of a product fits. -/
theorem inRange_mul_ediv (h : Halves t B lo hi) (hx : t.InRange x) (hy : t.InRange y) :
    t.InRange (x * y / 2 ^ t.width) := by
  have hB := h.base_pos
  have hlen := h.length
  have hpos := h.hi_pos
  rw [h.inRange_iff] at hx hy
  have hW : 0 < B * B := Int.mul_pos hB hB
  have hhi : 0 < hi * B := Int.mul_pos hpos hB
  have hlo : lo * B ≤ 0 := Int.mul_nonpos_of_nonpos_of_nonneg h.lo_nonpos hB.le
  have hhiW : hi * B ≤ B * B := Int.mul_le_mul_of_nonneg_right (by have := h.lo_nonpos; omega) hB.le
  have hlohi : -lo * B ≤ hi * B := Int.mul_le_mul_of_nonneg_right h.neg_lo_le hB.le
  have hloW : -lo * B < B * B := Int.mul_lt_mul_of_pos_right (by omega) hB
  rw [neg_mul] at hlohi hloW
  rw [h.inRange_iff, h.two_pow]
  constructor
  · apply Int.le_ediv_of_mul_le hW
    rcases le_total 0 x with hx0 | hx0
    · calc lo * B * (B * B) ≤ lo * B * x := mul_le_mul_of_nonpos_left (by omega) hlo
        _ = x * (lo * B) := mul_comm _ _
        _ ≤ x * y := Int.mul_le_mul_of_nonneg_left hy.1 hx0
    · rcases le_total 0 y with hy0 | hy0
      · calc lo * B * (B * B) ≤ lo * B * y := mul_le_mul_of_nonpos_left (by omega) hlo
          _ ≤ x * y := Int.mul_le_mul_of_nonneg_right hx.1 hy0
      · exact (Int.mul_nonpos_of_nonpos_of_nonneg hlo hW.le).trans (Int.mul_nonneg_of_nonpos_of_nonpos hx0 hy0)
  · apply Int.ediv_lt_of_lt_mul hW
    rcases le_total 0 x with hx0 | hx0
    · calc x * y ≤ x * (B * B) := Int.mul_le_mul_of_nonneg_left (by omega) hx0
        _ < hi * B * (B * B) := Int.mul_lt_mul_of_pos_right hx.2 hW
    · rcases le_total 0 y with hy0 | hy0
      · exact (Int.mul_nonpos_of_nonpos_of_nonneg hx0 hy0).trans_lt (Int.mul_pos hhi hW)
      · calc x * y = -x * -y := (neg_mul_neg x y).symm
          _ ≤ -x * -(lo * B) := Int.mul_le_mul_of_nonneg_left (by omega) (by omega)
          _ ≤ hi * B * -(lo * B) := Int.mul_le_mul_of_nonneg_right (by omega) (by omega)
          _ < hi * B * (B * B) := Int.mul_lt_mul_of_pos_left hloW hhi

end Halves

/-! ## Carries -/

/-- A sum of two words wraps just if it is less than one of them. -/
theorem carry_eq {W u v : Int} (hu : 0 ≤ u ∧ u < W) (hv : 0 ≤ v ∧ v < W) :
    u + v = (u + v) % W + (if (u + v) % W < u then 1 else 0) * W := by
  rcases lt_or_ge (u + v) W with hlt | hge
  · rw [Int.emod_eq_of_lt (by omega) hlt, if_neg (by omega)]
    omega
  · rw [← Int.sub_emod_right, Int.emod_eq_of_lt (by omega) (by omega), if_pos (by omega)]
    omega

/-- A product of low half words fits in a word. -/
theorem mul_low {B : Int} (hB : 0 < B) (x y : Int) : 0 ≤ (x % B) * (y % B) ∧ (x % B) * (y % B) < B * B := by
  have hx := Int.emod_nonneg x hB.ne'
  have hy := Int.emod_nonneg y hB.ne'
  exact ⟨Int.mul_nonneg hx hy, mul_lt_mul'' (Int.emod_lt_of_pos x hB) (Int.emod_lt_of_pos y hB) hx hy⟩

/-- The sum that `mul_hi` returns, in exact numbers. -/
theorem high_product {B W x y p q ll loTmp lo : Int} (hB : 0 < B) (hW : W = B * B)
    (hp : p = (x % B) * (y / B)) (hq : q = (x / B) * (y % B)) (hll : ll = (x % B) * (y % B))
    (hloTmp : loTmp = (ll + p * B) % W) (hlo : lo = (loTmp + q * B) % W) :
    (x / B) * (y / B) + p / B + q / B + ((if loTmp < ll then 1 else 0) + (if lo < loTmp then 1 else 0)) = x * y / W := by
  have hWpos : 0 < W := hW ▸ Int.mul_pos hB hB
  have hword : ∀ n : Int, n * B = n / B * W + n % B * B := by
    intro n
    nth_rewrite 1 [← Int.emod_add_mul_ediv n B]
    rw [hW]
    ring
  have hhigh : ∀ n : Int, 0 ≤ n % B * B ∧ n % B * B < W := by
    intro n
    have hlow := Int.emod_lt_of_pos n hB
    exact ⟨Int.mul_nonneg (Int.emod_nonneg n hB.ne') hB.le, hW ▸ Int.mul_lt_mul_of_pos_right hlow hB⟩
  have hllW : 0 ≤ ll ∧ ll < W := hll ▸ hW ▸ mul_low hB x y
  have hloTmpW : 0 ≤ loTmp ∧ loTmp < W := hloTmp ▸ ⟨Int.emod_nonneg _ hWpos.ne', Int.emod_lt_of_pos _ hWpos⟩
  have hloW : 0 ≤ lo ∧ lo < W := hlo ▸ ⟨Int.emod_nonneg _ hWpos.ne', Int.emod_lt_of_pos _ hWpos⟩
  have hc₁ := carry_eq hllW (hhigh p)
  have hc₂ := carry_eq hloTmpW (hhigh q)
  have hloTmp' : (ll + p % B * B) % W = loTmp := by
    rw [hloTmp, hword p, add_left_comm, Int.mul_add_emod_self_right]
  have hlo' : (loTmp + q % B * B) % W = lo := by
    rw [hlo, hword q, add_left_comm, Int.mul_add_emod_self_right]
  rw [hloTmp'] at hc₁
  rw [hlo'] at hc₂
  have hxy : x * y = (x / B) * (y / B) * W + p * B + q * B + ll := by
    nth_rewrite 1 [← Int.emod_add_mul_ediv x B, ← Int.emod_add_mul_ediv y B]
    rw [hp, hq, hll, hW]
    ring
  set c₁ : Int := if loTmp < ll then 1 else 0
  set c₂ : Int := if lo < loTmp then 1 else 0
  have hsum : x * y = lo + ((x / B) * (y / B) + p / B + q / B + (c₁ + c₂)) * W := by
    have hp' := hword p
    have hq' := hword q
    linear_combination hxy + hp' + hq' + hc₁ + hc₂
  rw [hsum, Int.add_mul_ediv_right _ _ hWpos.ne', Int.ediv_eq_zero_of_lt hloW.1 hloW.2, zero_add]

/-! ## The code -/

theorem value_shamt (t : IntType) : (cast t (sizeof t * lit 8 / lit 2)).val.int = (t.width / 2 : Nat) := by
  obtain ⟨rank, signed⟩ := t
  cases rank <;> cases signed <;> decide

theorem value_loMask (t : IntType) :
    (cast t ((cast t (lit 1) <<< var (t.ofInt (t.width / 2 : Nat))) - lit 1)).val.int = 2 ^ (t.width / 2) - 1 := by
  obtain ⟨rank, signed⟩ := t
  cases rank <;> cases signed <;> decide

theorem half_lt_promote (t : IntType) : t.width / 2 < t.promote.width := by
  have := t.width_le_promote
  have := t.width_pos
  omega

theorem value_var {m : Int} (h : t.InRange m) : (var (t.ofInt m)).val.int = m := IntType.wrap_of_inRange h

theorem value_low {M : Value t} (hM : (var M).val.int = 2 ^ (t.width / 2) - 1) (x : Value t) :
    (cast t (var x &&& var M)).val.int = x.int % 2 ^ (t.width / 2) := by
  obtain ⟨lo, hi, h⟩ := exists_halves t
  have hlt : t.width / 2 < (t.common t).width := by
    rw [IntType.common_self]
    exact half_lt_promote t
  rw [value_cast, value_and_mask hM hlt]
  exact IntType.wrap_of_inRange (h.inRange_low _)

theorem value_high {S : Value t} (hS : (var S).val.int = (t.width / 2 : Nat)) (x : Value t) :
    (cast t (var x >>> var S)).val.int = x.int / 2 ^ (t.width / 2) := by
  rw [value_cast, value_shr hS (half_lt_promote t)]
  exact IntType.wrap_of_inRange ((IntType.int_inRange x).div_two_pow _)

theorem modEq_var_wrap (t : IntType) (m : Int) : (var (t.ofInt (t.wrap m))).val.int ≡ m [ZMOD 2 ^ t.width] := by
  rw [value_var (t.wrap_inRange m)]
  exact t.wrap_emod m

theorem value_carry {m n : Int} (hm : t.InRange m) (hn : t.InRange n) :
    (ofBool (lt (var (t.ofInt m)) (var (t.ofInt n)))).val.int = if m < n then 1 else 0 := by
  rw [value_ofBool, lt, val_compare_self, value_var hm, value_var hn]
  simp only [decide_eq_true_eq]

/-- A product that fits is restored from its unsigned copy before it is shifted. -/
theorem value_carried {m : Int} {S : Value t} (hm : t.InRange m) (hS : (var S).val.int = (t.width / 2 : Nat)) :
    (cast t (var (t.unsigned.ofInt (t.unsigned.wrap m))) >>> var S).val.int = m / 2 ^ (t.width / 2) := by
  rw [value_shr hS (half_lt_promote t), value_cast, value_var (IntType.wrap_inRange _ _),
    IntType.wrap_wrap (t := t) (s := t.unsigned) le_rfl, IntType.wrap_of_inRange hm]

theorem mulHi_value (x y : Value t) : (mulHi (var x) (var y)).val.int = x.int * y.int / 2 ^ t.width := by
  obtain ⟨lo, hi, h⟩ := exists_halves t
  have hx := IntType.int_inRange x
  have hy := IntType.int_inRange y
  have hS := value_shamt t
  have hM := value_loMask t
  have hS' := value_var (hS ▸ IntType.int_inRange _)
  have hM' := value_var (hM ▸ IntType.int_inRange _)
  have hxl := value_var (h.inRange_low x.int)
  have hyl := value_var (h.inRange_low y.int)
  have hxh := value_var (hx.div_two_pow (t.width / 2))
  have hyh := value_var (hy.div_two_pow (t.width / 2))
  rw [mulHi, val_bind_eq hS, val_bind_eq hM, val_bind_eq (value_low hM' x), val_bind_eq (value_high hS' x),
    val_bind_eq (value_low hM' y), val_bind_eq (value_high hS' y)]
  -- the products of the half words
  have hself := t.width_le_common t
  rw [val_bind_eq (value_cast_mul (u := t.unsigned) hself _ _), val_bind_eq (value_cast_mul (u := t.unsigned) hself _ _),
    val_bind_eq (value_cast_mul (u := t.unsigned) hself _ _), val_bind_eq (value_cast_mul (u := t.unsigned) hself _ _),
    hxl, hyl, hxh, hyh]
  generalize hll : x.int % 2 ^ (t.width / 2) * (y.int % 2 ^ (t.width / 2)) = ll
  generalize hp : x.int % 2 ^ (t.width / 2) * (y.int / 2 ^ (t.width / 2)) = p
  generalize hq : x.int / 2 ^ (t.width / 2) * (y.int % 2 ^ (t.width / 2)) = q
  generalize hhh : x.int / 2 ^ (t.width / 2) * (y.int / 2 ^ (t.width / 2)) = hh
  -- the sum of the low half, with its carries
  have hu := t.unsigned.width_le_common t.unsigned.promote
  have hlt := half_lt_promote t.unsigned
  have hloTmp := value_cast_of_modEq (modEq_add hu (modEq_var_wrap t.unsigned ll)
    (modEq_shl t.unsigned.width_le_promote (modEq_var_wrap t.unsigned p) hS' hlt))
  rw [val_bind_eq hloTmp]
  generalize hloTmpDef : t.unsigned.wrap (ll + p * 2 ^ (t.width / 2)) = loTmp
  have hloTmpIn : t.unsigned.InRange loTmp := hloTmpDef ▸ IntType.wrap_inRange _ _
  have hllIn := t.unsigned.wrap_inRange ll
  have hc₁ : (cast t.unsigned (ofBool (lt (var (t.unsigned.ofInt loTmp)) (var (t.unsigned.ofInt
      (t.unsigned.wrap ll)))))).val.int = t.unsigned.wrap (if loTmp < t.unsigned.wrap ll then 1 else 0) := by
    rw [value_cast, value_carry hloTmpIn hllIn]
  have hlo := value_cast_of_modEq (modEq_add (a := var (t.unsigned.ofInt loTmp)) hu rfl
    (modEq_shl t.unsigned.width_le_promote (modEq_var_wrap t.unsigned q) hS' hlt))
  rw [value_var hloTmpIn] at hlo
  rw [val_bind_eq hc₁, val_bind_eq hlo]
  generalize hloDef : t.unsigned.wrap (loTmp + q * 2 ^ (t.width / 2)) = lo'
  have hloIn : t.unsigned.InRange lo' := hloDef ▸ IntType.wrap_inRange _ _
  have hc₂ := value_cast_of_modEq (modEq_add (a := var (t.unsigned.ofInt (t.unsigned.wrap
    (if loTmp < t.unsigned.wrap ll then 1 else 0)))) (t.unsigned.width_le_common .int) (modEq_var_wrap _ _)
    (congrArg (· % _) (value_carry hloIn hloTmpIn)))
  rw [val_bind_eq hc₂]
  -- what is returned, modulo the length of the range
  have hpIn : t.InRange p := hp ▸ h.inRange_mul (h.low x.int) (h.high hy)
  have hqIn : t.InRange q := hq ▸ mul_comm (y.int % _) _ ▸ h.inRange_mul (h.low y.int) (h.high hx)
  have hw₁ : t.width ≤ (t.unsigned.common t.promote).width := t.unsigned.width_le_common _
  have hw₂ := hw₁.trans (IntType.width_le_common _ t.promote)
  have hw₃ := hw₂.trans (IntType.width_le_common _ t.unsigned)
  rw [value_cast_of_modEq (modEq_add hw₃ (modEq_add hw₂ (modEq_add hw₁ (modEq_var_wrap t.unsigned hh)
    (congrArg (· % _) (value_carried hpIn hS'))) (congrArg (· % _) (value_carried hqIn hS'))) (modEq_var_wrap t.unsigned _))]
  -- the low product fits, so its copy is the product itself
  have hllFits : 0 ≤ ll ∧ ll < 2 ^ t.width := by
    rw [← hll, h.two_pow]
    exact mul_low h.base_pos x.int y.int
  have hll' : t.unsigned.wrap ll = ll := (IntType.wrap_of_unsigned rfl ll).trans (Int.emod_eq_of_lt hllFits.1 hllFits.2)
  rw [hll', ← hhh, high_product h.base_pos h.two_pow hp.symm hq.symm hll.symm ?loTmp ?lo]
  case loTmp => rw [← hloTmpDef, IntType.wrap_of_unsigned rfl]; rfl
  case lo => rw [← hloDef, IntType.wrap_of_unsigned rfl]; rfl
  exact IntType.wrap_of_inRange (h.inRange_mul_ediv hx hy)

/-- Values only: a product of signed half words may leave an `int`, and wraps. -/
theorem mul_hi_mad_hi (t : IntType) (x y z : Value t) :
    (mulHi (var x) (var y)).val.int = x.int * y.int / 2 ^ t.width ∧
      (madHi (var x) (var y) (var z)).val.int = t.wrap ((mulHi (var x) (var y)).val.int + z.int) :=
  ⟨mulHi_value x y, value_cast_add (t.width_le_common t) _ _⟩

end OpenCRun.Library
