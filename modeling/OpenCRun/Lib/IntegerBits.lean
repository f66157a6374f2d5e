import Mathlib.Data.Int.Bitwise
import Mathlib.Tactic.LinearCombination
import OpenCRun.Lib.CInteger
/-!
# The bits of an integer of C

A value has the bits of its number, in two's complement, and a conversion or an
operator acts on them below the width.
-/
namespace Lib.CInteger

/-! ## Bits of numbers -/

section Numbers
variable {m n : Int} {i k w : Nat}

theorem testBit_eq (n : Int) (i : Nat) : n.testBit i = decide (n / 2 ^ i % 2 = 1) := by
  cases n with
  | ofNat n =>
    have hnat : (Int.ofNat n / 2 ^ i % 2 = 1) ↔ n / 2 ^ i % 2 = 1 := by
      rw [Int.ofNat_eq_natCast]
      norm_cast
    rw [decide_eq_decide.2 hnat]
    exact Nat.testBit_eq_decide_div_mod_eq
  | negSucc n =>
    have hdiv : Int.negSucc n / 2 ^ i = -((n / 2 ^ i : Nat) + 1) := by
      rw [Int.negSucc_ediv n (by positivity)]
      norm_cast
    have hnot : (Int.negSucc n / 2 ^ i % 2 = 1) ↔ ¬ n / 2 ^ i % 2 = 1 := by
      rw [hdiv]
      omega
    rw [decide_eq_decide.2 hnot, decide_not, ← Nat.testBit_eq_decide_div_mod_eq]
    rfl

theorem testBit_mul_two_pow (n : Int) (k i : Nat) : (n * 2 ^ k).testBit i = (decide (k ≤ i) && n.testBit (i - k)) := by
  have hpos : (0 : Int) < 2 ^ k := by positivity
  rw [testBit_eq, testBit_eq]
  rcases Nat.lt_or_ge i k with hlt | hle
  · have hpow : (2 : Int) ^ k = 2 ^ (k - i - 1) * 2 * 2 ^ i := by
      rw [← pow_succ, ← pow_add]
      congr 1
      omega
    rw [hpow, ← mul_assoc, Int.mul_ediv_cancel _ (by positivity), ← mul_assoc, Int.mul_emod_left]
    simp only [Nat.not_le.2 hlt, decide_false, Bool.false_and]
    rfl
  · have hpow : (2 : Int) ^ i = 2 ^ (i - k) * 2 ^ k := by
      rw [← pow_add]
      congr 1
      omega
    rw [hpow, Int.mul_ediv_mul_of_pos_left _ _ hpos, decide_eq_true hle, Bool.true_and]

theorem testBit_ediv_two_pow (n : Int) (k i : Nat) : (n / 2 ^ k).testBit i = n.testBit (k + i) := by
  rw [testBit_eq, testBit_eq, Int.ediv_ediv_of_nonneg (by positivity), pow_add]

theorem testBit_of_modEq (h : m ≡ n [ZMOD 2 ^ w]) (hi : i < w) : m.testBit i = n.testBit i := by
  obtain ⟨c, hc⟩ := h.dvd
  have hpow : (2 : Int) ^ w = 2 ^ (w - i - 1) * 2 * 2 ^ i := by
    rw [← pow_succ, ← pow_add]
    congr 1
    omega
  have hn : n = m + 2 ^ (w - i - 1) * c * 2 * 2 ^ i := by
    rw [hpow] at hc
    linear_combination hc
  rw [testBit_eq, testBit_eq, hn, Int.add_mul_ediv_right _ _ (by positivity), Int.add_mul_emod_self_right]

end Numbers

/-! ## Bits of values -/

section Values
variable {s t : IntType} {a : Expr s} {b : Expr t} {i : Nat}

theorem int_modEq_toNat (x : Value t) : x.int ≡ x.bits.toNat [ZMOD 2 ^ t.width] := by
  have h := IntType.ofInt_int x
  calc x.int % 2 ^ t.width = (t.ofInt x.int).bits.toNat := (toNat_ofInt t x.int).symm
    _ = (x.bits.toNat : Int) % 2 ^ t.width := by
      rw [h, Int.emod_eq_of_lt (by positivity) (by exact_mod_cast x.bits.isLt)]

theorem testBit_int (x : Value t) (hi : i < t.width) : x.int.testBit i = x.bits.getLsbD i :=
  testBit_of_modEq (int_modEq_toNat x) hi

theorem int_of_unsigned (h : t.signed = false) (x : Value t) : x.int = x.bits.toNat :=
  if_neg (by rw [h]; exact Bool.false_ne_true)

/-- An unsigned value has no bits above its width. -/
theorem testBit_of_unsigned (h : t.signed = false) (x : Value t) (i : Nat) : x.int.testBit i = x.bits.getLsbD i := by
  rw [int_of_unsigned h]
  rfl

theorem testBit_sign {x : Value t} (hneg : x.int < 0) (hi : t.width - 1 ≤ i) : x.int.testBit i = true := by
  have hpow : (2 : Int) ^ (t.width - 1) ≤ 2 ^ i := pow_le_pow_right₀ (by decide) hi
  have hpos : (0 : Int) < 2 ^ (t.width - 1) := by positivity
  have hmin : -2 ^ (t.width - 1) ≤ t.minValue := by
    unfold IntType.minValue
    split <;> omega
  have hlo := (IntType.int_inRange x).1
  have hdiv : x.int / 2 ^ i = -1 := by
    rw [Int.ediv_eq_iff_of_pos (by positivity)]
    omega
  rw [testBit_eq, hdiv]
  rfl

/-- Above its width a number has copies of its sign. -/
theorem testBit_of_width_le (x : Value t) (hi : t.width ≤ i) : x.int.testBit i = decide (x.int < 0) := by
  by_cases hneg : x.int < 0
  · rw [testBit_sign hneg ((Nat.sub_le _ _).trans hi), decide_eq_true hneg]
  · have hpow : (2 : Int) ^ t.width ≤ 2 ^ i := pow_le_pow_right₀ (by decide) hi
    have hlength := t.maxValue_sub_minValue
    have hzero := t.inRange_zero
    have hhi := (IntType.int_inRange x).2
    unfold IntType.InRange at hzero
    rw [testBit_eq, Int.ediv_eq_zero_of_lt (by omega) (by omega), decide_eq_false hneg]
    rfl

theorem bits_ext {x : Value t} {y : BitVec t.width} (h : ∀ i < t.width, x.int.testBit i = y.getLsbD i) : x = ⟨y⟩ := by
  apply Value.ext
  apply BitVec.eq_of_getLsbD_eq
  intro i hi
  rw [← testBit_int x hi, h i hi]

theorem testBit_cast (a : Expr s) (hi : i < t.width) : (CInteger.cast t a).val.int.testBit i = a.val.int.testBit i :=
  testBit_of_modEq (IntType.wrap_emod t a.val.int) hi

theorem testBit_or (a : Expr s) (b : Expr t) (hi : i < (s.common t).width) :
    (a ||| b).val.int.testBit i = (a.val.int.testBit i || b.val.int.testBit i) := by
  have hval : (a ||| b).val.bits = (CInteger.cast (s.common t) a).val.bits ||| (CInteger.cast (s.common t) b).val.bits := rfl
  rw [testBit_int _ hi, hval, BitVec.getLsbD_or, ← testBit_int _ hi, ← testBit_int _ hi, testBit_cast a hi,
    testBit_cast b hi]

theorem testBit_and (a : Expr s) (b : Expr t) (hi : i < (s.common t).width) :
    (a &&& b).val.int.testBit i = (a.val.int.testBit i && b.val.int.testBit i) := by
  have hval : (a &&& b).val.bits = (CInteger.cast (s.common t) a).val.bits &&& (CInteger.cast (s.common t) b).val.bits := rfl
  rw [testBit_int _ hi, hval, BitVec.getLsbD_and, ← testBit_int _ hi, ← testBit_int _ hi, testBit_cast a hi,
    testBit_cast b hi]

/-- Both numbers may be negative, and then they share the sign bit. -/
theorem value_and_eq_zero_iff (x y : Value t) :
    (var x &&& var y).val.int = 0 ↔ ∀ i < t.width, (x.bits.getLsbD i && y.bits.getLsbD i) = false := by
  have hw := t.width_pos
  have hbit : ∀ i < t.width, ((var x &&& var y).val.int).testBit i = (x.bits.getLsbD i && y.bits.getLsbD i) := by
    intro i hi
    rw [testBit_and _ _ (hi.trans_le (t.width_le_common t)), ← testBit_int x hi, ← testBit_int y hi]
    rfl
  constructor
  · intro h i hi
    rw [← hbit i hi, h]
    exact Nat.zero_testBit i
  · intro h
    have hzero : (var x &&& var y).val = ⟨0#(t.common t).width⟩ := by
      apply bits_ext
      intro i hi
      rw [BitVec.getLsbD_zero]
      rcases Nat.lt_or_ge i t.width with hlt | hge
      · rw [hbit i hlt, h i hlt]
      · have htop := h (t.width - 1) (by omega)
        rw [← testBit_int x (by omega), ← testBit_int y (by omega)] at htop
        rw [testBit_and _ _ hi]
        by_cases hx : x.int < 0
        · rw [testBit_sign hx le_rfl, Bool.true_and] at htop
          have hy : ¬ y.int < 0 := fun hy => Bool.false_ne_true (htop.symm.trans (testBit_sign hy le_rfl))
          have hyi : (var y).val.int.testBit i = false := (testBit_of_width_le y hge).trans (decide_eq_false hy)
          rw [hyi, Bool.and_false]
        · have hxi : (var x).val.int.testBit i = false := (testBit_of_width_le x hge).trans (decide_eq_false hx)
          rw [hxi, Bool.false_and]
    rw [hzero]
    obtain ⟨rank, signed⟩ := t
    cases rank <;> cases signed <;> decide

/-- The count is taken modulo the width. -/
theorem testBit_shl {k : Nat} (hk : b.val.int % s.promote.width = k) (hi : i < s.promote.width) :
    (a <<< b).val.int.testBit i = (decide (k ≤ i) && a.val.int.testBit (i - k)) := by
  have hval : (a <<< b).val.int = s.promote.wrap (a.val.int * 2 ^ (b.val.int % s.promote.width).toNat) :=
    value_shift _ a b
  rw [hval, hk, Int.toNat_natCast, ← testBit_mul_two_pow]
  exact testBit_of_modEq (IntType.wrap_emod _ _) hi

theorem testBit_shr {k : Nat} (hk : b.val.int % s.promote.width = k) (hi : i < s.promote.width) :
    (a >>> b).val.int.testBit i = a.val.int.testBit (k + i) := by
  have hval : (a >>> b).val.int = s.promote.wrap (a.val.int / 2 ^ (b.val.int % s.promote.width).toNat) :=
    value_shift _ a b
  rw [hval, hk, Int.toNat_natCast, ← testBit_ediv_two_pow]
  exact testBit_of_modEq (IntType.wrap_emod _ _) hi

/-- A shift to the left that is converted back to its type. -/
theorem cast_shl_eq {x y : Value t} {k : Nat} (hy : y.int = k) (hk : k < t.promote.width) :
    CInteger.cast t (var x <<< var y) = pure ⟨x.bits <<< k⟩ := by
  have hcount : (var y).val.int % t.promote.width = k := by
    rw [show (var y).val.int = k from hy]
    exact Int.emod_eq_of_lt (by omega) (by omega)
  refine Checked.ext ?_ ((ok_cast _).trans (ok_shift _ _ _))
  apply bits_ext
  intro i hi
  rw [testBit_cast _ hi, testBit_shl hcount (hi.trans_le t.width_le_promote), BitVec.getLsbD_shiftLeft, decide_eq_true hi,
    Bool.true_and]
  by_cases hki : k ≤ i
  · rw [decide_eq_true hki, decide_eq_false (Nat.not_lt.2 hki)]
    exact congrArg _ (testBit_int x (by omega))
  · rw [decide_eq_false hki, decide_eq_true (Nat.not_le.1 hki)]
    rfl

/-! ### Unsigned operators -/

section Unsigned
variable {u : IntType} {m n : Nat}

theorem Computes.and_of_unsigned (hu : s.common t = u) (hs : u.signed = false) (ha : Computes a m) (hb : Computes b n)
    (hm : m < 2 ^ u.width) (hn : n < 2 ^ u.width) : Computes (a &&& b) (m &&& n : Nat) := by
  subst hu
  have hbits : ∀ k : Nat, k < 2 ^ (s.common t).width → ((s.common t).ofInt k).bits.toNat = k := by
    intro k hk
    rw [IntType.ofInt, BitVec.ofInt_natCast, BitVec.toNat_ofNat, Nat.mod_eq_of_lt hk]
  have hval : (a &&& b).val.bits = ((s.common t).ofInt a.val.int).bits &&& ((s.common t).ofInt b.val.int).bits := rfl
  refine ⟨(ok_bitwise _ a b).trans (by rw [ha.ok, hb.ok]; rfl), ?_⟩
  rw [int_of_unsigned hs, hval, ha.value, hb.value, BitVec.toNat_and, hbits m hm, hbits n hn]

theorem Computes.mul_of_unsigned (hu : s.common t = u) (hs : u.signed = false) (ha : Computes a m) (hb : Computes b n) :
    Computes (a * b) (m * n % 2 ^ u.width : Nat) := by
  subst hu
  refine ⟨ok_arith_of_unsigned hs ha.ok hb.ok, ?_⟩
  rw [value_mul, ha.value, hb.value, IntType.wrap_of_unsigned hs]
  norm_cast

end Unsigned

end Values

/-! ## Rotations -/

section Rotations
variable {w : Nat} {x y : BitVec w}

/-- Where a rotation brings a bit. -/
theorem getLsbD_rotateLeft_add {j : Nat} (x : BitVec w) (r : Nat) (hj : j < w) :
    (x.rotateLeft r).getLsbD ((j + r) % w) = x.getLsbD j := by
  have hr : r % w < w := Nat.mod_lt r (by omega)
  rw [← Nat.add_mod_mod, BitVec.getLsbD_rotateLeft]
  rcases Nat.lt_or_ge (j + r % w) w with hlt | hge
  · rw [Nat.mod_eq_of_lt hlt, decide_eq_false (by omega), decide_eq_true hlt, Nat.add_sub_cancel]
    rfl
  · rw [Nat.mod_eq_sub_mod hge, Nat.mod_eq_of_lt (by omega), decide_eq_true (by omega), cond_true]
    congr 1
    omega

theorem exists_rotated (r : Nat) {i : Nat} (hi : i < w) : ∃ j < w, (j + r) % w = i := by
  have hr : r % w < w := Nat.mod_lt r (by omega)
  refine ⟨(i + (w - r % w)) % w, Nat.mod_lt _ (by omega), ?_⟩
  rw [Nat.mod_add_mod, ← Nat.add_mod_mod, Nat.add_assoc, Nat.sub_add_cancel hr.le, Nat.add_mod_right, Nat.mod_eq_of_lt hi]

/-- A word is known by where a rotation brings its bits. -/
theorem rotated_ext (r : Nat) (h : ∀ j < w, x.getLsbD ((j + r) % w) = y.getLsbD ((j + r) % w)) : x = y := by
  apply BitVec.eq_of_getLsbD_eq
  intro i hi
  obtain ⟨j, hj, rfl⟩ := exists_rotated r hi
  exact h j hj

theorem rotateLeft_rotateLeft (x : BitVec w) (r k : Nat) : (x.rotateLeft r).rotateLeft k = x.rotateLeft (r + k) := by
  apply rotated_ext (r + k)
  intro j hj
  rw [getLsbD_rotateLeft_add x (r + k) hj, ← Nat.add_assoc, ← Nat.mod_add_mod,
    getLsbD_rotateLeft_add _ k (Nat.mod_lt _ (by omega)), getLsbD_rotateLeft_add x r hj]

theorem rotateLeft_eq_zero_iff (x : BitVec w) (r : Nat) : x.rotateLeft r = 0#w ↔ x = 0#w := by
  constructor
  · intro h
    apply BitVec.eq_of_getLsbD_eq
    intro j hj
    rw [← getLsbD_rotateLeft_add x r hj, h, BitVec.getLsbD_zero, BitVec.getLsbD_zero]
  · rintro rfl
    apply rotated_ext r
    intro j hj
    rw [getLsbD_rotateLeft_add _ r hj, BitVec.getLsbD_zero, BitVec.getLsbD_zero]

end Rotations

end Lib.CInteger
