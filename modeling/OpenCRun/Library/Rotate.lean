import OpenCRun.Lib.IntegerBits
import OpenCRun.Library.Integer
/-!
# Rotation

`rotate` shifts the promoted operand, so a count is taken modulo the width of
that and not modulo the width of the type.
-/
open Lib Lib.CInteger

namespace OpenCRun.Library

variable {t : IntType}

/-- What a rotation is to return. -/
def rotated (v : Value t) (n : Int) : Value t := ⟨v.bits.rotateLeft (n % t.width).toNat⟩

/-- The count, as the shift to the left takes it. -/
def leftCount (t : IntType) (n : Int) : Int := n % t.promote.width

theorem leftCount_bounds (t : IntType) (n : Int) : 0 ≤ leftCount t n ∧ leftCount t n < t.promote.width := by
  have hpos := t.promote.width_pos
  exact ⟨Int.emod_nonneg _ (by omega), Int.emod_lt_of_pos _ (by omega)⟩

theorem width_dvd_promote (t : IntType) : (t.width : Int) ∣ t.promote.width := by
  obtain ⟨rank, signed⟩ := t
  cases rank <;> cases signed <;> decide

theorem leftCount_emod (t : IntType) (n : Int) : leftCount t n % t.width = n % t.width :=
  Int.emod_emod_of_dvd n (width_dvd_promote t)

/-! ## The shifts -/

theorem value_sizeof (t : IntType) : (sizeof t * lit 8).val.int = t.width := by
  obtain ⟨rank, signed⟩ := t
  cases rank <;> cases signed <;> decide

/-- The count of the shift to the right, which is computed as a `size_t`. -/
theorem rightCount_emod (n : Value t) :
    (sizeof t * lit 8 - var n).val.int % t.promote.width = (t.width - n.int) % t.promote.width := by
  have hsize : 64 ≤ ((IntType.ulong.common .int).common t).width := IntType.width_le_common (IntType.ulong.common .int) t
  have hmod : (sizeof t * lit 8 - var n).val.int ≡ t.width - n.int [ZMOD 2 ^ 64] :=
    modEq_sub hsize (congrArg (· % _) (value_sizeof t)) rfl
  have hdvd : (t.promote.width : Int) ∣ 2 ^ 64 := by
    obtain ⟨rank, signed⟩ := t
    cases rank <;> cases signed <;> decide
  exact hmod.of_dvd hdvd

theorem ok_rotate (v n : Value t) : (rotate (var v) (var n)).ok = true := by
  have hsize : (sizeof t * lit 8).ok = true := by
    obtain ⟨rank, signed⟩ := t
    cases rank <;> cases signed <;> decide
  have hunsigned : ((IntType.ulong.common .int).common t).signed = false := by
    obtain ⟨rank, signed⟩ := t
    cases rank <;> cases signed <;> decide
  have hcount : (sizeof t * lit 8 - var n).ok = true := ok_arith_of_unsigned hunsigned hsize rfl
  have hright : (cast t.unsigned (var v) >>> (sizeof t * lit 8 - var n)).ok = true := by
    rw [show (_ >>> _ : Expr _).ok = _ from ok_shift _ _ _, ok_cast, hcount]
    rfl
  have hleft : (var v <<< var n).ok = true := ok_shift _ _ _
  rw [rotate, ok_cast]
  exact (ok_bitwise _ _ _).trans (by rw [hleft, hright]; rfl)

/-- The part that is shifted to the right has no copies of the sign. -/
theorem testBit_rotate (v n : Value t) {k l i : Nat} (hk : leftCount t n.int = k)
    (hl : (t.width - n.int) % t.promote.width = l) (hi : i < t.width) :
    (rotate (var v) (var n)).val.int.testBit i = (decide (k ≤ i) && v.bits.getLsbD (i - k) || v.bits.getLsbD (l + i)) := by
  have hi' : i < t.promote.width := hi.trans_le t.width_le_promote
  have hunsigned : t.unsigned.promote.width = t.promote.width := by
    obtain ⟨rank, signed⟩ := t
    cases rank <;> cases signed <;> decide
  have hleftCount : (var n).val.int % t.promote.width = k := hk
  have hleft : (var v <<< var n).val.int.testBit i = (decide (k ≤ i) && v.bits.getLsbD (i - k)) := by
    rw [testBit_shl hleftCount hi']
    congr 1
    exact testBit_int v (by omega)
  have hright : (cast t.unsigned (var v) >>> (sizeof t * lit 8 - var n)).val.int.testBit i = v.bits.getLsbD (l + i) := by
    have hrightCount : (sizeof t * lit 8 - var n).val.int % t.unsigned.promote.width = l := by
      rw [hunsigned, rightCount_emod, hl]
    rw [testBit_shr hrightCount (hunsigned ▸ hi'), testBit_of_unsigned rfl]
    rcases Nat.lt_or_ge (l + i) t.width with hlt | hge
    · have hlt' : l + i < t.unsigned.width := hlt
      rw [← testBit_int _ hlt', testBit_cast _ hlt']
      exact testBit_int v hlt
    · exact (BitVec.getLsbD_of_ge _ _ hge).trans (BitVec.getLsbD_of_ge _ _ hge).symm
  have hcommon : i < (t.promote.common t.unsigned.promote).width := hi'.trans_le (IntType.width_le_common _ _)
  rw [rotate, testBit_cast _ hi, testBit_or _ _ hcommon, hleft, hright]

/-- The count of the shift to the right, by that of the shift to the left. -/
theorem rightCount_cases {n : Int} {k : Nat} (hk : leftCount t n = k) :
    ∃ l : Nat, (t.width - n) % t.promote.width = l ∧
      ((k = 0 ∧ l = 0) ∨ (k ≤ t.width ∧ l = t.width - k) ∨ (t.width < k ∧ t.width < l)) := by
  have hpromote := t.width_le_promote
  have hlt := (leftCount_bounds t n).2
  have hdiff : (t.width - n) % t.promote.width = (t.width - (k : Int)) % t.promote.width :=
    hk ▸ Int.ModEq.sub_left (t.width : Int) (Int.mod_modEq n t.promote.width).symm
  rw [hk] at hlt
  rw [hdiff]
  rcases Nat.lt_or_ge t.width k with hgt | hle
  · refine ⟨t.promote.width + t.width - k, ?_, .inr (.inr ⟨hgt, by omega⟩)⟩
    rw [← Int.add_emod_right, Int.emod_eq_of_lt (by omega) (by omega)]
    omega
  · rcases Nat.lt_or_ge (t.width - k) t.promote.width with hlt' | hge
    · refine ⟨t.width - k, ?_, .inr (.inl ⟨hle, rfl⟩)⟩
      rw [Int.emod_eq_of_lt (by omega) (by omega)]
      omega
    · have hzero : k = 0 := by omega
      have hself : (t.width - (k : Int)) = t.promote.width := by omega
      exact ⟨0, by rw [hself, Int.emod_self]; rfl, .inl ⟨hzero, rfl⟩⟩

/-! ## The result -/

theorem rotate_eq (v n : Value t) :
    rotate (var v) (var n) = pure (if leftCount t n.int ≤ t.width then rotated v n.int else ⟨0#t.width⟩) := by
  refine Checked.ext ?_ (ok_rotate v n)
  rw [Checked.val_pure]
  obtain ⟨k, hk⟩ := Int.eq_ofNat_of_zero_le (leftCount_bounds t n.int).1
  obtain ⟨l, hl, hcases⟩ := rightCount_cases hk
  have hw := t.width_pos
  split
  · next hle =>
    rw [hk] at hle
    have hcount : (n.int % t.width).toNat = k % t.width := by
      rw [← leftCount_emod, hk, ← Int.natCast_emod, Int.toNat_natCast]
    apply bits_ext
    intro i hi
    rw [testBit_rotate v n hk hl hi, hcount, BitVec.getLsbD_rotateLeft, Nat.mod_mod, decide_eq_true hi, Bool.true_and]
    rcases hcases with ⟨rfl, rfl⟩ | ⟨-, rfl⟩ | ⟨hgt, -⟩
    · rw [Nat.zero_mod, Nat.zero_add, Nat.sub_zero, decide_eq_true (Nat.zero_le i), decide_eq_false (Nat.not_lt_zero i),
        Bool.true_and, Bool.or_self, cond_false]
    · rcases Nat.lt_or_ge i k with hlow | hhigh
      · rw [decide_eq_false (Nat.not_le.2 hlow), Bool.false_and, Bool.false_or]
        rcases Nat.lt_or_ge k t.width with hlt | hge
        · rw [Nat.mod_eq_of_lt hlt, decide_eq_true hlow, cond_true]
        · have heq : k = t.width := by omega
          rw [heq, Nat.mod_self, Nat.sub_self, Nat.zero_add, decide_eq_false (Nat.not_lt_zero i), cond_false, Nat.sub_zero]
      · have hout : t.width ≤ t.width - k + i := by omega
        rw [Nat.mod_eq_of_lt (hhigh.trans_lt hi), decide_eq_true hhigh, decide_eq_false (Nat.not_lt.2 hhigh),
          BitVec.getLsbD_of_ge _ _ hout, Bool.true_and, Bool.or_false, cond_false]
    · omega
  · next hgt =>
    apply bits_ext
    intro i hi
    rw [testBit_rotate v n hk hl hi, BitVec.getLsbD_zero, decide_eq_false (by omega), Bool.false_and, Bool.false_or]
    exact BitVec.getLsbD_of_ge _ _ (by omega)

/-- The condition on the value and the count of a rotation. -/
def RotatesRight (v : Value t) (n : Int) : Prop := leftCount t n ≤ t.width ∨ v.bits = 0#t.width

theorem rotated_eq_zero_iff (v : Value t) (n : Int) : rotated v n = ⟨0#t.width⟩ ↔ v.bits = 0#t.width := by
  rw [rotated, Value.mk.injEq, rotateLeft_eq_zero_iff]

theorem pure_value_inj {x y : Value t} : (pure x : Expr t) = pure y ↔ x = y := ⟨congrArg Checked.val, congrArg pure⟩

theorem rotate_eq_iff (v n : Value t) : rotate (var v) (var n) = pure (rotated v n.int) ↔ RotatesRight v n.int := by
  rw [rotate_eq, pure_value_inj, RotatesRight]
  by_cases h : leftCount t n.int ≤ t.width
  · simp [h]
  · simp [h, eq_comm (a := (⟨0#t.width⟩ : Value t)), rotated_eq_zero_iff]

/-! ## One rotation after another -/

/-- The condition on a value and two counts. -/
def RotatesTwice (v : Value t) (m n : Int) : Prop :=
  v.bits = 0#t.width ∨ ((leftCount t m ≤ t.width ∧ leftCount t n ≤ t.width) ↔ leftCount t (m + n) ≤ t.width)

theorem rotated_rotated (v : Value t) (m n : Int) : rotated (rotated v m) n = rotated v (m + n) := by
  have hw := t.width_pos
  have hpos : (0 : Int) < t.width := by omega
  have hm := Int.emod_nonneg m hpos.ne'
  have hn := Int.emod_nonneg n hpos.ne'
  have hsum : ((m % t.width).toNat + (n % t.width).toNat) % t.width = ((m + n) % t.width).toNat := by
    apply Int.ofNat_inj.1
    rw [Int.natCast_emod, Nat.cast_add, Int.toNat_of_nonneg hm, Int.toNat_of_nonneg hn, ← Int.add_emod,
      Int.toNat_of_nonneg (Int.emod_nonneg _ hpos.ne')]
  rw [rotated, rotated, rotated, rotateLeft_rotateLeft, ← BitVec.rotateLeft_mod_eq_rotateLeft, hsum]

theorem rotated_zero (n : Int) : rotated (⟨0#t.width⟩ : Value t) n = ⟨0#t.width⟩ := (rotated_eq_zero_iff _ n).2 rfl

/-- The sum of two counts wraps, which neither reduction of the count can tell. -/
theorem wrap_emod_promote (t : IntType) (n : Int) : t.wrap n % t.promote.width = n % t.promote.width := by
  have hdvd : (t.promote.width : Int) ∣ 2 ^ t.width := by
    obtain ⟨rank, signed⟩ := t
    cases rank <;> cases signed <;> decide
  exact Int.ModEq.of_dvd hdvd (IntType.wrap_emod t n)

theorem rotated_wrap (v : Value t) (n : Int) : rotated v (t.wrap n) = rotated v n := by
  rw [rotated, rotated, ← leftCount_emod, leftCount, wrap_emod_promote, ← leftCount, leftCount_emod]

theorem rotate_rotate_iff (v m n : Value t) :
    rotate (rotate (var v) (var m)) (var n) = rotate (var v) (var (t.ofInt (m.int + n.int))) ↔
      RotatesTwice v m.int n.int := by
  have hsum : leftCount t (t.ofInt (m.int + n.int)).int = leftCount t (m.int + n.int) := wrap_emod_promote t _
  have hrotated : rotated v (t.ofInt (m.int + n.int)).int = rotated v (m.int + n.int) := rotated_wrap v _
  have hvar : ∀ x : Value t, (pure x : Expr t) = var x := fun _ => rfl
  rw [rotate_eq v m, hvar, rotate_eq, rotate_eq, pure_value_inj, hsum, hrotated, RotatesTwice]
  by_cases hm : leftCount t m.int ≤ t.width <;> by_cases hn : leftCount t n.int ≤ t.width <;>
    by_cases hs : leftCount t (m.int + n.int) ≤ t.width <;>
    simp [hm, hn, hs, rotated_rotated, rotated_zero, eq_comm (a := (⟨0#t.width⟩ : Value t)), rotated_eq_zero_iff]

/-- A rotation is right if its count, modulo the width of the promoted type, is no more than the width of the type. -/
theorem rotate_iff (t : IntType) :
    (∀ v n : Value t, rotate (var v) (var n) = pure (rotated v n.int) ↔ RotatesRight v n.int) ∧
      ∀ v m n : Value t, rotate (rotate (var v) (var m)) (var n) = rotate (var v) (var (t.ofInt (m.int + n.int))) ↔
        RotatesTwice v m.int n.int :=
  ⟨rotate_eq_iff, rotate_rotate_iff⟩

/-- One, a char, rotated by minus one. -/
theorem rotate_one_neg_one : rotate (var (IntType.ofInt ⟨.char, true⟩ 1)) (var (IntType.ofInt ⟨.char, true⟩ (-1))) ≠
    pure (rotated (IntType.ofInt ⟨.char, true⟩ 1) (IntType.ofInt ⟨.char, true⟩ (-1)).int) := by
  decide

end OpenCRun.Library
