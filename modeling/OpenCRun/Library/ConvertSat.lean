import Mathlib.Data.Nat.Digits.Defs
import OpenCRun.Library.Convert
/-!
# Saturating conversions are exact

Two operands of a comparison have the same sign, or are converted to an
unsigned type only where they are not negative, so no comparison is changed by
the conversions to a common type.
-/
open Lib Lib.CInteger

namespace OpenCRun.Library

variable {s t : IntType} {toString : ApIntToString}

/-! ## Limits -/

theorem int_emitOCLTypeValue (h : Writes toString) (t : IntType) (isMin : Bool) :
    (emitOCLTypeValue toString t isMin).int = if isMin then t.minValue else t.maxValue := by
  rw [emitOCLTypeValue, h]
  obtain ⟨rank, signed⟩ := t
  cases rank <;> cases signed <;> cases isMin <;> decide

theorem maxValue_pos (t : IntType) : 0 < t.maxValue := by
  obtain ⟨rank, signed⟩ := t
  cases rank <;> cases signed <;> decide

theorem maxValue_le_ulong (t : IntType) : t.maxValue ≤ IntType.ulong.maxValue := by
  obtain ⟨rank, signed⟩ := t
  cases rank <;> cases signed <;> decide

theorem hexLit_computes {n : Nat} (h : IntType.ulong.InRange n) : Computes (hexLit n) n := by
  apply computes_pure
  unfold hexType
  split
  · assumption
  · split
    · assumption
    · split
      · assumption
      · exact h

/-- The magnitude of a least number may need an unsigned type, and is then converted back. -/
theorem neg_hexLit_computes (t : IntType) : Computes (cast t (neg (hexLit t.minValue.natAbs))) t.minValue := by
  obtain ⟨rank, signed⟩ := t
  cases rank <;> cases signed <;> exact ⟨by decide, by decide⟩

theorem HexLiteral.computes_expr {l : HexLiteral} (h : l.int = t.minValue ∨ l.int = t.maxValue) :
    Computes (l.expr t) l.int := by
  have hmax := maxValue_pos t
  unfold HexLiteral.int at *
  unfold HexLiteral.expr
  generalize l.nat = n at *
  cases hminus : l.minus with
  | true =>
    simp only [hminus, if_true] at h ⊢
    have hmin : -(n : Int) = t.minValue := by omega
    have hn : n = t.minValue.natAbs := by omega
    rw [hmin, hn]
    exact neg_hexLit_computes t
  | false =>
    simp only [hminus, Bool.false_eq_true, if_false] at h ⊢
    have hin : t.InRange n := by
      rcases h with h | h
      · exact h ▸ t.inRange_minValue
      · exact h ▸ t.inRange_maxValue
    have hulong := maxValue_le_ulong t
    exact (hexLit_computes ⟨Int.natCast_nonneg n, hin.2.trans hulong⟩).cast hin

theorem emitOCLDecl_computes (h : Writes toString) (t : IntType) (isMin : Bool) :
    Computes (emitOCLDecl toString t isMin) (if isMin then t.minValue else t.maxValue) := by
  have hint := int_emitOCLTypeValue h t isMin
  rw [← hint]
  apply HexLiteral.computes_expr
  cases isMin
  · exact .inr hint
  · exact .inl hint

/-! ## Comparisons -/

/-- The comparisons are those of the numbers. -/
def Decides (cmp : Comparisons) (a : Expr s) (b : Expr t) (x y : Int) : Prop :=
  cmp.lt a b = pure (decide (x < y)) ∧ cmp.gt a b = pure (decide (x > y))

section Operands
variable {a : Expr s} {b : Expr t} {x y : Int}

theorem decides_exact (ha : Computes a x) (hb : Computes b y) : Decides .exact a b x y := by
  have hval : ∀ r : Int → Int → Bool, (do let x ← a; let y ← b; pure (r x.int y.int) : Checked Bool) = pure (r x y) := by
    intro r
    apply Checked.ext
    · rw [← ha.value, ← hb.value]
      rfl
    · simp only [Checked.ok_bind, Checked.ok_pure, ha.ok, hb.ok, Bool.and_true]
  exact ⟨hval fun m n => decide (m < n), hval fun m n => decide (m > n)⟩

/-- Types of one sign have a common type that holds both. -/
theorem inRange_common (h : s.signed = t.signed) (hx : s.InRange x) : (s.common t).InRange x ∧ (t.common s).InRange x := by
  have hlimits : (s.common t).minValue ≤ s.minValue ∧ s.maxValue ≤ (s.common t).maxValue ∧
      (t.common s).minValue ≤ s.minValue ∧ s.maxValue ≤ (t.common s).maxValue := by
    obtain ⟨r, signed⟩ := s
    obtain ⟨r', signed'⟩ := t
    cases h
    cases r <;> cases r' <;> cases signed <;> decide
  obtain ⟨hmin, hmax, hmin', hmax'⟩ := hlimits
  exact ⟨⟨hmin.trans hx.1, hx.2.trans hmax⟩, ⟨hmin'.trans hx.1, hx.2.trans hmax'⟩⟩

theorem decides_c (h : s.signed = t.signed) (ha : Computes a x) (hb : Computes b y) : Decides .c a b x y := by
  have hx := (inRange_common h ha.inRange).1
  have hy := (inRange_common h.symm hb.inRange).2
  exact ⟨compare_eq (r := fun m n => decide (m < n)) ha hb rfl hx hy,
    compare_eq (r := fun m n => decide (m > n)) ha hb rfl hx hy⟩

theorem asserted_self (r : Bool) : asserted (pure r) (pure r) = pure r := by
  cases r <;> rfl

theorem decides_asserted (h : s.signed = t.signed) (ha : Computes a x) (hb : Computes b y) :
    Decides .asserted a b x y := by
  obtain ⟨hlt, hgt⟩ := decides_c h ha hb
  obtain ⟨hlt', hgt'⟩ := decides_exact ha hb
  constructor
  · exact (congrArg₂ asserted hlt hlt').trans (asserted_self _)
  · exact (congrArg₂ asserted hgt hgt').trans (asserted_self _)

end Operands

theorem inRange_unsigned {x : Int} (hx : t.InRange x) (hpos : 0 ≤ x) : t.unsigned.InRange x := by
  have hmax : t.maxValue ≤ t.unsigned.maxValue := by
    obtain ⟨rank, signed⟩ := t
    cases rank <;> cases signed <;> decide
  exact ⟨(IntType.minValue_of_unsigned rfl).trans_le hpos, hx.2.trans hmax⟩

/-! ## Bodies -/

section Bodies
variable {cmp : Comparisons} {param1 : Expr s} {retMin retMax : Expr t} {x : Int}

theorem convertSatSiSi_computes (hx : Computes param1 x) (hmin : Computes retMin t.minValue)
    (hmax : Computes retMax t.maxValue) (hlt : Decides cmp param1 retMin x t.minValue)
    (hgt : Decides cmp param1 retMax x t.maxValue) : Computes (convertSatSiSi cmp retMin retMax param1) (t.clamp x) := by
  rw [convertSatSiSi, hlt.1, hgt.2]
  simp only [pure_bind, decide_eq_true_eq]
  split
  · next h => exact IntType.clamp_of_lt h ▸ hmin
  · split
    · next h => exact IntType.clamp_of_gt h ▸ hmax
    · next h h' =>
      have hin : t.InRange x := ⟨not_lt.1 h, not_lt.1 h'⟩
      rw [IntType.clamp_of_inRange hin]
      exact hx.cast hin

/-- With no operand below the range. -/
theorem convertSatUiUi_computes (hx : Computes param1 x) (hlow : t.minValue ≤ x) (hmax : Computes retMax t.maxValue)
    (hgt : Decides cmp param1 retMax x t.maxValue) : Computes (convertSatUiUi cmp retMax param1) (t.clamp x) := by
  rw [convertSatUiUi, hgt.2]
  simp only [pure_bind, decide_eq_true_eq]
  split
  · next h => exact IntType.clamp_of_gt h ▸ hmax
  · next h =>
    have hin : t.InRange x := ⟨hlow, not_lt.1 h⟩
    rw [IntType.clamp_of_inRange hin]
    exact hx.cast hin

theorem convertSatUiSi_computes (ht : t.signed = false) (hx : Computes param1 x) (hmax : Computes retMax t.maxValue)
    (hlt : Decides cmp param1 (lit 0) x 0)
    (hgt : 0 ≤ x → Decides cmp (cast s.unsigned param1) retMax x t.maxValue) :
    Computes (convertSatUiSi cmp retMax param1) (t.clamp x) := by
  have hzero := IntType.minValue_of_unsigned ht
  rw [convertSatUiSi, hlt.1]
  by_cases hneg : x < 0
  · simp only [pure_bind, decide_eq_true hneg, if_true]
    rw [IntType.clamp_of_lt (by omega), hzero]
    exact (computes_lit (by decide)).cast t.inRange_zero
  · simp only [pure_bind, decide_eq_false hneg, Bool.false_eq_true, if_false]
    rw [(hgt (not_lt.1 hneg)).2]
    simp only [pure_bind, decide_eq_true_eq]
    split
    · next h => exact IntType.clamp_of_gt h ▸ hmax
    · next h =>
      have hin : t.InRange x := ⟨by omega, not_lt.1 h⟩
      rw [IntType.clamp_of_inRange hin]
      exact hx.cast hin

theorem convertSatSiUi_computes (hx : Computes param1 x) (hlow : t.minValue ≤ x) (hmax : Computes retMax t.maxValue)
    (hgt : Decides cmp param1 (cast t.unsigned retMax) x t.maxValue) :
    Computes (convertSatSiUi cmp retMax param1) (t.clamp x) := by
  rw [convertSatSiUi, hgt.2]
  simp only [pure_bind, decide_eq_true_eq]
  split
  · next h => exact IntType.clamp_of_gt h ▸ hmax
  · next h =>
    have hin : t.InRange x := ⟨hlow, not_lt.1 h⟩
    rw [IntType.clamp_of_inRange hin]
    exact hx.cast hin

/-- With any comparisons that decide as those of the numbers do. -/
theorem convertSat_computes (h : Writes toString) (t : IntType) (hx : Computes param1 x)
    (hcmp : ∀ {u v : IntType} {a : Expr u} {b : Expr v} {m n : Int}, u.signed = v.signed → Computes a m → Computes b n →
      Decides cmp a b m n) : Computes (convertSat cmp toString t param1) (t.clamp x) := by
  have hmin : Computes (emitOCLDecl toString t true) t.minValue := emitOCLDecl_computes h t true
  have hmax : Computes (emitOCLDecl toString t false) t.maxValue := emitOCLDecl_computes h t false
  have hunsigned : ∀ {u : IntType} {y : Int}, u.signed = false → u.InRange y → 0 ≤ y :=
    fun hu hy => IntType.minValue_of_unsigned hu ▸ hy.1
  unfold convertSat
  cases ht : t.signed <;> cases hs : s.signed
  · simp only [hmax.bind]
    have hlow := hunsigned hs hx.inRange
    exact convertSatUiUi_computes hx (by rwa [IntType.minValue_of_unsigned ht]) hmax.var
      (hcmp (hs.trans ht.symm) hx hmax.var)
  · simp only [hmax.bind]
    refine convertSatUiSi_computes ht hx hmax.var (hcmp hs hx (computes_lit (by decide))) fun hpos => ?_
    have hin : s.unsigned.InRange x := inRange_unsigned hx.inRange hpos
    exact hcmp ht.symm (hx.cast hin) hmax.var
  · simp only [hmax.bind]
    have hlow := hunsigned hs hx.inRange
    have hin : t.unsigned.InRange t.maxValue := inRange_unsigned t.inRange_maxValue (maxValue_pos t).le
    exact convertSatSiUi_computes hx (t.inRange_zero.1.trans hlow) hmax.var (hcmp hs hx (hmax.var.cast hin))
  · simp only [hmin.bind, hmax.bind]
    exact convertSatSiSi_computes hx hmin.var hmax.var (hcmp (hs.trans ht.symm) hx hmin.var)
      (hcmp (hs.trans ht.symm) hx hmax.var)

end Bodies

/-- The exact number, clamped. The second part is that every comparison on the way is that of the numbers. -/
theorem convert_sat_exact (toString : ApIntToString) (h : Writes toString) (s t : IntType) (x : Value s) :
    Computes (convertSat .c toString t (var x)) (t.clamp x.int) ∧
      Computes (convertSat .asserted toString t (var x)) (t.clamp x.int) :=
  ⟨convertSat_computes h t (computes_var x) decides_c, convertSat_computes h t (computes_var x) decides_asserted⟩

/-- A formatter that writes the digits without leading zeros. -/
def apIntToString : ApIntToString := fun _ v isSigned =>
  let n : Int := if isSigned then v.toInt else v.toNat
  ⟨decide (n < 0), (Nat.digits 16 n.natAbs).reverse.map (Fin.ofNat 16)⟩

theorem foldl_digits {l : List Nat} (h : ∀ d ∈ l, d < 16) :
    (l.reverse.map (Fin.ofNat 16)).foldl (fun n d => 16 * n + d.val) 0 = Nat.ofDigits 16 l := by
  rw [List.map_reverse, List.foldl_reverse]
  induction l with
  | nil => rfl
  | cons d l ih =>
    have hd : (Fin.ofNat 16 d).val = d := Nat.mod_eq_of_lt (h d List.mem_cons_self)
    rw [List.map_cons, List.foldr_cons, ih fun c hc => h c (List.mem_cons_of_mem d hc), Nat.ofDigits_cons, hd]
    exact Nat.add_comm _ _

theorem writes_apIntToString : Writes apIntToString := by
  intro w v isSigned
  generalize hn : (if isSigned then v.toInt else v.toNat : Int) = n
  have hdigits : (apIntToString w v isSigned).nat = n.natAbs := by
    rw [HexLiteral.nat, apIntToString, hn]
    exact (foldl_digits fun d hd => Nat.digits_lt_base (by decide) hd).trans (Nat.ofDigits_digits 16 _)
  have hminus : (apIntToString w v isSigned).minus = decide (n < 0) := by rw [apIntToString, hn]
  rw [HexLiteral.int, hminus, hdigits]
  by_cases hneg : n < 0
  · simp only [hneg, decide_true, if_true]
    omega
  · simp only [hneg, decide_false, Bool.false_eq_true, if_false]
    omega

/-- The least `long` as a `char`. -/
theorem convert_sat_exact_min :
    Computes (convertSat .c apIntToString ⟨.char, true⟩ (var (IntType.long.ofInt (-2 ^ 63)))) (-128) :=
  (convert_sat_exact apIntToString writes_apIntToString .long ⟨.char, true⟩ (IntType.long.ofInt (-2 ^ 63))).1

end OpenCRun.Library
