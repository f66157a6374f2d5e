import OpenCRun.Lib.BinaryFormat
import OpenCRun.Library.ConvertSat
/-!
# Conversions of real numbers to integers

Every saturating form falls back to the conversion that rounds down, and the
plain form for the nearest is a cast, which truncates.
-/
open Lib Lib.CInteger Lib.BinaryFormat

namespace OpenCRun.Library

/-! ## The code -/

inductive RealType where
  | float | double
  deriving DecidableEq, Repr

def RealType.format : RealType → Format
  | float => .float
  | double => .double

inductive RoundingMode where
  | rtz | rte | rtp | rtn
  deriving DecidableEq, Repr

section Bodies
variable {f : Format} {t : IntType}

/-- A cast of C, which truncates and has no result outside the range. -/
def castReal (t : IntType) (x : Real f) : Expr t := do
  Checked.check (decide (t.InRange (truncate x.val)))
  pure (t.ofInt (truncate x.val))

def convertRtz (param1 : Real f) : Expr t := castReal t param1.trunc
def convertRte (param1 : Real f) : Expr t := castReal t param1
def convertRtp (param1 : Real f) : Expr t := castReal t param1.ceil
def convertRtn (param1 : Real f) : Expr t := castReal t param1.floor

/-- `convert_T` with a rounding mode. -/
def convertReal (m : RoundingMode) (param1 : Real f) : Expr t :=
  match m with
  | .rtz => convertRtz param1
  | .rte => convertRte param1
  | .rtp => convertRtp param1
  | .rtn => convertRtn param1

/-- A comparison with an integer, which is converted to the real type. -/
def ltReal (x : Real f) (a : Expr t) : Checked Bool := do
  let n ← a
  pure (decide (x.val < f.ofInt n.int))

def gtReal (x : Real f) (a : Expr t) : Checked Bool := do
  let n ← a
  pure (decide (x.val > f.ofInt n.int))

/-- Variant `Sir`. -/
def convertSatSir (basicBuiltin : Real f → Expr t) (retMin retMax : Expr t) (param1 : Real f) : Expr t := do
  if ← ltReal param1 retMin then retMin
  else if ← gtReal param1 retMax then retMax
  else basicBuiltin param1

/-- Variant `Uir`. -/
def convertSatUir (basicBuiltin : Real f → Expr t) (retMax : Expr t) (param1 : Real f) : Expr t := do
  if ← gtReal param1 retMax then retMax
  else if ← ltReal param1 (lit 0) then cast t (lit 0)
  else basicBuiltin param1

/-- What each mode names as `BASIC_BUILTIN`. -/
def basicBuiltin (m : RoundingMode) : Real f → Expr t :=
  match m with
  | .rtz => convertRtn
  | .rte => convertRtn
  | .rtp => convertRtn
  | .rtn => convertRtn

/-- `convert_T_sat` with a rounding mode. -/
def convertRealSat (toString : ApIntToString) (m : RoundingMode) (param1 : Real f) : Expr t :=
  if t.signed then do
    let retMin ← emitOCLDecl toString t true
    let retMax ← emitOCLDecl toString t false
    convertSatSir (basicBuiltin m) (var retMin) (var retMax) param1
  else do
    let retMax ← emitOCLDecl toString t false
    convertSatUir (basicBuiltin m) (var retMax) param1

end Bodies

/-! ## Rounding -/

/-- The integer that a mode rounds to. -/
def RoundingMode.round : RoundingMode → ℚ → Int
  | rtz => truncate
  | rte => roundEven
  | rtp => Int.ceil
  | rtn => Int.floor

/-- The mode rounds this number down. -/
def RoundsDown : RoundingMode → ℚ → Prop
  | .rtz, x => Int.fract x = 0 ∨ 0 ≤ x
  | .rte, x => NearFloor x
  | .rtp, x => Int.fract x = 0
  | .rtn, _ => True

theorem round_eq_floor_iff (m : RoundingMode) (x : ℚ) : m.round x = ⌊x⌋ ↔ RoundsDown m x := by
  cases m with
  | rtz => exact truncate_eq_floor_iff x
  | rte => exact roundEven_eq_floor_iff x
  | rtp => exact ceil_eq_floor_iff x
  | rtn => exact iff_of_true rfl trivial

theorem round_cases (m : RoundingMode) (x : ℚ) : m.round x = ⌊x⌋ ∨ (m.round x = ⌊x⌋ + 1 ∧ Int.fract x ≠ 0) := by
  by_cases hint : Int.fract x = 0
  · left
    rw [round_eq_floor_iff]
    cases m with
    | rtz => exact .inl hint
    | rte => exact .inl (by rw [hint]; norm_num)
    | rtp => exact hint
    | rtn => exact trivial
  · have hceil := ceil_eq_floor_add_one hint
    cases m with
    | rtz =>
      rcases lt_or_ge x 0 with hneg | hpos
      · exact .inr ⟨(if_neg (not_le.2 hneg)).trans hceil, hint⟩
      · exact .inl (if_pos hpos)
    | rte => exact (roundEven_cases x).imp_right fun h => ⟨h, hint⟩
    | rtp => exact .inr ⟨hceil, hint⟩
    | rtn => exact .inl rfl

theorem le_round_of_le {n : Int} {x : ℚ} (m : RoundingMode) (h : n ≤ x) : n ≤ m.round x := by
  have hfloor := Int.le_floor.2 h
  rcases round_cases m x with heq | ⟨heq, -⟩ <;> omega

theorem round_le_of_le {n : Int} {x : ℚ} (m : RoundingMode) (h : x ≤ n) : m.round x ≤ n := by
  have hfloor : ⌊x⌋ ≤ n := Int.floor_le_iff.2 (by linarith)
  rcases round_cases m x with heq | ⟨heq, hfract⟩
  · omega
  · have hlt : (⌊x⌋ : ℚ) < n := by
      have hpos : 0 < Int.fract x := lt_of_le_of_ne (Int.fract_nonneg x) (Ne.symm hfract)
      have hx := floor_eq_sub_fract x
      linarith
    have hlt' : ⌊x⌋ < n := by exact_mod_cast hlt
    omega

/-! ## Plain conversions -/

section Plain
variable {f : Format} {t : IntType}

theorem castReal_computes_iff (x : Real f) (n : Int) :
    Computes (castReal t x) n ↔ t.InRange (truncate x.val) ∧ truncate x.val = n := by
  have hok : (castReal t x).ok = decide (t.InRange (truncate x.val)) := by
    simp only [castReal, Checked.ok_bind, Checked.ok_check, Checked.ok_pure, Bool.and_true]
  constructor
  · intro h
    have hin := of_decide_eq_true (hok.symm.trans h.ok)
    exact ⟨hin, (IntType.wrap_of_inRange hin).symm.trans h.value⟩
  · rintro ⟨hin, rfl⟩
    exact ⟨hok.trans (decide_eq_true hin), IntType.wrap_of_inRange hin⟩

theorem convertRtn_computes_iff (x : Real f) (n : Int) :
    Computes (convertRtn (t := t) x) n ↔ t.InRange ⌊x.val⌋ ∧ ⌊x.val⌋ = n := by
  have hfloor : truncate x.floor.val = ⌊x.val⌋ := truncate_intCast _
  rw [convertRtn, castReal_computes_iff, hfloor]

/-- The condition on the mode and the number of a plain conversion. -/
def PlainRight (m : RoundingMode) (x : ℚ) : Prop := m = .rte → NearZero x

theorem convertReal_iff (m : RoundingMode) (x : Real f) (h : t.InRange (m.round x.val)) :
    Computes (convertReal (t := t) m x) (m.round x.val) ↔ PlainRight m x.val := by
  cases m with
  | rtz =>
    have htrunc : truncate x.trunc.val = truncate x.val := truncate_intCast _
    refine iff_of_true ?_ (fun hm => RoundingMode.noConfusion hm)
    exact (castReal_computes_iff _ _).2 (by rw [htrunc]; exact ⟨h, rfl⟩)
  | rte =>
    have hround : RoundingMode.rte.round x.val = roundEven x.val := rfl
    rw [hround] at h
    rw [convertReal, convertRte, castReal_computes_iff, hround, truncate_eq_roundEven_iff, PlainRight]
    constructor
    · rintro ⟨-, hnear⟩ -
      exact hnear
    · intro hnear
      have heq := (truncate_eq_roundEven_iff x.val).2 (hnear rfl)
      exact ⟨heq ▸ h, hnear rfl⟩
  | rtp =>
    have hceil : truncate x.ceil.val = ⌈x.val⌉ := truncate_intCast _
    refine iff_of_true ?_ (fun hm => RoundingMode.noConfusion hm)
    exact (castReal_computes_iff _ _).2 (by rw [hceil]; exact ⟨h, rfl⟩)
  | rtn =>
    refine iff_of_true ?_ (fun hm => RoundingMode.noConfusion hm)
    exact (convertRtn_computes_iff _ _).2 ⟨h, rfl⟩

end Plain

/-! ## Saturating conversions -/

section Limits
variable (r : RealType) (t : IntType)

theorem ofInt_minValue : r.format.ofInt t.minValue = t.minValue := by
  obtain ⟨rank, signed⟩ := t
  cases r <;> cases rank <;> cases signed <;> decide +kernel

/-- The bits of a number that is not negative. -/
def magnitudeBits (t : IntType) : Nat := if t.signed then t.width - 1 else t.width

theorem maxValue_eq : (t.maxValue : ℚ) = 2 ^ magnitudeBits t - 1 := by
  obtain ⟨rank, signed⟩ := t
  cases rank <;> cases signed <;> decide +kernel

/-- The greatest number is rounded up if the precision does not reach it. -/
theorem ofInt_maxValue : r.format.ofInt t.maxValue = t.maxValue ∨
    (r.format.ofInt t.maxValue = 2 ^ magnitudeBits t ∧ r.format.precision ≤ magnitudeBits t) := by
  obtain ⟨rank, signed⟩ := t
  cases r <;> cases rank <;> cases signed <;> decide +kernel

end Limits

section Saturating
variable {r : RealType} {t : IntType}

/-- A number beyond a limit, as that is compared. -/
def BeyondLimits (r : RealType) (t : IntType) (x : ℚ) : Prop :=
  x < t.minValue ∨ r.format.ofInt t.maxValue < x

/-- The condition on the type, the mode and the number of a saturating conversion. -/
def SatRight (r : RealType) (t : IntType) (m : RoundingMode) (x : ℚ) : Prop :=
  BeyondLimits r t x ∨ (x ≤ t.maxValue ∧ RoundsDown m x)

theorem maxValue_le_ofInt (r : RealType) (t : IntType) : (t.maxValue : ℚ) ≤ r.format.ofInt t.maxValue := by
  rcases ofInt_maxValue r t with h | ⟨h, -⟩
  · exact h.ge
  · rw [h, maxValue_eq]
    linarith

theorem clamp_round_of_lt {m : RoundingMode} {x : ℚ} (h : x < t.minValue) : t.clamp (m.round x) = t.minValue := by
  have hle := round_le_of_le m h.le
  rcases hle.lt_or_eq with hlt | heq
  · exact IntType.clamp_of_lt hlt
  · rw [heq]
    exact IntType.clamp_of_inRange t.inRange_minValue

theorem clamp_round_of_gt {m : RoundingMode} {x : ℚ} (h : r.format.ofInt t.maxValue < x) :
    t.clamp (m.round x) = t.maxValue := by
  have hle := le_round_of_le m ((maxValue_le_ofInt r t).trans h.le)
  rcases hle.lt_or_eq with hlt | heq
  · exact IntType.clamp_of_gt hlt
  · rw [← heq]
    exact IntType.clamp_of_inRange t.inRange_maxValue

/-- What is left to the conversion that rounds down. -/
theorem convertRtn_clamp_iff (m : RoundingMode) (x : Real r.format) (hmin : (t.minValue : ℚ) ≤ x.val)
    (hmax : x.val ≤ r.format.ofInt t.maxValue) :
    Computes (convertRtn (t := t) x) (t.clamp (m.round x.val)) ↔ SatRight r t m x.val := by
  have hbeyond : ¬ BeyondLimits r t x.val := not_or.2 ⟨not_lt.2 hmin, not_lt.2 hmax⟩
  have hlow : t.minValue ≤ ⌊x.val⌋ := Int.le_floor.2 hmin
  rw [convertRtn_computes_iff, SatRight, or_iff_right hbeyond, ← round_eq_floor_iff]
  by_cases hle : x.val ≤ t.maxValue
  · have hfloor : t.InRange ⌊x.val⌋ := ⟨hlow, Int.floor_le_iff.2 (by linarith)⟩
    have hround : t.InRange (m.round x.val) := ⟨le_round_of_le m hmin, round_le_of_le m hle⟩
    rw [IntType.clamp_of_inRange hround, and_iff_right hfloor, and_iff_right hle, eq_comm]
  · refine iff_of_false (fun h => ?_) (fun h => hle h.1)
    have hlt : x.val < t.maxValue + 1 := by
      have hx := Int.lt_floor_add_one x.val
      have hfloor : (⌊x.val⌋ : ℚ) ≤ t.maxValue := by exact_mod_cast h.1.2
      linarith
    rcases ofInt_maxValue r t with hexact | ⟨hup, hprecision⟩
    · exact hle (hexact ▸ hmax)
    · have hmaxValue := maxValue_eq t
      have hbefore := x.finite.le_of_lt_two_pow hprecision (by linarith)
      exact hle (by linarith)

theorem ltReal_eq {n : Int} {a : Expr t} (x : Real r.format) (ha : Computes a n) :
    ltReal x a = pure (decide (x.val < r.format.ofInt n)) := by
  have hn : (t.ofInt n).int = n := IntType.wrap_of_inRange ha.inRange
  rw [ltReal, ha.bind, hn]

theorem gtReal_eq {n : Int} {a : Expr t} (x : Real r.format) (ha : Computes a n) :
    gtReal x a = pure (decide (x.val > r.format.ofInt n)) := by
  have hn : (t.ofInt n).int = n := IntType.wrap_of_inRange ha.inRange
  rw [gtReal, ha.bind, hn]

/-- The bodies compare with both limits first. -/
theorem convertRealSat_iff {toString : ApIntToString} (h : Writes toString) (m : RoundingMode) (x : Real r.format) :
    Computes (convertRealSat (t := t) toString m x) (t.clamp (m.round x.val)) ↔ SatRight r t m x.val := by
  have hmin : Computes (emitOCLDecl toString t true) t.minValue := emitOCLDecl_computes h t true
  have hmax : Computes (emitOCLDecl toString t false) t.maxValue := emitOCLDecl_computes h t false
  have hbasic : basicBuiltin m x = convertRtn (t := t) x := by cases m <;> rfl
  unfold convertRealSat
  cases ht : t.signed with
  | true =>
    simp only [if_true, hmin.bind, hmax.bind]
    rw [convertSatSir, ltReal_eq x hmin.var, gtReal_eq x hmax.var, ofInt_minValue]
    simp only [pure_bind, decide_eq_true_eq]
    split
    · next hbelow =>
      rw [clamp_round_of_lt hbelow]
      exact iff_of_true hmin.var (.inl (.inl hbelow))
    · next hlow =>
      split
      · next habove =>
        rw [clamp_round_of_gt habove]
        exact iff_of_true hmax.var (.inl (.inr habove))
      · next hhigh =>
        rw [hbasic]
        exact convertRtn_clamp_iff m x (not_lt.1 hlow) (not_lt.1 hhigh)
  | false =>
    have hzero := IntType.minValue_of_unsigned ht
    have hzeroReal : r.format.ofInt 0 = t.minValue := hzero ▸ ofInt_minValue r t
    simp only [Bool.false_eq_true, if_false, hmax.bind]
    rw [convertSatUir, gtReal_eq x hmax.var, ltReal_eq x (computes_lit (n := 0) (by decide)), hzeroReal]
    simp only [pure_bind, decide_eq_true_eq]
    split
    · next habove =>
      rw [clamp_round_of_gt habove]
      exact iff_of_true hmax.var (.inl (.inr habove))
    · next hhigh =>
      split
      · next hbelow =>
        rw [clamp_round_of_lt hbelow, hzero]
        exact iff_of_true ((computes_lit (by decide)).cast t.inRange_zero) (.inl (.inl hbelow))
      · next hlow =>
        rw [hbasic]
        exact convertRtn_clamp_iff m x (not_lt.1 hlow) (not_lt.1 hhigh)

end Saturating

/-- A saturating conversion, and a plain one of a number that is rounded into the range. -/
theorem convert_real_iff (toString : ApIntToString) (h : Writes toString) (r : RealType) (t : IntType) (m : RoundingMode)
    (x : Real r.format) :
    (Computes (convertRealSat (t := t) toString m x) (t.clamp (m.round x.val)) ↔ SatRight r t m x.val) ∧
      (t.InRange (m.round x.val) →
        (Computes (convertReal (t := t) m x) (m.round x.val) ↔ PlainRight m x.val)) :=
  ⟨convertRealSat_iff h m x, convertReal_iff m x⟩

def oneHalf : Real RealType.float.format := ⟨1 / 2, 1, -1, by decide, by decide, by decide, by norm_num⟩

theorem convert_real_half_down :
    Computes (convertRealSat (t := .int) apIntToString .rtn oneHalf) 0 ∧
      Computes (convertReal (t := .int) .rtn oneHalf) 0 := by
  obtain ⟨hsat, hplain⟩ := convert_real_iff apIntToString writes_apIntToString .float .int .rtn oneHalf
  have hround : RoundingMode.rtn.round oneHalf.val = 0 := by decide +kernel
  rw [hround] at hsat hplain
  exact ⟨hsat.2 (.inr ⟨by decide +kernel, trivial⟩), (hplain (by decide)).2 fun hm => RoundingMode.noConfusion hm⟩

/-- Up, which the saturating form takes to be down. -/
theorem convert_real_half_up : ¬ Computes (convertRealSat (t := .int) apIntToString .rtp oneHalf)
    (IntType.int.clamp (RoundingMode.rtp.round oneHalf.val)) := by
  rw [convertRealSat_iff writes_apIntToString .rtp oneHalf]
  rintro ((hlow | hhigh) | ⟨-, hdown⟩)
  · exact absurd hlow (by decide +kernel)
  · exact absurd hhigh (by decide +kernel)
  · have hfract : Int.fract oneHalf.val ≠ 0 := by decide +kernel
    exact hfract hdown

end OpenCRun.Library
