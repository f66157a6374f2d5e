import OpenCRun.Lib.IntegerRounding
import OpenCRun.Library.ConvertReal
/-!
# Conversions of integers to real numbers

The helpers that are to round in one direction return their parameter, and so
round to the nearest. There are variants for signed and for unsigned sources,
but both are over all integers: the generator takes the first implementation.
-/
open Lib Lib.CInteger Lib.BinaryFormat

namespace OpenCRun.Library.ConvertToReal

/-! ## The helpers -/

/-- `return x`: an integer that is returned as a real number is rounded to the nearest. -/
def internalCvt (p : IntType) (r : RealType) (x : Expr p) : Checked ℚ := do
  let n ← x
  pure (r.format.ofInt n.int)

/-- A helper, with the type of its parameter. -/
structure Helper where
  param : IntType
  call : Expr param → Checked ℚ

def internalOclSi2fRtz : Helper := ⟨.long, internalCvt .long .float⟩
def internalOclSi2dRtz : Helper := ⟨.long, internalCvt .long .double⟩
def internalOclSi2fRtp : Helper := ⟨.long, internalCvt .long .float⟩
def internalOclSi2dRtp : Helper := ⟨.long, internalCvt .long .double⟩
def internalOclSi2fRtn : Helper := ⟨.long, internalCvt .long .float⟩
def internalOclUi2fRtn : Helper := ⟨.ulong, internalCvt .ulong .float⟩
def internalOclSi2dRtn : Helper := ⟨.long, internalCvt .long .double⟩
def internalOclUi2dRtn : Helper := ⟨.ulong, internalCvt .ulong .double⟩

/-! ## The implementations -/

/-- The rounding modes that have helpers. -/
inductive Direction where
  | rtz | rtp | rtn
  deriving DecidableEq, Repr

/-- The variants with an integer as the source. -/
inductive Variant where
  | fSi | fUi | dSi | dUi
  deriving DecidableEq, Repr

/-- The type that a variant returns. -/
def Variant.real : Variant → RealType
  | fSi | fUi => .float
  | dSi | dUi => .double

/-- The signature is one of the variant: its operands are one real type and `ocl_gentype_integer`. -/
def Variant.expandsTo (v : Variant) (r : RealType) (_t : IntType) : Bool := decide (v.real = r)

structure Impl where
  variantName : Variant
  helper : Helper

/-- `blt_convert_all_to_real`, in the order of the source. -/
def implementations : Direction → List Impl
  | .rtz => [⟨.fSi, internalOclSi2fRtz⟩, ⟨.fUi, internalOclSi2fRtz⟩, ⟨.dSi, internalOclSi2dRtz⟩, ⟨.dUi, internalOclSi2dRtz⟩]
  | .rtp => [⟨.fSi, internalOclSi2fRtp⟩, ⟨.fUi, internalOclSi2fRtp⟩, ⟨.dSi, internalOclSi2dRtp⟩, ⟨.dUi, internalOclSi2dRtp⟩]
  | .rtn => [⟨.fSi, internalOclSi2fRtn⟩, ⟨.fUi, internalOclUi2fRtn⟩, ⟨.dSi, internalOclSi2dRtn⟩, ⟨.dUi, internalOclUi2dRtn⟩]

/-- The loop of `EmitOCLBuiltinImpls`, for one signature. All of these have the name of a variant and none is for
a target, so that one which is there stays. -/
def selected (impls : List Impl) (r : RealType) (t : IntType) : Option Impl :=
  impls.foldl (fun chosen impl =>
    if impl.variantName.expandsTo r t then
      match chosen with
      | none => some impl
      | some old => some old
    else chosen) none

/-- `convert_T` of an integer, with the conversion to the type of the helper's parameter. -/
def convertToReal (impls : List Impl) (r : RealType) (t : IntType) (param1 : Expr t) : Option (Checked ℚ) :=
  (selected impls r t).map fun impl => impl.helper.call (cast impl.helper.param param1)

theorem selected_eq_find (impls : List Impl) (r : RealType) (t : IntType) :
    selected impls r t = impls.find? fun impl => impl.variantName.expandsTo r t := by
  have hsome : ∀ (impls : List Impl) (old : Impl), impls.foldl (fun chosen impl =>
      if impl.variantName.expandsTo r t then
        match chosen with
        | none => some impl
        | some old => some old
      else chosen) (some old) = some old := by
    intro impls old
    induction impls with
    | nil => rfl
    | cons impl impls ih => rw [List.foldl_cons, ite_self, ih]
  unfold selected
  induction impls with
  | nil => rfl
  | cons impl impls ih =>
    rw [List.foldl_cons, List.find?_cons]
    cases impl.variantName.expandsTo r t with
    | true => exact hsome impls impl
    | false => exact ih

/-- Whatever the order, one of the implementations of the real type is taken. -/
theorem selected_of_perm {d : Direction} {impls : List Impl} (h : impls.Perm (implementations d)) (r : RealType)
    (t : IntType) : ∃ impl ∈ implementations d, selected impls r t = some impl ∧ impl.variantName.real = r := by
  have hsome : (impls.find? fun impl => impl.variantName.expandsTo r t).isSome := by
    rw [List.find?_isSome]
    obtain ⟨impl, hmem, himpl⟩ : ∃ impl ∈ implementations d, impl.variantName.expandsTo r t = true := by
      cases d <;> cases r <;> simp [implementations, Variant.expandsTo, Variant.real]
    exact ⟨impl, h.mem_iff.2 hmem, himpl⟩
  obtain ⟨impl, himpl⟩ := Option.isSome_iff_exists.1 hsome
  have hexpands := @List.find?_some Impl (fun impl => impl.variantName.expandsTo r t) impl impls himpl
  refine ⟨impl, h.mem_iff.1 (List.mem_of_find?_eq_some himpl), ?_, of_decide_eq_true hexpands⟩
  rw [selected_eq_find, himpl]

/-- Every helper rounds a `long` or an `ulong`. -/
theorem helper_of_mem {d : Direction} {impl : Impl} (h : impl ∈ implementations d) :
    (impl.helper.param = .long ∨ impl.helper.param = .ulong) ∧
      ∀ x, impl.helper.call x = internalCvt impl.helper.param impl.variantName.real x := by
  cases d <;> simp only [implementations, List.mem_cons, List.not_mem_nil, or_false] at h <;>
    rcases h with rfl | rfl | rfl | rfl <;>
    first
    | exact ⟨.inl rfl, fun _ => rfl⟩
    | exact ⟨.inr rfl, fun _ => rfl⟩

/-! ## Directions -/

/-- The number of the format that a direction takes for a number. -/
def Directed (d : Direction) (f : Format) (x y : ℚ) : Prop :=
  match d with
  | .rtn => IsGreatest {z | f.Finite z ∧ z ≤ x} y
  | .rtp => IsLeast {z | f.Finite z ∧ x ≤ z} y
  | .rtz => ∃ lo hi, IsGreatest {z | f.Finite z ∧ z ≤ x} lo ∧ IsLeast {z | f.Finite z ∧ x ≤ z} hi ∧
      y = if |lo| ≤ |hi| then lo else hi

/-- The integer that a direction takes. -/
def Direction.round : Direction → ℚ → Int
  | rtz => truncate
  | rtp => Int.ceil
  | rtn => Int.floor

/-- The nearest integer is the one of the direction. -/
def NearestDirected : Direction → ℚ → Prop
  | .rtz, q => NearZero q
  | .rtp, q => Int.fract q = 0 ∨ ¬ NearFloor q
  | .rtn, q => NearFloor q

theorem roundEven_eq_ceil_iff (q : ℚ) : roundEven q = ⌈q⌉ ↔ Int.fract q = 0 ∨ ¬ NearFloor q := by
  have hfloor := roundEven_eq_floor_iff q
  by_cases hint : Int.fract q = 0
  · have hnear : NearFloor q := .inl (by rw [hint]; norm_num)
    refine iff_of_true ?_ (.inl hint)
    rw [hfloor.2 hnear, (ceil_eq_floor_iff q).2 hint]
  · rw [ceil_eq_floor_add_one hint, or_iff_right hint, ← hfloor]
    have hcases := roundEven_cases q
    omega

theorem roundEven_eq_round_iff (d : Direction) (q : ℚ) : roundEven q = d.round q ↔ NearestDirected d q := by
  cases d with
  | rtz => exact eq_comm.trans (truncate_eq_roundEven_iff q)
  | rtp => exact roundEven_eq_ceil_iff q
  | rtn => exact roundEven_eq_floor_iff q

section Directed
variable {f : Format} {n : Int}

theorem nearer_to_zero {lo hi q u : ℚ} (hu : 0 < u) (hlo : lo = ⌊q⌋ * u) (hhi : hi = ⌈q⌉ * u) :
    (if |lo| ≤ |hi| then lo else hi) = truncate q * u := by
  subst hlo hhi
  have hle : ((⌊q⌋ : Int) : ℚ) ≤ ⌈q⌉ := (Int.floor_le q).trans (Int.le_ceil q)
  have hscale : |(⌊q⌋ : ℚ) * u| ≤ |(⌈q⌉ : ℚ) * u| ↔ |(⌊q⌋ : ℚ)| ≤ |(⌈q⌉ : ℚ)| := by
    rw [abs_mul, abs_mul, mul_le_mul_iff_of_pos_right (abs_pos.2 hu.ne')]
  unfold truncate
  simp only [hscale]
  by_cases hq : 0 ≤ q
  · have hfloor : (0 : ℚ) ≤ ⌊q⌋ := by exact_mod_cast Int.floor_nonneg.2 hq
    rw [if_pos hq, if_pos (by rwa [abs_of_nonneg hfloor, abs_of_nonneg (hfloor.trans hle)])]
  · have hceil : (⌈q⌉ : ℚ) ≤ 0 := by
      have hceil := Int.ceil_le.2 ((not_le.1 hq).le.trans_eq Int.cast_zero.symm)
      exact_mod_cast hceil
    rw [if_neg hq, abs_of_nonpos (hle.trans hceil), abs_of_nonpos hceil]
    split
    · next heq => rw [le_antisymm hle (neg_le_neg_iff.1 heq)]
    · rfl

theorem directed_iff (d : Direction) {y : ℚ} (hn : (f.excess n : Int) < f.maxExp) :
    Directed d f n y ↔ y = d.round (f.scaled n) * 2 ^ f.excess n := by
  have hlo := Format.isGreatest_floor hn
  have hhi := Format.isLeast_ceil hn
  cases d with
  | rtn => exact ⟨fun h => h.unique hlo, fun h => h ▸ hlo⟩
  | rtp => exact ⟨fun h => h.unique hhi, fun h => h ▸ hhi⟩
  | rtz =>
    have hunit : (0 : ℚ) < 2 ^ f.excess n := by positivity
    constructor
    · rintro ⟨lo, hi, hlo', hhi', rfl⟩
      exact nearer_to_zero hunit (hlo'.unique hlo) (hhi'.unique hhi)
    · rintro rfl
      exact ⟨_, _, hlo, hhi, (nearer_to_zero hunit rfl rfl).symm⟩

/-- The direction keeps the sign. -/
theorem Directed.sign {d : Direction} {y : ℚ} (h : Directed d f n y) : (0 < n → 0 < y) ∧ (n < 0 → y < 0) := by
  have hfinite : ∀ i : Int, |i| = 1 → f.Finite i := fun i hi => Format.finite_intCast (hi ▸ one_le_pow₀ (by decide))
  have hlo : ∀ lo, IsGreatest {z | f.Finite z ∧ z ≤ n} lo → (0 < n → 0 < lo) ∧ (n < 0 → lo < 0) := by
    refine fun lo hlo => ⟨fun hn => ?_, fun hn => hlo.1.2.trans_lt (by exact_mod_cast hn)⟩
    have hone := hlo.2 ⟨hfinite 1 rfl, by exact_mod_cast hn⟩
    exact lt_of_lt_of_le (by norm_num) hone
  have hhi : ∀ hi, IsLeast {z | f.Finite z ∧ (n : ℚ) ≤ z} hi → (0 < n → 0 < hi) ∧ (n < 0 → hi < 0) := by
    refine fun hi hhi => ⟨fun hn => lt_of_lt_of_le (by exact_mod_cast hn) hhi.1.2, fun hn => ?_⟩
    have hone := hhi.2 ⟨hfinite (-1) rfl, by exact_mod_cast (by omega : n ≤ -1)⟩
    exact lt_of_le_of_lt hone (by norm_num)
  cases d with
  | rtn => exact hlo y h
  | rtp => exact hhi y h
  | rtz =>
    obtain ⟨lo, hi, hlo', hhi', rfl⟩ := h
    split
    · exact hlo lo hlo'
    · exact hhi hi hhi'

/-- A number that the precision does not reach far is rounded within the format. -/
theorem excess_lt (r : RealType) {t : IntType} (h : t.InRange n) : (r.format.excess n : Int) < r.format.maxExp := by
  have hbound : n.natAbs < 2 ^ 65 := by
    obtain ⟨rank, signed⟩ := t
    obtain ⟨hlo, hhi⟩ := h
    cases rank <;> cases signed <;> simp [IntType.minValue, IntType.maxValue, IntType.width, Rank.width] at hlo hhi <;> omega
  have hlog : Nat.log2 n.natAbs < 65 := by
    rcases Nat.eq_zero_or_pos n.natAbs with hzero | hpos
    · rw [hzero, Nat.log2_zero]
      decide
    · exact (Nat.log2_lt hpos.ne').2 hbound
  unfold Format.excess
  cases r <;> simp only [RealType.format, Format.float, Format.double] <;> omega

/-- The nearest number is the directed one if it is so among the multiples of the unit. -/
theorem directed_ofInt_iff (d : Direction) (r : RealType) {t : IntType} (h : t.InRange n) :
    Directed d r.format n (r.format.ofInt n) ↔ NearestDirected d (r.format.scaled n) := by
  have hunit : (2 : ℚ) ^ r.format.excess n ≠ 0 := by positivity
  rw [directed_iff d (excess_lt r h), Format.ofInt_eq, mul_left_inj' hunit, Int.cast_inj, roundEven_eq_round_iff]

end Directed

/-! ## The conversions -/

theorem ofInt_nonneg (r : RealType) {n : Int} (h : 0 ≤ n) : 0 ≤ r.format.ofInt n := by
  have hround := le_round_of_le (n := 0) .rte
    (by exact_mod_cast Format.scaled_nonneg_iff.2 h : ((0 : Int) : ℚ) ≤ r.format.scaled n)
  rw [Format.ofInt_eq]
  exact mul_nonneg (by exact_mod_cast hround) (by positivity)

theorem ofInt_nonpos (r : RealType) {n : Int} (h : n ≤ 0) : r.format.ofInt n ≤ 0 := by
  have hscaled : r.format.scaled n ≤ ((0 : Int) : ℚ) := by
    have hneg := Format.scaled_nonneg_iff (f := r.format).2 (by omega : 0 ≤ -n)
    rw [Format.scaled_neg] at hneg
    push_cast
    linarith
  have hround := round_le_of_le .rte hscaled
  rw [Format.ofInt_eq]
  exact mul_nonpos_of_nonpos_of_nonneg (by exact_mod_cast hround) (by positivity)

/-- A number that the parameter's type does not have changes its sign. -/
theorem wrap_sign {p t : IntType} {n : Int} (hp : p = .long ∨ p = .ulong) (hn : t.InRange n) (h : ¬ p.InRange n) :
    (0 < n ∧ p.wrap n ≤ 0) ∨ (n < 0 ∧ 0 ≤ p.wrap n) := by
  have hlarge : -2 ^ 63 ≤ n ∧ n < 2 ^ 64 := by
    obtain ⟨rank, signed⟩ := t
    obtain ⟨hlo, hhi⟩ := hn
    cases rank <;> cases signed <;> simp [IntType.minValue, IntType.maxValue, IntType.width, Rank.width] at hlo hhi <;> omega
  have hwrap := p.wrap_inRange n
  have hmod := p.wrap_emod n
  generalize p.wrap n = w at hwrap hmod ⊢
  rcases hp with rfl | rfl <;>
    simp [IntType.InRange, IntType.minValue, IntType.maxValue, IntType.long, IntType.ulong, IntType.width, Rank.width]
      at h hwrap hmod <;> omega

/-- The number is one of the parameter's type, and the nearest number of the format lies in the direction. -/
def DirectedRight (impls : List Impl) (d : Direction) (r : RealType) (t : IntType) (x : Int) : Prop :=
  ∃ impl, selected impls r t = some impl ∧ impl.helper.param.InRange x ∧ NearestDirected d (r.format.scaled x)

/-- The implementations come in any order. -/
theorem convertToReal_directed_iff (d : Direction) (impls : List Impl) (h : impls.Perm (implementations d)) (r : RealType)
    (t : IntType) (x : Value t) :
    (∃ y, convertToReal impls r t (var x) = some (pure y) ∧ Directed d r.format x.int y) ↔
      DirectedRight impls d r t x.int := by
  obtain ⟨impl, hmem, hselected, hreal⟩ := selected_of_perm h r t
  obtain ⟨hparam, hcall⟩ := helper_of_mem hmem
  have hconvert : convertToReal impls r t (var x) =
      some (pure (r.format.ofInt (impl.helper.param.wrap x.int))) := by
    unfold convertToReal
    rw [hselected, Option.map_some, hcall, hreal, internalCvt, (computes_var x).cast_wrap.bind]
    exact congrArg (fun n => some (pure (r.format.ofInt n))) (IntType.wrap_of_inRange (IntType.wrap_inRange _ _))
  have hright : DirectedRight impls d r t x.int ↔
      impl.helper.param.InRange x.int ∧ NearestDirected d (r.format.scaled x.int) := by
    unfold DirectedRight
    simp only [hselected, Option.some.injEq, exists_eq_left']
  have hx := IntType.int_inRange x
  rw [hconvert, hright]
  simp only [Option.some.injEq]
  constructor
  · rintro ⟨y, hy, hdirected⟩
    obtain rfl : r.format.ofInt (impl.helper.param.wrap x.int) = y := congrArg Checked.val hy
    have hin : impl.helper.param.InRange x.int := by
      by_contra hout
      rcases wrap_sign hparam hx hout with ⟨hpos, hwrap⟩ | ⟨hneg, hwrap⟩
      · exact absurd (hdirected.sign.1 hpos) (not_lt.2 (ofInt_nonpos r hwrap))
      · exact absurd (hdirected.sign.2 hneg) (not_lt.2 (ofInt_nonneg r hwrap))
    rw [IntType.wrap_of_inRange hin] at hdirected
    exact ⟨hin, (directed_ofInt_iff d r hx).1 hdirected⟩
  · rintro ⟨hin, hnearest⟩
    refine ⟨_, rfl, ?_⟩
    rw [IntType.wrap_of_inRange hin]
    exact (directed_ofInt_iff d r hx).2 hnearest

/-- Half a unit beyond an even multiple, which is the one below it. -/
theorem convertToReal_directed_down :
    ∃ y, convertToReal (implementations .rtn) .float .int (var (IntType.int.ofInt 16777217)) = some (pure y) ∧
      Directed .rtn Format.float (IntType.int.ofInt 16777217).int y :=
  (convertToReal_directed_iff .rtn (implementations .rtn) (List.Perm.refl _) .float .int (IntType.int.ofInt 16777217)).2
    ⟨⟨.fSi, internalOclSi2fRtn⟩, rfl, by decide +kernel, (roundEven_eq_round_iff _ _).1 (by decide +kernel)⟩

/-- The sign bit of an `ulong` is taken for a sign, also by the conversion to the number that is not below. -/
theorem convertToReal_opposite_sign :
    convertToReal (implementations .rtp) .double .ulong (var (IntType.ulong.ofInt (2 ^ 63))) = some (pure (-2 ^ 63)) ∧
      ¬ ∃ y, convertToReal (implementations .rtp) .double .ulong (var (IntType.ulong.ofInt (2 ^ 63))) = some (pure y) ∧
        Directed .rtp Format.double (IntType.ulong.ofInt (2 ^ 63)).int y := by
  constructor
  · have hval : (internalOclSi2dRtp.call (cast .long (var (IntType.ulong.ofInt (2 ^ 63))))).val = -2 ^ 63 := by
      decide +kernel
    exact congrArg some (Checked.ext hval rfl)
  · rw [show Format.double = RealType.double.format from rfl,
      convertToReal_directed_iff .rtp (implementations .rtp) (List.Perm.refl _)]
    rintro ⟨impl, himpl, hin, -⟩
    obtain rfl : ⟨.dSi, internalOclSi2dRtp⟩ = impl := Option.some.inj himpl
    exact absurd hin (by decide +kernel)

end OpenCRun.Library.ConvertToReal
