import Mathlib.Data.Int.ModEq
import Mathlib.Tactic.Linarith
import Mathlib.Tactic.Ring
import OpenCRun.Lib.Checked
/-!
# The integers of C

Integer types, with an `int` of 32 bits and a `long` of 64, and the operators.
An operand that is narrower than `int` is promoted, and two operands are
converted to a common type. A signed result that does not fit in its type is
undefined, and so is a quotient by zero; the value is then the wrapped one.
Counts of shifts are taken modulo the width, as OpenCL C has it.
-/
namespace Lib.CInteger

/-! ## Types -/

inductive Rank where
  | char | short | int | long
  deriving DecidableEq, Repr

def Rank.width : Rank → Nat
  | char => 8
  | short => 16
  | int => 32
  | long => 64

structure IntType where
  rank : Rank
  signed : Bool
  deriving DecidableEq, Repr

namespace IntType

def int : IntType := ⟨.int, true⟩
def uint : IntType := ⟨.int, false⟩
def long : IntType := ⟨.long, true⟩
def ulong : IntType := ⟨.long, false⟩

abbrev width (t : IntType) : Nat := t.rank.width

def unsigned (t : IntType) : IntType := ⟨t.rank, false⟩

def minValue (t : IntType) : Int := if t.signed then -2 ^ (t.width - 1) else 0

def maxValue (t : IntType) : Int := if t.signed then 2 ^ (t.width - 1) - 1 else 2 ^ t.width - 1

def InRange (t : IntType) (n : Int) : Prop := t.minValue ≤ n ∧ n ≤ t.maxValue

instance (t : IntType) (n : Int) : Decidable (t.InRange n) := inferInstanceAs (Decidable (_ ∧ _))

/-- The nearest number of the range. -/
def clamp (t : IntType) (n : Int) : Int := max t.minValue (min t.maxValue n)

/-- The integer promotions. -/
def promote (t : IntType) : IntType :=
  match t.rank with
  | .char | .short => int
  | .int | .long => t

/-- The usual arithmetic conversions. -/
def common (s t : IntType) : IntType :=
  let s := s.promote
  let t := t.promote
  if s.rank = t.rank then ⟨s.rank, s.signed && t.signed⟩
  else if s.rank = .long then s
  else t

end IntType

/-- A value, by its bits. -/
@[ext] structure Value (t : IntType) where
  bits : BitVec t.width
  deriving DecidableEq, Repr

/-- The number that a value stands for. -/
def Value.int {t : IntType} (x : Value t) : Int := if t.signed then x.bits.toInt else x.bits.toNat

namespace IntType

variable {s t : IntType} {m n : Int}

/-- What a number is converted to. -/
def ofInt (t : IntType) (n : Int) : Value t := ⟨BitVec.ofInt t.width n⟩

/-- The number that is left of a number after a conversion. -/
def wrap (t : IntType) (n : Int) : Int := (t.ofInt n).int

theorem width_pos (t : IntType) : 0 < t.width := by
  obtain ⟨rank, signed⟩ := t
  cases rank <;> exact Nat.zero_lt_succ _

theorem maxValue_sub_minValue (t : IntType) : t.maxValue - t.minValue = 2 ^ t.width - 1 := by
  obtain ⟨rank, signed⟩ := t
  cases rank <;> cases signed <;> decide

theorem inRange_zero (t : IntType) : t.InRange 0 := by
  obtain ⟨rank, signed⟩ := t
  cases rank <;> cases signed <;> decide

theorem InRange.promote (h : t.InRange n) : t.promote.InRange n := by
  obtain ⟨rank, signed⟩ := t
  cases rank <;> cases signed <;> simp [InRange, minValue, maxValue, promote, int, width, Rank.width] at h ⊢ <;> omega

theorem minValue_le_maxValue (t : IntType) : t.minValue ≤ t.maxValue := t.inRange_zero.1.trans t.inRange_zero.2

theorem minValue_of_unsigned (h : t.signed = false) : t.minValue = 0 := if_neg (by rw [h]; exact Bool.false_ne_true)

theorem clamp_of_inRange (h : t.InRange n) : t.clamp n = n := by
  obtain ⟨hlo, hhi⟩ := h
  unfold clamp
  omega

theorem clamp_of_gt (h : t.maxValue < n) : t.clamp n = t.maxValue := by
  have hle := t.minValue_le_maxValue
  unfold clamp
  omega

theorem clamp_of_lt (h : n < t.minValue) : t.clamp n = t.minValue := by
  have hle := t.minValue_le_maxValue
  unfold clamp
  omega

theorem width_le_promote (t : IntType) : t.width ≤ t.promote.width := by
  obtain ⟨rank, signed⟩ := t
  cases rank <;> cases signed <;> decide

theorem inRange_maxValue (t : IntType) : t.InRange t.maxValue := ⟨t.minValue_le_maxValue, le_rfl⟩

theorem inRange_minValue (t : IntType) : t.InRange t.minValue := ⟨le_rfl, t.minValue_le_maxValue⟩

@[simp] theorem promote_promote (t : IntType) : t.promote.promote = t.promote := by
  obtain ⟨rank, signed⟩ := t
  cases rank <;> rfl

@[simp] theorem common_self (t : IntType) : t.common t = t.promote := by
  obtain ⟨rank, signed⟩ := t
  cases rank <;> cases signed <;> rfl

@[simp] theorem common_promote (s t : IntType) : s.common t.promote = s.common t := by
  rw [common, common, promote_promote]

@[simp] theorem promote_common (s t : IntType) : s.promote.common t = s.common t := by
  rw [common, common, promote_promote]

@[simp] theorem common_int (t : IntType) : t.common int = t.promote := by
  obtain ⟨rank, signed⟩ := t
  cases rank <;> cases signed <;> rfl

@[simp] theorem int_common (t : IntType) : int.common t = t.promote := by
  obtain ⟨rank, signed⟩ := t
  cases rank <;> cases signed <;> rfl

theorem width_le_common (s t : IntType) : s.width ≤ (s.common t).width := by
  obtain ⟨r, signed⟩ := s
  obtain ⟨r', signed'⟩ := t
  cases r <;> cases r' <;> cases signed <;> cases signed' <;> decide

theorem InRange.div_two_pow (h : t.InRange n) (k : Nat) : t.InRange (n / 2 ^ k) := by
  have hpos : (0 : Int) < 2 ^ k := Int.pow_pos (by decide)
  have hone : (1 : Int) ≤ 2 ^ k := hpos
  have hmin : t.minValue * 2 ^ k ≤ t.minValue * 1 := mul_le_mul_of_nonpos_left hone t.inRange_zero.1
  have hmax : t.maxValue * 1 ≤ t.maxValue * 2 ^ k := mul_le_mul_of_nonneg_left hone t.inRange_zero.2
  obtain ⟨hlo, hhi⟩ := h
  constructor
  · exact Int.le_ediv_of_mul_le hpos (by omega)
  · exact Int.ediv_le_of_le_mul hpos (by omega)

/-! ### Conversions -/

theorem int_inRange (x : Value t) : t.InRange x.int := by
  obtain ⟨rank, signed⟩ := t
  have hlt := x.bits.isLt
  have hlo := BitVec.le_two_mul_toInt (x := x.bits)
  have hhi := BitVec.two_mul_toInt_lt (x := x.bits)
  cases rank <;> cases signed <;> simp [InRange, minValue, maxValue, Value.int, width, Rank.width] at * <;> omega

theorem ofInt_int (x : Value t) : t.ofInt x.int = x := by
  obtain ⟨bits⟩ := x
  unfold ofInt Value.int
  split
  · rw [BitVec.ofInt_toInt]
  · rw [BitVec.ofInt_natCast, BitVec.ofNat_toNat, BitVec.setWidth_eq]

theorem int_injective {x y : Value t} (h : x.int = y.int) : x = y := by
  rw [← ofInt_int x, h, ofInt_int]

theorem ofInt_eq_iff : t.ofInt m = t.ofInt n ↔ m % 2 ^ t.width = n % 2 ^ t.width := by
  have hpos : (0 : Int) < 2 ^ t.width := Int.pow_pos (by decide)
  unfold ofInt
  rw [Value.mk.injEq, ← BitVec.toNat_inj, BitVec.toNat_ofInt, BitVec.toNat_ofInt, Nat.cast_pow, Nat.cast_ofNat,
    ← Int.ofNat_inj, Int.toNat_of_nonneg (Int.emod_nonneg _ hpos.ne'), Int.toNat_of_nonneg (Int.emod_nonneg _ hpos.ne')]

theorem wrap_inRange (t : IntType) (n : Int) : t.InRange (t.wrap n) := int_inRange _

theorem wrap_emod (t : IntType) (n : Int) : t.wrap n % 2 ^ t.width = n % 2 ^ t.width :=
  ofInt_eq_iff.1 (ofInt_int (t.ofInt n))

theorem wrap_eq_iff : t.wrap m = t.wrap n ↔ m % 2 ^ t.width = n % 2 ^ t.width := by
  rw [← ofInt_eq_iff]
  exact ⟨int_injective, congrArg Value.int⟩

/-- Two numbers of the range that are the same modulo its length are the same. -/
theorem eq_of_emod_eq (hm : t.InRange m) (hn : t.InRange n) (h : m % 2 ^ t.width = n % 2 ^ t.width) : m = n := by
  have hlength := t.maxValue_sub_minValue
  obtain ⟨hm1, hm2⟩ := hm
  obtain ⟨hn1, hn2⟩ := hn
  have hdvd : (2 : Int) ^ t.width ∣ m - n := Int.ModEq.dvd (Int.ModEq.symm h)
  have habs : |m - n| < 2 ^ t.width := abs_lt.2 ⟨by omega, by omega⟩
  exact sub_eq_zero.1 (Int.eq_zero_of_abs_lt_dvd hdvd habs)

theorem wrap_of_unsigned (h : t.signed = false) (n : Int) : t.wrap n = n % 2 ^ t.width := by
  have hlength := t.maxValue_sub_minValue
  have hpos : (0 : Int) < 2 ^ t.width := Int.pow_pos (by decide)
  have hrange := t.wrap_inRange n
  unfold InRange at hrange
  rw [minValue_of_unsigned h] at hrange hlength
  rw [← wrap_emod, Int.emod_eq_of_lt hrange.1 (by omega)]

theorem wrap_of_inRange (h : t.InRange n) : t.wrap n = n := eq_of_emod_eq (wrap_inRange t n) h (wrap_emod t n)

theorem wrap_eq_iff_dvd (h : t.InRange n) : t.wrap m = n ↔ (2 : Int) ^ t.width ∣ m - n := by
  rw [← Int.modEq_iff_dvd, Int.ModEq, eq_comm (a := n % _), ← wrap_eq_iff, wrap_of_inRange h]

/-- Of two conversions the last decides, if the first keeps as many bits. -/
theorem wrap_wrap (h : t.width ≤ s.width) (n : Int) : t.wrap (s.wrap n) = t.wrap n := by
  rw [wrap_eq_iff]
  have hdvd : (2 : Int) ^ t.width ∣ 2 ^ s.width := pow_dvd_pow 2 h
  rw [← Int.emod_emod_of_dvd _ hdvd, wrap_emod, Int.emod_emod_of_dvd _ hdvd]

end IntType

/-! ## Expressions -/

/-- The value of an expression, and whether it is defined. -/
abbrev Expr (t : IntType) := Checked (Value t)

section Operators
variable {s t : IntType}

def var (x : Value t) : Expr t := pure x

/-- A literal that an `int` holds. -/
def lit (n : Int) : Expr .int := pure (IntType.int.ofInt n)

/-- The type of a hexadecimal literal, the first of four that holds it. -/
def hexType (n : Nat) : IntType :=
  if IntType.int.InRange n then .int
  else if IntType.uint.InRange n then .uint
  else if IntType.long.InRange n then .long
  else .ulong

def hexLit (n : Nat) : Expr (hexType n) := pure ((hexType n).ofInt n)

def cast (t : IntType) (a : Expr s) : Expr t := (fun x => t.ofInt x.int) <$> a

/-- `sizeof` of a type, of type `size_t`. -/
def sizeof (t : IntType) : Expr .ulong := pure (IntType.ulong.ofInt (t.width / 8 : Nat))

/-- An arithmetic operator, with the operands for which there is a result. -/
def arith (f : Int → Int → Int) (ok : Int → Int → Bool) (a : Expr s) (b : Expr t) : Expr (s.common t) := do
  let x ← cast (s.common t) a
  let y ← cast (s.common t) b
  Checked.check (ok x.int y.int && (!(s.common t).signed || decide ((s.common t).InRange (f x.int y.int))))
  pure ((s.common t).ofInt (f x.int y.int))

def bitwise (f : (w : Nat) → BitVec w → BitVec w → BitVec w) (a : Expr s) (b : Expr t) : Expr (s.common t) := do
  let x ← cast (s.common t) a
  let y ← cast (s.common t) b
  pure ⟨f _ x.bits y.bits⟩

def shift (f : Int → Nat → Int) (a : Expr s) (b : Expr t) : Expr s.promote := do
  let x ← cast s.promote a
  let y ← b
  pure (s.promote.ofInt (f x.int (y.int % s.promote.width).toNat))

instance : HAdd (Expr s) (Expr t) (Expr (s.common t)) := ⟨arith (· + ·) fun _ _ => true⟩
instance : HSub (Expr s) (Expr t) (Expr (s.common t)) := ⟨arith (· - ·) fun _ _ => true⟩
instance : HMul (Expr s) (Expr t) (Expr (s.common t)) := ⟨arith (· * ·) fun _ _ => true⟩
instance : HDiv (Expr s) (Expr t) (Expr (s.common t)) := ⟨arith Int.tdiv fun _ n => n != 0⟩
instance : HMod (Expr s) (Expr t) (Expr (s.common t)) := ⟨arith Int.tmod fun _ n => n != 0⟩
instance : HAnd (Expr s) (Expr t) (Expr (s.common t)) := ⟨bitwise fun _ => (· &&& ·)⟩
instance : HOr (Expr s) (Expr t) (Expr (s.common t)) := ⟨bitwise fun _ => (· ||| ·)⟩
instance : HShiftLeft (Expr s) (Expr t) (Expr s.promote) := ⟨shift fun n k => n * 2 ^ k⟩
/-- The sign is shifted in. -/
instance : HShiftRight (Expr s) (Expr t) (Expr s.promote) := ⟨shift fun n k => n / 2 ^ k⟩

/-- `-` -/
def neg (a : Expr s) : Expr s.promote := do
  let x ← cast s.promote a
  Checked.check (!s.promote.signed || decide (s.promote.InRange (-x.int)))
  pure (s.promote.ofInt (-x.int))

/-- `~` -/
def bnot (a : Expr s) : Expr s.promote := (fun x => ⟨~~~x.bits⟩) <$> cast s.promote a

/-- A comparison, of the operands in their common type. -/
def compare (r : Int → Int → Bool) (a : Expr s) (b : Expr t) : Checked Bool := do
  let x ← cast (s.common t) a
  let y ← cast (s.common t) b
  pure (r x.int y.int)

def lt (a : Expr s) (b : Expr t) : Checked Bool := compare (fun m n => decide (m < n)) a b
def gt (a : Expr s) (b : Expr t) : Checked Bool := compare (fun m n => decide (m > n)) a b
def ge (a : Expr s) (b : Expr t) : Checked Bool := compare (fun m n => decide (m ≥ n)) a b
def eq (a : Expr s) (b : Expr t) : Checked Bool := compare (fun m n => decide (m = n)) a b
def ne (a : Expr s) (b : Expr t) : Checked Bool := compare (fun m n => decide (m ≠ n)) a b

/-- The value of a comparison. -/
def ofBool (c : Checked Bool) : Expr .int := do
  let b ← c
  lit (if b then 1 else 0)

/-- `c ? a : b` -/
def ternary (c : Checked Bool) (a : Expr s) (b : Expr t) : Expr (s.common t) := do
  if ← c then cast (s.common t) a else cast (s.common t) b

end Operators

/-! ## What is defined -/

section Defined
variable {s t : IntType} {a : Expr s} {b : Expr t}

theorem ok_cast (a : Expr s) : (CInteger.cast t a).ok = a.ok := Checked.ok_map _ _

theorem ok_bitwise (f : (w : Nat) → BitVec w → BitVec w → BitVec w) (a : Expr s) (b : Expr t) :
    (bitwise f a b).ok = (a.ok && b.ok) := by
  simp only [bitwise, Checked.ok_bind, Checked.ok_pure, ok_cast, Bool.and_true]

theorem ok_shift (f : Int → Nat → Int) (a : Expr s) (b : Expr t) : (shift f a b).ok = (a.ok && b.ok) := by
  simp only [shift, Checked.ok_bind, Checked.ok_pure, ok_cast, Bool.and_true]

/-- Unsigned sums, differences and products wrap. -/
theorem ok_arith_of_unsigned {f : Int → Int → Int} (h : (s.common t).signed = false) (ha : a.ok = true) (hb : b.ok = true) :
    (arith f (fun _ _ => true) a b).ok = true := by
  simp only [arith, Checked.ok_bind, Checked.ok_check, Checked.ok_pure, ok_cast, ha, hb, h, Bool.not_false, Bool.true_or,
    Bool.and_true]

end Defined

/-! ## What expressions compute -/

/-- The expression is defined, and its value is the number. -/
structure Computes {t : IntType} (a : Expr t) (n : Int) : Prop where
  ok : a.ok = true
  value : a.val.int = n

section Rules
variable {s t u : IntType} {a : Expr s} {b : Expr t} {m n : Int}

theorem Computes.eq_pure (h : Computes a m) : a = pure (s.ofInt m) :=
  Checked.ext (by rw [← h.value, IntType.ofInt_int]; rfl) h.ok

theorem Computes.inRange (h : Computes a m) : s.InRange m := h.value ▸ IntType.int_inRange _

theorem Computes.iff_eq (h : Computes a m) : Computes a n ↔ m = n :=
  ⟨fun h' => h.value.symm.trans h'.value, fun heq => heq ▸ h⟩

theorem computes_pure (h : s.InRange m) : Computes (pure (s.ofInt m)) m := ⟨rfl, IntType.wrap_of_inRange h⟩

theorem computes_var (x : Value s) : Computes (var x) x.int := ⟨rfl, rfl⟩

/-- A variable that is set to the value of an expression. -/
theorem Computes.bind {β : Type} (h : Computes a m) (k : Value s → Checked β) : (a >>= k) = k (s.ofInt m) := by
  rw [h.eq_pure, pure_bind]

theorem Computes.var (h : Computes a m) : Computes (CInteger.var (s.ofInt m)) m := computes_pure h.inRange

theorem computes_lit (h : IntType.int.InRange n) : Computes (lit n) n := computes_pure h

theorem Computes.cast_wrap (h : Computes a m) : Computes (cast t a) (t.wrap m) :=
  ⟨by rw [cast, Checked.ok_map, h.ok], by rw [← h.value]; rfl⟩

theorem Computes.cast (h : Computes a m) (hm : t.InRange m) : Computes (cast t a) m := by
  rw [← IntType.wrap_of_inRange hm]
  exact h.cast_wrap

theorem Computes.convert (h : Computes a m) : Computes (CInteger.cast s.promote a) m :=
  h.cast (h.inRange.promote)

/-! ### Operators -/

theorem Computes.arith {f : Int → Int → Int} {ok : Int → Int → Bool} (ha : Computes a m) (hb : Computes b n)
    (hu : s.common t = u) (hm : u.InRange m) (hn : u.InRange n) (hok : ok m n = true) (h : u.InRange (f m n)) :
    Computes (arith f ok a b) (f m n) := by
  subst hu
  have hx := ha.cast hm
  have hy := hb.cast hn
  have hval : (CInteger.arith f ok a b).val = (s.common t).ofInt (f m n) := by rw [← hx.value, ← hy.value]; rfl
  refine ⟨?_, by rw [hval]; exact IntType.wrap_of_inRange h⟩
  simp only [CInteger.arith, Checked.ok_bind, Checked.ok_check, Checked.ok_pure, hx.ok, hy.ok, hx.value, hy.value, hok,
    decide_eq_true h, Bool.or_true, Bool.and_true]

theorem Computes.add (ha : Computes a m) (hb : Computes b n) (hu : s.common t = u) (hm : u.InRange m) (hn : u.InRange n)
    (h : u.InRange (m + n)) : Computes (a + b) (m + n) := ha.arith hb hu hm hn rfl h

theorem Computes.sub (ha : Computes a m) (hb : Computes b n) (hu : s.common t = u) (hm : u.InRange m) (hn : u.InRange n)
    (h : u.InRange (m - n)) : Computes (a - b) (m - n) := ha.arith hb hu hm hn rfl h

theorem Computes.mul (ha : Computes a m) (hb : Computes b n) (hu : s.common t = u) (hm : u.InRange m) (hn : u.InRange n)
    (h : u.InRange (m * n)) : Computes (a * b) (m * n) := ha.arith hb hu hm hn rfl h

theorem Computes.div (ha : Computes a m) (hb : Computes b n) (hu : s.common t = u) (hm : u.InRange m) (hn : u.InRange n)
    (hne : n ≠ 0) (h : u.InRange (m.tdiv n)) : Computes (a / b) (m.tdiv n) :=
  ha.arith hb hu hm hn (bne_iff_ne.2 hne) h

theorem Computes.mod (ha : Computes a m) (hb : Computes b n) (hu : s.common t = u) (hm : u.InRange m) (hn : u.InRange n)
    (hne : n ≠ 0) (h : u.InRange (m.tmod n)) : Computes (a % b) (m.tmod n) :=
  ha.arith hb hu hm hn (bne_iff_ne.2 hne) h

theorem ok_left {f : Int → Int → Int} {ok : Int → Int → Bool} (h : (CInteger.arith f ok a b).ok = true) : a.ok = true := by
  simp only [CInteger.arith, CInteger.cast, Checked.ok_bind, Checked.ok_map, Bool.and_eq_true] at h
  exact h.1

theorem Computes.ok_arith_iff {f : Int → Int → Int} {ok : Int → Int → Bool} (ha : Computes a m) (hb : Computes b n)
    (hu : s.common t = u) (hm : u.InRange m) (hn : u.InRange n) (hok : ok m n = true) (hs : u.signed = true) :
    (CInteger.arith f ok a b).ok = true ↔ u.InRange (f m n) := by
  subst hu
  have hx := ha.cast hm
  have hy := hb.cast hn
  simp only [CInteger.arith, Checked.ok_bind, Checked.ok_check, Checked.ok_pure, hx.ok, hy.ok, hx.value, hy.value, hok,
    hs, Bool.not_true, Bool.false_or, Bool.true_and, Bool.and_true, decide_eq_true_eq]

/-- Sums, differences and products may be taken of numbers that are not converted yet. -/
theorem value_arith {f : Int → Int → Int} {ok : Int → Int → Bool} (a : Expr s) (b : Expr t)
    (hf : ∀ m n m' n' k : Int, m ≡ m' [ZMOD k] → n ≡ n' [ZMOD k] → f m n ≡ f m' n' [ZMOD k]) :
    (arith f ok a b).val.int = (s.common t).wrap (f a.val.int b.val.int) := by
  have hval : (arith f ok a b).val.int =
      (s.common t).wrap (f ((s.common t).wrap a.val.int) ((s.common t).wrap b.val.int)) := rfl
  rw [hval, IntType.wrap_eq_iff]
  exact hf _ _ _ _ _ (IntType.wrap_emod _ _) (IntType.wrap_emod _ _)

theorem value_add (a : Expr s) (b : Expr t) : (a + b).val.int = (s.common t).wrap (a.val.int + b.val.int) :=
  value_arith a b fun _ _ _ _ _ hm hn => hm.add hn

theorem value_sub (a : Expr s) (b : Expr t) : (a - b).val.int = (s.common t).wrap (a.val.int - b.val.int) :=
  value_arith a b fun _ _ _ _ _ hm hn => hm.sub hn

theorem value_mul (a : Expr s) (b : Expr t) : (a * b).val.int = (s.common t).wrap (a.val.int * b.val.int) :=
  value_arith a b fun _ _ _ _ _ hm hn => hm.mul hn

/-- A result that is converted to a type that is no wider was rightly taken modulo the width. -/
theorem value_cast_add (h : u.width ≤ (s.common t).width) (a : Expr s) (b : Expr t) :
    (CInteger.cast u (a + b)).val.int = u.wrap (a.val.int + b.val.int) := by
  rw [← IntType.wrap_wrap h, ← value_add]
  rfl

theorem value_cast_mul (h : u.width ≤ (s.common t).width) (a : Expr s) (b : Expr t) :
    (CInteger.cast u (a * b)).val.int = u.wrap (a.val.int * b.val.int) := by
  rw [← IntType.wrap_wrap h, ← value_mul]
  rfl

/-- A variable that is set to a value, where only values matter. -/
theorem val_bind_eq {β : Type} (h : a.val.int = m) (k : Value s → Checked β) : (a >>= k).val = (k (s.ofInt m)).val := by
  rw [Checked.val_bind, ← h, IntType.ofInt_int]

theorem value_cast (a : Expr s) : (CInteger.cast t a).val.int = t.wrap a.val.int := rfl

/-! Below a width that the common type has, values are those of the operands. -/

theorem modEq_add {w : Nat} (hw : w ≤ (s.common t).width) (ha : a.val.int ≡ m [ZMOD 2 ^ w])
    (hb : b.val.int ≡ n [ZMOD 2 ^ w]) : (a + b).val.int ≡ m + n [ZMOD 2 ^ w] := by
  rw [value_add]
  exact .trans (Int.ModEq.of_dvd (pow_dvd_pow 2 hw) (IntType.wrap_emod _ _)) (ha.add hb)

theorem modEq_sub {w : Nat} (hw : w ≤ (s.common t).width) (ha : a.val.int ≡ m [ZMOD 2 ^ w])
    (hb : b.val.int ≡ n [ZMOD 2 ^ w]) : (a - b).val.int ≡ m - n [ZMOD 2 ^ w] := by
  rw [value_sub]
  exact .trans (Int.ModEq.of_dvd (pow_dvd_pow 2 hw) (IntType.wrap_emod _ _)) (ha.sub hb)

theorem value_cast_of_modEq (h : a.val.int ≡ m [ZMOD 2 ^ t.width]) : (CInteger.cast t a).val.int = t.wrap m :=
  IntType.wrap_eq_iff.2 h

/-! ### Shifts and masks -/

theorem value_shift (f : Int → Nat → Int) (a : Expr s) (b : Expr t) :
    (shift f a b).val.int = s.promote.wrap (f a.val.int (b.val.int % s.promote.width).toNat) := by
  have hx : (CInteger.cast s.promote a).val.int = a.val.int := IntType.wrap_of_inRange (IntType.int_inRange _).promote
  have hval : (shift f a b).val.int =
      s.promote.wrap (f (CInteger.cast s.promote a).val.int (b.val.int % s.promote.width).toNat) := rfl
  rw [hval, hx]

theorem value_shl {k : Nat} (hb : b.val.int = k) (hk : k < s.promote.width) :
    (a <<< b).val.int = s.promote.wrap (a.val.int * 2 ^ k) := by
  have hval := value_shift (fun n k => n * 2 ^ k) a b
  rwa [hb, Int.emod_eq_of_lt (by omega) (by omega), Int.toNat_natCast] at hval

theorem value_shr {k : Nat} (hb : b.val.int = k) (hk : k < s.promote.width) : (a >>> b).val.int = a.val.int / 2 ^ k := by
  have hval := value_shift (fun n k => n / 2 ^ k) a b
  rw [hb, Int.emod_eq_of_lt (by omega) (by omega), Int.toNat_natCast,
    IntType.wrap_of_inRange ((IntType.int_inRange _).promote.div_two_pow k)] at hval
  exact hval

theorem modEq_shl {w k : Nat} (hw : w ≤ s.promote.width) (ha : a.val.int ≡ m [ZMOD 2 ^ w]) (hb : b.val.int = k)
    (hk : k < s.promote.width) : (a <<< b).val.int ≡ m * 2 ^ k [ZMOD 2 ^ w] := by
  rw [value_shl hb hk]
  exact .trans (Int.ModEq.of_dvd (pow_dvd_pow 2 hw) (IntType.wrap_emod _ _)) (ha.mul_right _)

theorem two_pow_width (t : IntType) : 2 ^ t.width = 2 * 2 ^ (t.width - 1) := by
  rw [← Nat.pow_succ', Nat.succ_eq_add_one, Nat.sub_add_cancel t.width_pos]

/-- A number without the sign bit. -/
theorem int_of_toNat_lt {x : Value t} (h : x.bits.toNat < 2 ^ (t.width - 1)) : x.int = x.bits.toNat := by
  have hdouble := two_pow_width t
  unfold Value.int
  split
  · exact BitVec.toInt_eq_toNat_of_lt (by omega)
  · rfl

theorem toNat_ofInt (t : IntType) (n : Int) : ((t.ofInt n).bits.toNat : Int) = n % 2 ^ t.width := by
  have hpos : (0 : Int) < 2 ^ t.width := Int.pow_pos (by decide)
  rw [IntType.ofInt, BitVec.toNat_ofInt, Nat.cast_pow, Nat.cast_ofNat, Int.toNat_of_nonneg (Int.emod_nonneg _ hpos.ne')]

/-- The low bits of a number. -/
theorem value_and_mask {k : Nat} (hb : b.val.int = 2 ^ k - 1) (hk : k < (s.common t).width) :
    (a &&& b).val.int = a.val.int % 2 ^ k := by
  have hval : (a &&& b).val.bits = ((s.common t).ofInt a.val.int).bits &&& ((s.common t).ofInt b.val.int).bits := rfl
  have hdouble := two_pow_width (s.common t)
  have hpow : 2 ^ k ≤ 2 ^ ((s.common t).width - 1) := Nat.pow_le_pow_right (by decide) (by omega)
  have hone : 1 ≤ 2 ^ k := Nat.one_le_two_pow
  have hmask : ((s.common t).ofInt b.val.int).bits.toNat = 2 ^ k - 1 := by
    have hcast : (2 : Int) ^ k - 1 = ((2 ^ k - 1 : Nat) : Int) := by
      rw [Nat.cast_sub hone, Nat.cast_pow]
      rfl
    rw [hb, hcast, IntType.ofInt, BitVec.ofInt_natCast, BitVec.toNat_ofNat, Nat.mod_eq_of_lt (by omega)]
  have hnat : (a &&& b).val.bits.toNat = ((s.common t).ofInt a.val.int).bits.toNat % 2 ^ k := by
    rw [hval, BitVec.toNat_and, hmask, Nat.and_two_pow_sub_one_eq_mod]
  have hlt : (a &&& b).val.bits.toNat < 2 ^ k := hnat ▸ Nat.mod_lt _ hone
  rw [int_of_toNat_lt (by omega), hnat, Int.natCast_emod, toNat_ofInt, Nat.cast_pow, Nat.cast_ofNat,
    Int.emod_emod_of_dvd _ (pow_dvd_pow 2 hk.le)]

theorem Computes.shr {k : Nat} (ha : Computes a m) (hb : Computes b k) (hk : k < s.promote.width) :
    Computes (a >>> b) (m / 2 ^ k) := ⟨(ok_shift _ a b).trans (by rw [ha.ok, hb.ok]; rfl), ha.value ▸ value_shr hb.value hk⟩

/-! ### Comparisons -/

theorem compare_eq {r : Int → Int → Bool} (ha : Computes a m) (hb : Computes b n) (hu : s.common t = u)
    (hm : u.InRange m) (hn : u.InRange n) : compare r a b = pure (r m n) := by
  subst hu
  have hx := ha.cast hm
  have hy := hb.cast hn
  apply Checked.ext
  · rw [← hx.value, ← hy.value]
    rfl
  · simp only [compare, Checked.ok_bind, Checked.ok_pure, hx.ok, hy.ok, Bool.and_true]

/-- Operands of one type keep their values. -/
theorem val_compare_self (r : Int → Int → Bool) (a b : Expr s) : (compare r a b).val = r a.val.int b.val.int := by
  have hpromote : s.common s = s.promote := IntType.common_self s
  have hx : (CInteger.cast (s.common s) a).val.int = a.val.int :=
    IntType.wrap_of_inRange (hpromote ▸ (IntType.int_inRange _).promote)
  have hy : (CInteger.cast (s.common s) b).val.int = b.val.int :=
    IntType.wrap_of_inRange (hpromote ▸ (IntType.int_inRange _).promote)
  have hval : (compare r a b).val = r (CInteger.cast (s.common s) a).val.int (CInteger.cast (s.common s) b).val.int := rfl
  rw [hval, hx, hy]

theorem value_ofBool (c : Checked Bool) : (ofBool c).val.int = if c.val then 1 else 0 := by
  have hval : (ofBool c).val.int = IntType.int.wrap (if c.val then 1 else 0) := rfl
  rw [hval]
  cases c.val <;> decide

@[simp] theorem pure_true_and (c : Checked Bool) : (pure true <&&> c) = c := pure_bind _ _

@[simp] theorem pure_false_and (c : Checked Bool) : (pure false <&&> c) = pure false := pure_bind _ _

@[simp] theorem pure_true_or (c : Checked Bool) : (pure true <||> c) = pure true := pure_bind _ _

@[simp] theorem pure_false_or (c : Checked Bool) : (pure false <||> c) = c := pure_bind _ _

theorem Computes.ternary_true (ha : Computes a m) (hu : s.common t = u) (h : u.InRange m) :
    Computes (ternary (pure true) a b) m := by
  subst hu
  exact ha.cast h

theorem Computes.ternary_false (hb : Computes b n) (hu : s.common t = u) (h : u.InRange n) :
    Computes (ternary (pure false) a b) n := by
  subst hu
  exact hb.cast h

end Rules

end Lib.CInteger
