import OpenCRun.Lib.CInteger
/-!
# Times

`System/Time.h`: a time has its seconds and its nanoseconds. Subtracting two
times takes the fields apart, and the constructor brings whole seconds over
from the nanoseconds, but none back to them.
-/
open Lib Lib.CInteger

namespace OpenCRun

/-- Both fields are of type `int64_t`. -/
structure Time where
  seconds : Value .long
  nanoSeconds : Value .long
  deriving DecidableEq, Repr

namespace Time

/-- `NanoInSeconds` -/
def nanoInSeconds : Expr .long := var (IntType.long.ofInt 1000000000)

/-- `InvalidTime` -/
def invalidTime : Value .long := IntType.long.ofInt (-2 ^ 63)

/-- The constructor without arguments. -/
def invalid : Time := ⟨invalidTime, invalidTime⟩

def new (seconds nanoSeconds : Expr .long) : Checked Time := do
  let s ← cast .long (seconds + nanoSeconds / nanoInSeconds)
  let n ← cast .long (nanoSeconds % nanoInSeconds)
  pure ⟨s, n⟩

def isValid (t : Time) : Bool := decide (0 ≤ t.seconds.int) && decide (0 ≤ t.nanoSeconds.int)

def asLong (t : Time) : Expr .ulong := cast .ulong (var t.seconds * nanoInSeconds + var t.nanoSeconds)

/-- `operator-` -/
def sub (t t' : Time) : Checked Time :=
  new (cast .long (var t.seconds - var t'.seconds)) (cast .long (var t.nanoSeconds - var t'.nanoSeconds))

/-- The exact number of nanoseconds. -/
def count (t : Time) : Int := t.seconds.int * 1000000000 + t.nanoSeconds.int

/-- A valid time that was constructed, of which the nanoseconds can be counted in 64 bits. -/
structure Countable (t : Time) : Prop where
  constructed : t = invalid ∨ ∃ s n, new (var s) (var n) = pure t
  valid : t.isValid = true
  inRange : IntType.long.InRange t.count

/-- The difference is a valid time of less than a second in the nanoseconds, and as a number that of the numbers. -/
structure SubtractsRightly (t t' d : Time) : Prop where
  sub : t.sub t' = pure d
  valid : d.isValid = true
  nanoSeconds : 0 ≤ d.nanoSeconds.int ∧ d.nanoSeconds.int < 1000000000
  asLong : d.asLong = cast .ulong (t.asLong - t'.asLong) ∧ d.asLong.ok = true

/-! ## What is computed -/

section Computed
variable {t t' : Time}

theorem long_inRange_iff {n : Int} : IntType.long.InRange n ↔ -2 ^ 63 ≤ n ∧ n ≤ 2 ^ 63 - 1 := Iff.rfl

theorem ulong_inRange_iff {n : Int} : IntType.ulong.InRange n ↔ 0 ≤ n ∧ n ≤ 2 ^ 64 - 1 := Iff.rfl

theorem computes_nano : Computes nanoInSeconds 1000000000 := computes_pure (by decide)

theorem tdiv_of_lt {n : Int} (h : n.natAbs < 1000000000) : n.tdiv 1000000000 = 0 := by
  refine Int.natAbs_eq_zero.1 ?_
  rw [Int.natAbs_tdiv]
  exact Nat.div_eq_of_lt h

theorem tmod_of_lt {n : Int} (h : n.natAbs < 1000000000) : n.tmod 1000000000 = n := by
  rw [Int.tmod_def, tdiv_of_lt h, mul_zero, sub_zero]

/-- Less than a second of nanoseconds, either way, is left as it is. -/
theorem new_eq {a b : Expr .long} {s n : Int} (ha : Computes a s) (hb : Computes b n) (hn : n.natAbs < 1000000000) :
    new a b = pure ⟨IntType.long.ofInt s, IntType.long.ofInt n⟩ := by
  have hquot : Computes (b / nanoInSeconds) 0 := tdiv_of_lt hn ▸ hb.div computes_nano rfl hb.inRange computes_nano.inRange
    (by decide) ((tdiv_of_lt hn).symm ▸ IntType.inRange_zero _)
  have hrem : Computes (b % nanoInSeconds) n := by
    have hmod := hb.mod computes_nano rfl hb.inRange computes_nano.inRange (by decide) ((tmod_of_lt hn).symm ▸ hb.inRange)
    rwa [tmod_of_lt hn] at hmod
  have hsum : Computes (a + b / nanoInSeconds) (s + 0) :=
    ha.add hquot rfl ha.inRange (IntType.inRange_zero _) ((add_zero s).symm ▸ ha.inRange)
  rw [add_zero] at hsum
  rw [new, (hsum.cast ha.inRange).bind, (hrem.cast hb.inRange).bind]

/-- The nanoseconds of a valid time are less than a second. -/
theorem Countable.nano_lt (h : Countable t) : t.nanoSeconds.int < 1000000000 := by
  rcases h.constructed with rfl | ⟨s, n, hnew⟩
  · exact absurd h.valid (by decide)
  · have hlt : n.int.tmod 1000000000 < 1000000000 := Int.tmod_lt_of_pos _ (by decide)
    have hgt : -1000000000 < n.int.tmod 1000000000 := Int.lt_tmod_of_pos _ (by decide)
    have hrange : IntType.long.InRange (n.int.tmod 1000000000) := long_inRange_iff.2 (by omega)
    have hfield : t.nanoSeconds = IntType.long.ofInt (IntType.long.ofInt
        ((IntType.long.ofInt n.int).int.tmod (IntType.long.ofInt 1000000000).int)).int :=
      congrArg (fun c => c.val.nanoSeconds) hnew.symm
    rw [IntType.ofInt_int, IntType.ofInt_int] at hfield
    calc t.nanoSeconds.int = IntType.long.wrap (n.int.tmod 1000000000) := congrArg Value.int hfield
      _ = n.int.tmod 1000000000 := IntType.wrap_of_inRange hrange
      _ < 1000000000 := hlt

theorem Countable.fields (h : Countable t) : 0 ≤ t.seconds.int ∧ 0 ≤ t.nanoSeconds.int := by
  simpa [isValid] using h.valid

/-- As a number, a time is the count of its nanoseconds. -/
theorem computes_asLong (hsec : 0 ≤ t.seconds.int) (hnano : 0 ≤ t.nanoSeconds.int) (hrange : IntType.long.InRange t.count) :
    Computes t.asLong t.count := by
  unfold count at hrange ⊢
  have hbound := long_inRange_iff.1 hrange
  have hmul : IntType.long.InRange (t.seconds.int * 1000000000) := long_inRange_iff.2 (by omega)
  have hulong : IntType.ulong.InRange (t.seconds.int * 1000000000 + t.nanoSeconds.int) := ulong_inRange_iff.2 (by omega)
  have hprod := (computes_var t.seconds).mul computes_nano rfl (IntType.int_inRange _) computes_nano.inRange hmul
  exact (hprod.add (computes_var t.nanoSeconds) rfl hmul (IntType.int_inRange _) hrange).cast hulong

theorem Countable.asLong (h : Countable t) : Computes t.asLong t.count := computes_asLong h.fields.1 h.fields.2 h.inRange

theorem inRange_diff {x y : Value .long} (hx : 0 ≤ x.int) (hy : 0 ≤ y.int) : IntType.long.InRange (x.int - y.int) := by
  have hx' := long_inRange_iff.1 (IntType.int_inRange x)
  have hy' := long_inRange_iff.1 (IntType.int_inRange y)
  exact long_inRange_iff.2 (by omega)

theorem computes_diff {x y : Value .long} (hx : 0 ≤ x.int) (hy : 0 ≤ y.int) :
    Computes (cast .long (var x - var y)) (x.int - y.int) := by
  have hrange := inRange_diff hx hy
  exact ((computes_var x).sub (computes_var y) rfl (IntType.int_inRange _) (IntType.int_inRange _) hrange).cast hrange

/-- The fields of the difference are the differences of the fields. -/
theorem sub_eq (h : Countable t) (h' : Countable t') : t.sub t' =
    pure ⟨IntType.long.ofInt (t.seconds.int - t'.seconds.int),
      IntType.long.ofInt (t.nanoSeconds.int - t'.nanoSeconds.int)⟩ := by
  obtain ⟨hsec, hnano⟩ := h.fields
  obtain ⟨hsec', hnano'⟩ := h'.fields
  have hlt := h.nano_lt
  have hlt' := h'.nano_lt
  exact new_eq (computes_diff hsec hsec') (computes_diff hnano hnano') (by omega)

end Computed

/-- A time from its fields. -/
def ofFields (s n : Int) : Time := ⟨IntType.long.ofInt s, IntType.long.ofInt n⟩

section Differences
variable {t t' : Time}

/-- What subtracting gives. -/
def diff (t t' : Time) : Time := ofFields (t.seconds.int - t'.seconds.int) (t.nanoSeconds.int - t'.nanoSeconds.int)

theorem diff_seconds (h : Countable t) (h' : Countable t') : (diff t t').seconds.int = t.seconds.int - t'.seconds.int :=
  IntType.wrap_of_inRange (inRange_diff h.fields.1 h'.fields.1)

theorem diff_nanoSeconds (h : Countable t) (h' : Countable t') :
    (diff t t').nanoSeconds.int = t.nanoSeconds.int - t'.nanoSeconds.int :=
  IntType.wrap_of_inRange (inRange_diff h.fields.2 h'.fields.2)

/-- Whatever its fields, a difference counts what is between the times. -/
theorem diff_count (h : Countable t) (h' : Countable t') : (diff t t').count = t.count - t'.count := by
  rw [count, diff_seconds h h', diff_nanoSeconds h h', count, count]
  ring

/-- The difference, where no field of it is negative. -/
theorem subtractsRightly_diff (h : Countable t) (h' : Countable t') (hsec : t'.seconds.int ≤ t.seconds.int)
    (hnano : t'.nanoSeconds.int ≤ t.nanoSeconds.int) : SubtractsRightly t t' (diff t t') := by
  have hseconds : 0 ≤ (diff t t').seconds.int := by rw [diff_seconds h h']; omega
  have hnanos : 0 ≤ (diff t t').nanoSeconds.int := by rw [diff_nanoSeconds h h']; omega
  refine ⟨sub_eq h h', ?_, ⟨hnanos, ?_⟩, ?_⟩
  · rw [isValid, decide_eq_true hseconds, decide_eq_true hnanos]
    rfl
  · have hlt := h.nano_lt
    have hpos := h'.fields.2
    rw [diff_nanoSeconds h h']
    omega
  · -- Both numbers are exact, and so is their difference.
    have hrange := long_inRange_iff.1 h.inRange
    have hle : t'.count ≤ t.count := by
      unfold count
      omega
    have hpos : 0 ≤ t'.count := by
      have := h'.fields
      unfold count
      omega
    have hd := computes_asLong hseconds hnanos (by rw [diff_count h h']; exact long_inRange_iff.2 (by omega))
    rw [diff_count h h'] at hd
    have hulong : IntType.ulong.InRange (t.count - t'.count) := ulong_inRange_iff.2 (by omega)
    have hsub := (h.asLong.sub h'.asLong rfl h.asLong.inRange h'.asLong.inRange hulong).cast hulong
    exact ⟨hd.eq_pure.trans hsub.eq_pure.symm, hd.ok⟩

/-- A difference is right exactly where no second has to be taken from the seconds. -/
theorem subtractsRightly_iff (h : Countable t) (h' : Countable t') (hle : t'.count ≤ t.count) :
    (∃ d, SubtractsRightly t t' d) ↔ t'.nanoSeconds.int ≤ t.nanoSeconds.int := by
  constructor
  · rintro ⟨d, hd⟩
    obtain rfl : d = diff t t' := congrArg Checked.val (hd.sub.symm.trans (sub_eq h h'))
    have hpos := hd.nanoSeconds.1
    rw [diff_nanoSeconds h h'] at hpos
    omega
  · intro hnano
    have hlt := h.nano_lt
    have hpos := h'.fields.2
    unfold count at hle
    exact ⟨_, subtractsRightly_diff h h' (by omega) hnano⟩

/-- Fields in range are those of a time that the constructor makes. -/
theorem countable_ofFields {s n : Int} (hs : 0 ≤ s) (hn : 0 ≤ n ∧ n < 1000000000) (hcount : s * 1000000000 + n < 2 ^ 63) :
    Countable (ofFields s n) := by
  have hsec : IntType.long.InRange s := long_inRange_iff.2 (by omega)
  have hnano : IntType.long.InRange n := long_inRange_iff.2 (by omega)
  have hseconds : (ofFields s n).seconds.int = s := IntType.wrap_of_inRange hsec
  have hnanos : (ofFields s n).nanoSeconds.int = n := IntType.wrap_of_inRange hnano
  refine ⟨.inr ⟨IntType.long.ofInt s, IntType.long.ofInt n, ?_⟩, ?_, ?_⟩
  · have hns := computes_var (IntType.long.ofInt n)
    have hlt : (ofFields s n).nanoSeconds.int.natAbs < 1000000000 := by omega
    have hnew := new_eq (computes_var (IntType.long.ofInt s)) hns hlt
    rwa [show (IntType.long.ofInt s).int = s from hseconds, show (IntType.long.ofInt n).int = n from hnanos] at hnew
  · rw [isValid, hseconds, hnanos, decide_eq_true hs, decide_eq_true hn.1]
    rfl
  · rw [count, hseconds, hnanos]
    exact long_inRange_iff.2 (by omega)

theorem threeSeconds_sub_oneSecond : ∃ d, SubtractsRightly (ofFields 3 500) (ofFields 1 200) d :=
  (subtractsRightly_iff (countable_ofFields (by decide) (by decide) (by decide))
    (countable_ofFields (by decide) (by decide) (by decide)) (by decide)).2 (by decide)

/-- From one second, a nanosecond is taken as a negative one. -/
theorem oneSecond_sub_oneNano : Countable (ofFields 1 0) ∧ Countable (ofFields 0 1) ∧
    (ofFields 0 1).count ≤ (ofFields 1 0).count ∧ ¬ ∃ d, SubtractsRightly (ofFields 1 0) (ofFields 0 1) d := by
  refine ⟨countable_ofFields (by decide) (by decide) (by decide), countable_ofFields (by decide) (by decide) (by decide),
    by decide, ?_⟩
  rintro ⟨d, hd⟩
  have hsub : (ofFields 1 0).sub (ofFields 0 1) = pure (ofFields 1 (-1)) := by decide
  obtain rfl : d = ofFields 1 (-1) := congrArg Checked.val (hd.sub.symm.trans hsub)
  exact absurd hd.valid (by decide)

end Differences
end Time
end OpenCRun
