import Mathlib.Algebra.Order.Ring.Int
import Mathlib.Tactic.Ring
/-!
# Strided storage

Bytes in rows and slices: a row is a run of bytes, rows and slices follow each
other at a pitch. Pitches are not negative, so the first byte is the lowest and
the last one the highest; in an address space of `m` bytes a run that begins
below zero comes out at the far end.
-/
namespace Lib

structure Strided where
  start : Int
  rowPitch : Nat
  slicePitch : Nat
  width : Nat
  rows : Nat
  slices : Nat

namespace Strided

variable {s : Strided}

def byte (s : Strided) (x y z : Nat) : Int := s.start + x + y * s.rowPitch + z * s.slicePitch

def All (s : Strided) (P : Int → Prop) : Prop := ∀ x < s.width, ∀ y < s.rows, ∀ z < s.slices, P (s.byte x y z)

def last (s : Strided) : Int := s.byte (s.width - 1) (s.rows - 1) (s.slices - 1)

structure Nonempty (s : Strided) : Prop where
  width : 0 < s.width
  rows : 0 < s.rows
  slices : 0 < s.slices

theorem byte_mono {x x' y y' z z' : Nat} (hx : x ≤ x') (hy : y ≤ y') (hz : z ≤ z') : s.byte x y z ≤ s.byte x' y' z' := by
  have hrow : (y * s.rowPitch : Int) ≤ y' * s.rowPitch := by exact_mod_cast Nat.mul_le_mul_right _ hy
  have hslice : (z * s.slicePitch : Int) ≤ z' * s.slicePitch := by exact_mod_cast Nat.mul_le_mul_right _ hz
  unfold byte
  omega

theorem byte_zero : s.byte 0 0 0 = s.start := by
  simp [byte]

theorem All.imp {P Q : Int → Prop} (h : s.All P) (hpq : ∀ p, s.start ≤ p → P p → Q p) : s.All Q := fun x hx y hy z hz =>
  hpq _ (byte_zero.symm.trans_le (byte_mono x.zero_le y.zero_le z.zero_le)) (h x hx y hy z hz)

theorem all_and {P Q : Int → Prop} : (s.All fun p => P p ∧ Q p) ↔ s.All P ∧ s.All Q := by
  constructor
  · intro h
    exact ⟨fun x hx y hy z hz => (h x hx y hy z hz).1, fun x hx y hy z hz => (h x hx y hy z hz).2⟩
  · rintro ⟨hp, hq⟩ x hx y hy z hz
    exact ⟨hp x hx y hy z hz, hq x hx y hy z hz⟩

/-- What holds of all bytes holds of the last one. -/
theorem All.last (hs : s.Nonempty) {P : Int → Prop} (h : s.All P) : P s.last :=
  h _ (Nat.sub_lt hs.width one_pos) _ (Nat.sub_lt hs.rows one_pos) _ (Nat.sub_lt hs.slices one_pos)

theorem all_lt_iff (hs : s.Nonempty) (n : Int) : s.All (· < n) ↔ s.last < n := by
  constructor
  · exact All.last hs
  · intro h x hx y hy z hz
    exact lt_of_le_of_lt (byte_mono (by omega) (by omega) (by omega)) h

/-- Rows, and slices if there are more than one, that do not reach into the next ones. -/
structure Apart (s : Strided) : Prop where
  row : s.width ≤ s.rowPitch
  slice : 1 < s.slices → s.rows * s.rowPitch ≤ s.slicePitch

theorem digit_inj {p a a' q q' : Nat} (ha : a < p) (ha' : a' < p) (h : a + q * p = a' + q' * p) : a = a' ∧ q = q' := by
  have hmod := congrArg (· % p) h
  simp only [Nat.add_mul_mod_self_right, Nat.mod_eq_of_lt ha, Nat.mod_eq_of_lt ha'] at hmod
  have hdiv := congrArg (· / p) h
  simp only [Nat.add_mul_div_right _ _ (Nat.zero_lt_of_lt ha), Nat.div_eq_of_lt ha, Nat.div_eq_of_lt ha'] at hdiv
  omega

/-- A row ends in its slice. -/
theorem Apart.row_lt (h : s.Apart) (hslices : 1 < s.slices) {x y : Nat} (hx : x < s.width) (hy : y < s.rows) :
    x + y * s.rowPitch < s.slicePitch :=
  calc x + y * s.rowPitch < s.rowPitch + y * s.rowPitch := Nat.add_lt_add_right (lt_of_lt_of_le hx h.row) _
    _ = (y + 1) * s.rowPitch := by rw [Nat.succ_mul, Nat.add_comm]
    _ ≤ s.rows * s.rowPitch := Nat.mul_le_mul_right _ hy
    _ ≤ s.slicePitch := h.slice hslices

/-- Each byte has an address of its own. -/
theorem byte_inj (h : s.Apart) {x x' y y' z z' : Nat} (hx : x < s.width) (hx' : x' < s.width) (hy : y < s.rows)
    (hy' : y' < s.rows) (hz : z < s.slices) (hz' : z' < s.slices) (heq : s.byte x y z = s.byte x' y' z') :
    x = x' ∧ y = y' ∧ z = z' := by
  have hnat : x + y * s.rowPitch + z * s.slicePitch = x' + y' * s.rowPitch + z' * s.slicePitch := by
    unfold byte at heq
    refine Int.ofNat_inj.1 ?_
    push_cast
    omega
  have hslice : x + y * s.rowPitch = x' + y' * s.rowPitch ∧ z = z' := by
    by_cases hslices : 1 < s.slices
    · exact digit_inj (h.row_lt hslices hx hy) (h.row_lt hslices hx' hy') hnat
    · obtain rfl : z = z' := by omega
      exact ⟨Nat.add_right_cancel hnat, rfl⟩
  obtain ⟨hx, hy⟩ := digit_inj (lt_of_lt_of_le hx h.row) (lt_of_lt_of_le hx' h.row) hslice.1
  exact ⟨hx, hy, hslice.2⟩

/-- Going up from below zero by a step at a time, either the end is below zero too or a point comes
less than a step below it. -/
theorem exists_crossing {a : Int} (step : Int) (ha : a < 0) (n : Nat) :
    a + n * step < 0 ∨ ∃ i ≤ n, -step ≤ a + i * step ∧ a + i * step < 0 := by
  induction n with
  | zero => exact .inl (by simpa using ha)
  | succ n ih =>
    rcases ih with h | ⟨i, hi, h⟩
    · by_cases hneg : a + (n + 1 : Nat) * step < 0
      · exact .inl hneg
      · refine .inr ⟨n, by omega, ?_, h⟩
        have hnext : a + (n + 1 : Nat) * step = a + n * step + step := by
          push_cast
          ring
        omega
    · exact .inr ⟨i, by omega, h⟩

/-- A storage that begins below zero, and does not end further below it than `n`, has a byte there. -/
theorem exists_negative (hs : s.Nonempty) {n : Int} (hn : 1 ≤ n) (hrow : s.rowPitch ≤ n) (hslice : s.slicePitch ≤ n)
    (hlast : -n ≤ s.last) (hstart : s.start < 0) :
    ∃ x < s.width, ∃ y < s.rows, ∃ z < s.slices, -n ≤ s.byte x y z ∧ s.byte x y z < 0 := by
  obtain ⟨hw, hr, hl⟩ := hs
  -- first along the slices, then along the rows of the last one, then along its last row
  rcases exists_crossing s.slicePitch hstart (s.slices - 1) with hz | ⟨z, hz, hlow, hneg⟩
  · rcases exists_crossing s.rowPitch hz (s.rows - 1) with hy | ⟨y, hy, hlow, hneg⟩
    · rcases exists_crossing 1 hy (s.width - 1) with hx | ⟨x, hx, hlow, hneg⟩
      · refine ⟨s.width - 1, by omega, s.rows - 1, by omega, s.slices - 1, by omega, hlast, ?_⟩
        unfold byte
        omega
      · refine ⟨x, by omega, s.rows - 1, by omega, s.slices - 1, by omega, ?_, ?_⟩ <;> unfold byte <;> omega
    · refine ⟨0, hw, y, by omega, s.slices - 1, by omega, ?_, ?_⟩ <;> unfold byte <;> omega
  · refine ⟨0, hw, 0, hr, z, by omega, ?_, ?_⟩ <;> unfold byte <;> omega

/-- Modulo `m`, the bytes of a storage that ends below `size` are below it if it does not begin
below zero. -/
theorem all_emod_lt_iff (hs : s.Nonempty) {m size : Int} (hsize : 0 ≤ size) (hroom : 1 ≤ m - size)
    (hrow : s.rowPitch ≤ m - size) (hslice : s.slicePitch ≤ m - size) (hlow : -(m - size) ≤ s.last)
    (hlast : s.last < size) : s.All (fun p => p % m < size) ↔ 0 ≤ s.start := by
  constructor
  · intro h
    by_contra hstart
    obtain ⟨x, hx, y, hy, z, hz, hge, hneg⟩ := exists_negative hs hroom hrow hslice hlow (not_le.1 hstart)
    have hmod : s.byte x y z % m = s.byte x y z + m := by
      rw [← Int.add_emod_right, Int.emod_eq_of_lt (by omega) (by omega)]
    have hlt := h x hx y hy z hz
    omega
  · intro hstart
    refine ((all_lt_iff hs size).2 hlast).imp fun p hge hlt => ?_
    rw [Int.emod_eq_of_lt (by omega) (by omega)]
    exact hlt

end Strided

end Lib
