import OpenCRun.Lib.IntegerBits
import OpenCRun.Lib.PopulationCount
import OpenCRun.Library.Integer
/-!
# Counts of bits

`clz` halves the number of bits that it looks at. `popcount` counts in a
`ulong`, to which a negative number of a narrower type is extended with ones.
-/
open Lib Lib.CInteger Lib.PopulationCount

namespace OpenCRun.Library

variable {t : IntType}

/-! ## Ones -/

theorem ulong_inRange {n : Nat} (h : n < 2 ^ 64) : IntType.ulong.InRange n := by
  have hmax : IntType.ulong.maxValue = 2 ^ 64 - 1 := rfl
  have hmin : IntType.ulong.minValue = 0 := rfl
  unfold IntType.InRange
  omega

theorem shr_computes {a : Expr .ulong} {n k : Nat} (ha : Computes a n) (hk : k < 64) :
    Computes (a >>> lit k) (n / 2 ^ k : Nat) := by
  have hmin : IntType.int.minValue = -2 ^ 31 := rfl
  have hmax : IntType.int.maxValue = 2 ^ 31 - 1 := rfl
  have hshr := ha.shr (computes_lit (n := k) ⟨by omega, by omega⟩) hk
  have hcast : (n : Int) / 2 ^ k = (n / 2 ^ k : Nat) := by norm_cast
  rwa [hcast] at hshr

/-- The high parts of fields, moved onto the low ones. -/
theorem shr_and_computes {a b : Expr .ulong} {n m k : Nat} (ha : Computes a n) (hb : Computes b m) (hn : n < 2 ^ 64)
    (hm : m < 2 ^ 64) (hk : k < 64) : Computes ((a >>> lit k) &&& b) (n / 2 ^ k &&& m : Nat) :=
  (shr_computes ha hk).and_of_unsigned rfl rfl hb ((Nat.div_le_self _ _).trans_lt hn) hm

theorem computes_add_of_ulong {a b : Expr .ulong} {m n : Nat} (ha : Computes a m) (hb : Computes b n) (h : m + n < 2 ^ 64) :
    Computes (a + b) (m + n : Nat) := by
  have hsum : IntType.ulong.InRange ((m : Int) + n) := by exact_mod_cast ulong_inRange h
  rw [Nat.cast_add]
  exact ha.add hb rfl ha.inRange hb.inRange hsum

/-! ### The steps of `popcount` -/

section Steps
variable {x m h : Expr .ulong} {n : Nat}

theorem pairSums_computes (hx : Computes x n) (hm : Computes m (mask 8 0x55 : Nat)) (hn : n < 2 ^ 64) :
    Computes (cast .ulong (x - ((x >>> lit 1) &&& m))) (pairSums 8 n : Nat) := by
  have hmask : mask 8 0x55 < 2 ^ 64 := by decide
  have hhalf : n / 2 ^ 1 &&& mask 8 0x55 ≤ n := Nat.and_le_left.trans (Nat.div_le_self _ _)
  have hand := shr_and_computes (k := 1) hx hm hn hmask (by decide)
  have hrange : IntType.ulong.InRange ((n : Int) - (n / 2 ^ 1 &&& mask 8 0x55 : Nat)) := by
    rw [← Nat.cast_sub hhalf]
    exact ulong_inRange ((Nat.sub_le _ _).trans_lt hn)
  have hsub := (hx.sub hand rfl hx.inRange hand.inRange hrange).cast hrange
  rwa [← Nat.cast_sub hhalf] at hsub

theorem nibbleSums_le (k n : Nat) : nibbleSums k n ≤ 2 * mask k 0x33 := by
  have hlow : n &&& mask k 0x33 ≤ mask k 0x33 := Nat.and_le_right
  have hhigh : n / 2 ^ 2 &&& mask k 0x33 ≤ mask k 0x33 := Nat.and_le_right
  unfold nibbleSums
  omega

theorem nibbleSums_computes (hx : Computes x n) (hm : Computes m (mask 8 0x33 : Nat)) (hn : n < 2 ^ 64) :
    Computes (cast .ulong ((x &&& m) + ((x >>> lit 2) &&& m))) (nibbleSums 8 n : Nat) := by
  have hmask : 2 * mask 8 0x33 < 2 ^ 64 := by decide
  have hmask' : mask 8 0x33 < 2 ^ 64 := by omega
  have hlow := hx.and_of_unsigned rfl rfl hm hn hmask'
  have hhigh := shr_and_computes (k := 2) hx hm hn hmask' (by decide)
  have hlt : nibbleSums 8 n < 2 ^ 64 := (nibbleSums_le 8 n).trans_lt hmask
  exact (computes_add_of_ulong hlow hhigh hlt).cast (ulong_inRange hlt)

theorem byteSums_computes (hx : Computes x n) (hm : Computes m (mask 8 0x0f : Nat)) (hn : n ≤ 2 * mask 8 0x33) :
    Computes (cast .ulong ((x + (x >>> lit 4)) &&& m)) (byteSums 8 n : Nat) := by
  have hmask : mask 8 0x0f < 2 ^ 64 := by decide
  have hbound : 2 * mask 8 0x33 = 0x6666666666666666 := by decide
  have hshr := shr_computes (k := 4) hx (by decide)
  have hlt : n + n / 2 ^ 4 < 2 ^ 64 := by omega
  have hand := (computes_add_of_ulong hx hshr hlt).and_of_unsigned rfl rfl hm hlt hmask
  exact hand.cast (ulong_inRange (Nat.and_le_right.trans_lt hmask))

theorem sum_computes (hx : Computes x n) (hm : Computes h (mask 8 1 : Nat)) :
    Computes ((x * h) >>> lit 56) (n * mask 8 1 % 2 ^ 64 / 2 ^ 56 : Nat) := by
  have hmul := hx.mul_of_unsigned rfl rfl hm
  exact shr_computes (k := 56) hmul (by decide)

end Steps

theorem popcount_computes {a : Expr t} {n : Nat} (ha : Computes (cast .ulong a) n) (hn : n < 2 ^ 64)
    (ht : t.InRange (ones 64 n)) : Computes (popcount a) (ones 64 n) := by
  have hpairs := pairSums_computes (m := var ⟨0x5555555555555555⟩) ha.var (computes_var _) hn
  have hpairsLt : pairSums 8 n < 2 ^ 64 := (Nat.sub_le _ _).trans_lt hn
  have hnibbles := nibbleSums_computes (m := var ⟨0x3333333333333333⟩) hpairs.var (computes_var _) hpairsLt
  have hbytes := byteSums_computes (m := var ⟨0x0f0f0f0f0f0f0f0f⟩) hnibbles.var (computes_var _) (nibbleSums_le 8 _)
  have hsum := sum_computes (h := var ⟨0x0101010101010101⟩) hbytes.var (computes_var _)
  rw [population_count hn] at hsum
  rw [popcount, ha.bind, hpairs.bind, hnibbles.bind, hbytes.bind]
  exact hsum.cast ht

/-! ### What `popcount` counts -/

theorem cpop_eq_ones {w : Nat} (x : BitVec w) : x.cpop.toNat = ones w x.toNat := by
  have hrec : ∀ k, x.cpopNatRec k 0 = ones k x.toNat := by
    intro k
    induction k with
    | zero => rfl
    | succ k ih =>
      rw [BitVec.cpopNatRec_succ, BitVec.cpopNatRec_eq, ih, ones, ones, Finset.sum_range_succ]
      simp only [Nat.zero_add]
      rfl
  rw [BitVec.toNat_cpop, hrec]

theorem width_le_ulong (t : IntType) : t.width ≤ 64 := by
  obtain ⟨rank, signed⟩ := t
  cases rank <;> cases signed <;> decide

/-- Every type holds a count of bits. -/
theorem inRange_count {n : Nat} (h : n ≤ 64) : t.InRange n := by
  have hmax : t.InRange 64 := by
    obtain ⟨rank, signed⟩ := t
    cases rank <;> cases signed <;> decide
  have hmin := t.inRange_zero
  unfold IntType.InRange at *
  omega

theorem width_eq_ulong_iff (t : IntType) : t.width = 64 ↔ t.rank = .long := by
  obtain ⟨rank, signed⟩ := t
  cases rank <;> cases signed <;> decide

/-- The ones of the number that is counted, with those that extend it. -/
theorem ones_extended (x : Value t) :
    ones 64 (IntType.ulong.ofInt x.int).bits.toNat = x.bits.cpop.toNat + if x.int < 0 then 64 - t.width else 0 := by
  have hbit : ∀ i < 64, (IntType.ulong.ofInt x.int).bits.toNat.testBit i = x.int.testBit i := by
    intro i hi
    have hlt : i < IntType.ulong.width := hi
    exact (testBit_int (IntType.ulong.ofInt x.int) hlt).symm.trans (testBit_cast (var x) hlt)
  have hw := width_le_ulong t
  have hsplit : 64 = t.width + (64 - t.width) := by omega
  rw [cpop_eq_ones, ones, hsplit, Finset.sum_range_add, ← hsplit]
  congr 1
  · apply Finset.sum_congr rfl
    intro i hi
    have hlt := Finset.mem_range.1 hi
    rw [hbit i (by omega), testBit_int x hlt]
    rfl
  · have hsign : ∀ i ∈ Finset.range (64 - t.width),
        ((IntType.ulong.ofInt x.int).bits.toNat.testBit (t.width + i)).toNat = if x.int < 0 then 1 else 0 := by
      intro i hi
      have hlt := Finset.mem_range.1 hi
      rw [hbit _ (by omega), testBit_of_width_le x (by omega)]
      by_cases hneg : x.int < 0 <;> simp [hneg]
    rw [Finset.sum_congr rfl hsign]
    by_cases hneg : x.int < 0 <;> simp [hneg]

theorem popcount_iff (x : Value t) :
    Computes (popcount (var x)) x.bits.cpop.toNat ↔ t.rank = .long ∨ 0 ≤ x.int := by
  have hcast : Computes (cast .ulong (var x)) (IntType.ulong.ofInt x.int).bits.toNat := by
    rw [← int_of_unsigned rfl (IntType.ulong.ofInt x.int)]
    exact (computes_var x).cast_wrap
  have hcount := popcount_computes hcast (BitVec.isLt _) (inRange_count (ones_le 64 _))
  have hw := width_le_ulong t
  rw [hcount.iff_eq, ones_extended, ← width_eq_ulong_iff, Int.ofNat_inj]
  by_cases hneg : x.int < 0
  · rw [if_pos hneg]
    omega
  · rw [if_neg hneg]
    omega

/-! ## Leading zeros -/

/-- The operand is shifted without loss, `n` says how far, and the highest one is in the part that is still searched:
the `2 * k` highest bits, and the highest bit in the end. -/
structure Searches (x : Value t) (k : Nat) (s : ClzState t) : Prop where
  shamt : s.shamt.int = k
  mask : 0 < k → ∀ i < t.width, s.mask.bits.getLsbD i = decide (t.width - k ≤ i)
  shifted : ∃ m : Nat, s.n.int = m ∧ s.param1.bits.toNat = x.bits.toNat * 2 ^ m
  top : 2 ^ (t.width - max (2 * k) 1) ≤ s.param1.bits.toNat

/-- The test of the loop body. -/
theorem masked_eq {p mask : Value t} {k : Nat}
    (hmask : ∀ i < t.width, mask.bits.getLsbD i = decide (t.width - k ≤ i)) :
    eq (var p &&& var mask) (lit 0) = pure (decide (p.bits.toNat < 2 ^ (t.width - k))) := by
  have hself : (t.common t).promote = t.promote := by rw [IntType.common_self, IntType.promote_promote]
  have hand : Computes (var p &&& var mask) (var p &&& var mask).val.int := ⟨ok_bitwise _ _ _, rfl⟩
  have hin := hself ▸ hand.inRange.promote
  rw [eq, compare_eq hand (computes_lit (n := 0) (by decide)) ((IntType.common_int _).trans hself) hin
    t.inRange_zero.promote]
  congr 1
  rw [decide_eq_decide, value_and_eq_zero_iff]
  constructor
  · intro h
    apply Nat.lt_pow_two_of_testBit
    intro i hi
    rcases Nat.lt_or_ge i t.width with hlt | hge
    · have hzero := h i hlt
      rwa [hmask i hlt, decide_eq_true hi, Bool.and_true] at hzero
    · exact Nat.testBit_lt_two_pow (p.bits.isLt.trans_le (Nat.pow_le_pow_right (by decide) hge))
  · intro h i hi
    rw [hmask i hi]
    by_cases hki : t.width - k ≤ i
    · have hzero : p.bits.getLsbD i = false :=
        Nat.testBit_lt_two_pow (h.trans_le (Nat.pow_le_pow_right (by decide) hki))
      rw [hzero, Bool.false_and]
    · rw [decide_eq_false hki, Bool.and_false]

/-- What the loop does to `shamt` and `mask`. -/
theorem halved_eq {shamt : Value t} {k : Nat} (mask : Value t) (hshamt : shamt.int = k) (hk : k < t.width) :
    cast t (var shamt / lit 2) = pure (t.ofInt (k / 2 : Nat)) ∧
      cast t (var mask <<< var (t.ofInt (k / 2 : Nat))) = pure ⟨mask.bits <<< (k / 2)⟩ := by
  have hw := width_le_ulong t
  have hin : t.InRange k := inRange_count (hk.le.trans hw)
  have hin' : t.InRange (k / 2 : Nat) := inRange_count (by omega)
  have htwo : t.promote.InRange 2 := (inRange_count (t := t) (n := 2) (by decide)).promote
  have htdiv : (k : Int).tdiv 2 = (k / 2 : Nat) := rfl
  have hshamt' : Computes (var shamt) k := ⟨rfl, hshamt⟩
  have hdiv := hshamt'.div (computes_lit (n := 2) (by decide)) (IntType.common_int t) hin.promote htwo (by decide)
    (htdiv ▸ hin'.promote)
  rw [htdiv] at hdiv
  exact ⟨(hdiv.cast hin').eq_pure, cast_shl_eq (IntType.wrap_of_inRange hin') ((by omega : k / 2 < t.width).trans_le
    t.width_le_promote)⟩

/-- The highest bits are searched in two halves. -/
theorem Searches.step {x : Value t} {k : Nat} {s : ClzState t} (h : Searches x k s) (hx : x.bits ≠ 0#t.width)
    (hk : 0 < k) (hle : 2 * k ≤ t.width) (heven : k = 1 ∨ k = 2 * (k / 2)) :
    ∃ s', clzStep s = pure s' ∧ Searches x (k / 2) s' := by
  have hw : k < t.width := by omega
  obtain ⟨m, hn, hshifted⟩ := h.shifted
  have hmask := h.mask hk
  obtain ⟨hshamt, hmaskEq⟩ := halved_eq s.mask h.shamt hw
  have hwidth := width_le_ulong t
  have hshamt' : (t.ofInt (k / 2 : Nat)).int = (k / 2 : Nat) := IntType.wrap_of_inRange (inRange_count (by omega))
  have hmask' : 0 < k / 2 → ∀ i < t.width, (s.mask.bits <<< (k / 2)).getLsbD i = decide (t.width - k / 2 ≤ i) := by
    intro hpos i hi
    rw [BitVec.getLsbD_shiftLeft, decide_eq_true hi, Bool.true_and]
    by_cases hki : k / 2 ≤ i
    · rw [hmask _ (by omega), decide_eq_false (by omega), Bool.not_false, Bool.true_and, decide_eq_decide]
      omega
    · rw [decide_eq_true (by omega), decide_eq_false (by omega)]
      rfl
  by_cases hlow : s.param1.bits.toNat < 2 ^ (t.width - k)
  · have hx0 : 0 < x.bits.toNat := Nat.pos_of_ne_zero fun h0 => hx (BitVec.eq_of_toNat_eq h0)
    have hfits : s.param1.bits.toNat * 2 ^ k < 2 ^ t.width := by
      calc s.param1.bits.toNat * 2 ^ k < 2 ^ (t.width - k) * 2 ^ k := Nat.mul_lt_mul_of_pos_right hlow (by positivity)
        _ = 2 ^ t.width := by rw [← pow_add, Nat.sub_add_cancel hw.le]
    have hmk : m + k < t.width := by
      apply (Nat.pow_lt_pow_iff_right (a := 2) (by decide)).1
      calc 2 ^ (m + k) ≤ x.bits.toNat * 2 ^ (m + k) := Nat.le_mul_of_pos_left _ hx0
        _ = s.param1.bits.toNat * 2 ^ k := by rw [hshifted, pow_add, mul_assoc]
        _ < 2 ^ t.width := hfits
    have hsum : Computes (cast t (var s.n + var s.shamt)) (m + k : Nat) := by
      have hm : t.InRange m := inRange_count (by omega)
      have hk' : t.InRange k := inRange_count (by omega)
      have hmk' : t.InRange (m + k : Nat) := inRange_count (by omega)
      have hadd := Computes.add (a := var s.n) (b := var s.shamt) ⟨rfl, hn⟩ ⟨rfl, h.shamt⟩ (IntType.common_self t)
        hm.promote hk'.promote (Nat.cast_add (R := Int) m k ▸ hmk'.promote)
      rw [Nat.cast_add]
      exact hadd.cast (Nat.cast_add (R := Int) m k ▸ hmk')
    have hshl : cast t (var s.param1 <<< var s.shamt) = pure ⟨s.param1.bits <<< k⟩ :=
      cast_shl_eq h.shamt (hw.trans_le t.width_le_promote)
    have htoNat : (s.param1.bits <<< k).toNat = s.param1.bits.toNat * 2 ^ k := by
      rw [BitVec.toNat_shiftLeft, Nat.shiftLeft_eq, Nat.mod_eq_of_lt hfits]
    refine ⟨⟨⟨s.param1.bits <<< k⟩, t.ofInt (k / 2 : Nat), ⟨s.mask.bits <<< (k / 2)⟩, t.ofInt (m + k : Nat)⟩, ?_, hshamt',
      hmask', ⟨m + k, IntType.wrap_of_inRange (inRange_count (by omega)), ?_⟩, ?_⟩
    · rw [clzStep, masked_eq hmask, decide_eq_true hlow]
      simp only [pure_bind, hsum.eq_pure, hshl, hshamt, hmaskEq, if_true]
    · rw [htoNat, hshifted, pow_add, mul_assoc]
    · have hpow : 2 ^ (t.width - k) = 2 ^ (t.width - max (2 * k) 1) * 2 ^ k := by
        rw [← pow_add]
        congr 1
        omega
      calc 2 ^ (t.width - max (2 * (k / 2)) 1) = 2 ^ (t.width - k) := by
            congr 1
            omega
        _ = 2 ^ (t.width - max (2 * k) 1) * 2 ^ k := hpow
        _ ≤ s.param1.bits.toNat * 2 ^ k := Nat.mul_le_mul_right _ h.top
        _ = (s.param1.bits <<< k).toNat := htoNat.symm
  · refine ⟨⟨s.param1, t.ofInt (k / 2 : Nat), ⟨s.mask.bits <<< (k / 2)⟩, s.n⟩, ?_, hshamt', hmask', ⟨m, hn, hshifted⟩, ?_⟩
    · rw [clzStep, masked_eq hmask, decide_eq_false hlow]
      simp only [pure_bind, hshamt, hmaskEq, Bool.false_eq_true, if_false]
    · have hle := Nat.not_lt.1 hlow
      exact (Nat.pow_le_pow_right (by decide) (by omega)).trans hle

theorem ge_one_eq {shamt : Value t} {k : Nat} (hshamt : shamt.int = k) (hk : k < t.width) :
    ge (var shamt) (lit 1) = pure (decide (1 ≤ k)) := by
  have hin : t.InRange k := inRange_count (hk.le.trans (width_le_ulong t))
  have hone : t.promote.InRange 1 := (inRange_count (t := t) (n := 1) (by decide)).promote
  rw [ge, compare_eq (a := var shamt) ⟨rfl, hshamt⟩ (computes_lit (n := 1) (by decide)) (IntType.common_int t) hin.promote
    hone]
  congr 1
  rw [decide_eq_decide]
  omega

/-- The loop ends, after one turn for each power of two up to the first `shamt`. -/
theorem clzLoop_searches {x : Value t} (hx : x.bits ≠ 0#t.width) (j : Nat) {s : ClzState t} (h : Searches x (2 ^ j) s)
    (hj : 2 * 2 ^ j ≤ t.width) (fuel : Nat) (hfuel : j + 2 ≤ fuel) :
    ∃ s', clzLoop fuel s = pure (some s') ∧ Searches x 0 s' := by
  induction j generalizing s fuel with
  | zero =>
    obtain ⟨s', hstep, hs'⟩ := h.step hx (by decide) hj (.inl rfl)
    obtain ⟨fuel, rfl⟩ := Nat.exists_eq_add_of_le' hfuel
    refine ⟨s', ?_, hs'⟩
    have hone : 1 < t.width := by omega
    rw [clzLoop, ge_one_eq h.shamt hone, hstep]
    simp only [pure_bind]
    rw [clzLoop, ge_one_eq hs'.shamt t.width_pos]
    rfl
  | succ j ih =>
    have hhalf : 2 ^ (j + 1) / 2 = 2 ^ j := by
      rw [pow_succ, Nat.mul_div_cancel _ (by decide)]
    obtain ⟨s', hstep, hs'⟩ := h.step hx (by positivity) hj (.inr (by rw [hhalf, pow_succ, mul_comm]))
    rw [hhalf] at hs'
    obtain ⟨fuel, rfl⟩ : ∃ f, fuel = f + 1 := ⟨fuel - 1, by omega⟩
    obtain ⟨r, hr, hfound⟩ := ih hs' (by rw [pow_succ] at hj; omega) fuel (by omega)
    have hw : 2 ^ (j + 1) < t.width := by
      have hpos := Nat.two_pow_pos (j + 1)
      omega
    refine ⟨r, ?_, hfound⟩
    rw [clzLoop, ge_one_eq h.shamt hw, decide_eq_true Nat.one_le_two_pow, hstep]
    exact hr

theorem toNat_width (w : Nat) : (w : BitVec w).toNat = w := Nat.mod_eq_of_lt Nat.lt_two_pow_self

/-- How far the operand is shifted in the end. -/
theorem clz_of_searches {x : Value t} {s : ClzState t} (hx : x.bits ≠ 0#t.width) (h : Searches x 0 s) :
    s.n.int = x.bits.clz.toNat := by
  obtain ⟨m, hn, hshifted⟩ := h.shifted
  have hw := t.width_pos
  have htop : 2 ^ (t.width - 1) ≤ s.param1.bits.toNat := h.top
  have hlt := s.param1.bits.isLt
  have hge := BitVec.two_pow_sub_clz_le_toNat_of_ne_zero hw hx
  have hlt' := BitVec.toNat_lt_two_pow_sub_clz (x := x.bits)
  have hc : x.bits.clz.toNat < t.width := by
    have hclz := BitVec.lt_def.1 (BitVec.clz_lt_iff_ne_zero.2 hx)
    exact hclz.trans_eq (toNat_width t.width)
  rw [hshifted] at htop hlt
  generalize x.bits.clz.toNat = c at *
  rw [hn, Int.ofNat_inj]
  have hle : t.width - 1 < t.width - c + m := by
    apply (Nat.pow_lt_pow_iff_right (a := 2) (by decide)).1
    calc 2 ^ (t.width - 1) ≤ x.bits.toNat * 2 ^ m := htop
      _ < 2 ^ (t.width - c) * 2 ^ m := Nat.mul_lt_mul_of_pos_right hlt' (by positivity)
      _ = 2 ^ (t.width - c + m) := (pow_add _ _ _).symm
  have hle' : t.width - 1 - c + m < t.width := by
    apply (Nat.pow_lt_pow_iff_right (a := 2) (by decide)).1
    calc 2 ^ (t.width - 1 - c + m) = 2 ^ (t.width - 1 - c) * 2 ^ m := pow_add _ _ _
      _ ≤ x.bits.toNat * 2 ^ m := Nat.mul_le_mul_right _ hge
      _ < 2 ^ t.width := hlt
  omega

/-- The state before the loop. -/
def clzStart (x : Value t) : ClzState t :=
  { param1 := x, shamt := t.ofInt (t.width / 2 : Nat), mask := ⟨BitVec.allOnes t.width <<< (t.width / 2)⟩, n := t.ofInt 0 }

theorem clz_eq (fuel : Nat) (x : Value t) :
    clz fuel (var x) = if x.int = 0 then pure (some (t.ofInt t.width))
      else (fun s => s.map ClzState.n) <$> clzLoop fuel (clzStart x) := by
  have hshamt : cast t (sizeof t * lit 8 / lit 2) = pure (t.ofInt (t.width / 2 : Nat)) := by
    obtain ⟨rank, signed⟩ := t
    cases rank <;> cases signed <;> decide
  have hmask : cast t (cast t (bnot (lit 0)) <<< var (t.ofInt (t.width / 2 : Nat))) =
      pure ⟨BitVec.allOnes t.width <<< (t.width / 2)⟩ := by
    obtain ⟨rank, signed⟩ := t
    cases rank <;> cases signed <;> decide
  have hn : cast t (lit 0) = pure (t.ofInt 0) := rfl
  have hwidth : cast t (sizeof t * lit 8) = pure (t.ofInt t.width) := by
    obtain ⟨rank, signed⟩ := t
    cases rank <;> cases signed <;> decide
  have hzero : eq (var x) (lit 0) = pure (decide (x.int = 0)) :=
    compare_eq (computes_var x) (computes_lit (by decide)) (IntType.common_int t) (IntType.int_inRange x).promote
      t.inRange_zero.promote
  have hvar : ∀ k : Value t → Checked (Option (Value t)), (var x >>= k) = k x := fun k => pure_bind x k
  rw [clz, hvar]
  simp only [hshamt, pure_bind, hmask, hn, hwidth]
  rw [hzero, pure_bind]
  by_cases hx : x.int = 0
  · rw [decide_eq_true hx, if_pos rfl, if_pos hx]
  · rw [decide_eq_false hx, if_neg Bool.false_ne_true, if_neg hx, map_eq_pure_bind]
    rfl

theorem exists_width_eq (t : IntType) : ∃ j ≤ 5, t.width = 2 * 2 ^ j := by
  obtain ⟨rank, signed⟩ := t
  cases rank
  · exact ⟨2, by decide, rfl⟩
  · exact ⟨3, by decide, rfl⟩
  · exact ⟨4, by decide, rfl⟩
  · exact ⟨5, by decide, rfl⟩

theorem clzStart_searches {x : Value t} (hx : x.bits ≠ 0#t.width) {j : Nat} (hj : t.width = 2 * 2 ^ j) :
    Searches x (2 ^ j) (clzStart x) := by
  have hhalf : t.width / 2 = 2 ^ j := by omega
  have hwidth := width_le_ulong t
  have hpos : 0 < x.bits.toNat := Nat.pos_of_ne_zero fun h0 => hx (BitVec.eq_of_toNat_eq h0)
  refine ⟨?_, ?_, ⟨0, IntType.wrap_of_inRange t.inRange_zero, (Nat.mul_one _).symm⟩, ?_⟩
  · rw [← hhalf]
    exact IntType.wrap_of_inRange (inRange_count (by omega))
  · intro _ i hi
    have hall : (BitVec.allOnes t.width <<< (t.width / 2)).getLsbD i = decide (t.width / 2 ≤ i) := by
      have hlt : i - t.width / 2 < t.width := by omega
      rw [BitVec.getLsbD_shiftLeft, BitVec.getLsbD_allOnes, decide_eq_true hi, decide_eq_true hlt, Bool.and_true,
        Bool.true_and, ← decide_not, decide_eq_decide, Nat.not_lt]
    exact hall.trans (by rw [decide_eq_decide]; omega)
  · have hzero : t.width - max (2 * 2 ^ j) 1 = 0 := by omega
    rw [hzero]
    exact hpos

theorem int_eq_zero_iff (x : Value t) : x.int = 0 ↔ x.bits = 0#t.width := by
  have hzero : (t.ofInt 0) = ⟨0#t.width⟩ := by
    obtain ⟨rank, signed⟩ := t
    cases rank <;> cases signed <;> decide
  rw [← IntType.wrap_of_inRange t.inRange_zero]
  constructor
  · intro h
    rw [IntType.int_injective h, hzero]
  · intro h
    exact congrArg Value.int ((Value.ext h).trans hzero.symm)

/-- The loop of `clz` terminates, and it counts. -/
theorem clz_counts (x : Value t) :
    ∃ n, ∀ fuel ≥ n, ∃ v : Value t, clz fuel (var x) = pure (some v) ∧ v.int = x.bits.clz.toNat := by
  by_cases hx : x.bits = 0#t.width
  · refine ⟨0, fun fuel _ => ⟨t.ofInt t.width, ?_, ?_⟩⟩
    · rw [clz_eq, if_pos ((int_eq_zero_iff x).2 hx)]
    · have hclz : x.bits.clz.toNat = t.width := by
        rw [BitVec.clz_eq_iff_eq_zero.2 hx]
        exact toNat_width t.width
      rw [hclz]
      exact IntType.wrap_of_inRange (inRange_count (width_le_ulong t))
  · obtain ⟨j, -, hj⟩ := exists_width_eq t
    refine ⟨j + 2, fun fuel hfuel => ?_⟩
    obtain ⟨s, hs, hfound⟩ := clzLoop_searches hx j (clzStart_searches hx hj) hj.ge fuel hfuel
    refine ⟨s.n, ?_, clz_of_searches hx hfound⟩
    rw [clz_eq, if_neg (fun h => hx ((int_eq_zero_iff x).1 h)), hs]
    rfl

/-- `popcount` counts the ones of a narrower negative number together with those that extend it. -/
theorem clz_popcount_iff (t : IntType) (x : Value t) :
    (∃ n, ∀ fuel ≥ n, ∃ v : Value t, clz fuel (var x) = pure (some v) ∧ v.int = x.bits.clz.toNat) ∧
      (Computes (popcount (var x)) x.bits.cpop.toNat ↔ t.rank = .long ∨ 0 ≤ x.int) :=
  ⟨clz_counts x, popcount_iff x⟩

/-- Minus one, a char. -/
theorem popcount_neg_one : ¬ Computes (popcount (var (IntType.ofInt ⟨.char, true⟩ (-1))))
    (IntType.ofInt ⟨.char, true⟩ (-1)).bits.cpop.toNat := fun h => absurd h.value (by decide)

end OpenCRun.Library
