import OpenCRun.Lib.IntegerBits
import OpenCRun.Library.Vloadstore
/-!
# Selection of lanes

`shuffle`, `shuffle2` and `select` of vectors build their result lane by lane,
with `vec_step` of the mask as the bound of the loop.
-/
open Lib Lib.CInteger OpenCRun.Library.Vloadstore

namespace OpenCRun.Library.LaneSelection

/-! ## Vectors -/

structure Vec (α : Type) (n : Nat) where
  lanes : List α
  length_lanes : lanes.length = n

namespace Vec
variable {α : Type} {n : Nat}

/-- A lane, if the vector has it. -/
def get (v : Vec α n) (i : Nat) : Option α := v.lanes[i]?

def set (v : Vec α n) (i : Nat) (a : α) : Option (Vec α n) :=
  if i < n then some ⟨v.lanes.set i a, (List.length_set ..).trans v.length_lanes⟩ else none

/-- `v[i]` -/
def index {t : IntType} (v : Vec α n) (i : Expr t) : Option α :=
  if i.ok && decide (0 ≤ i.val.int) then v.get i.val.int.toNat else none

theorem get_eq_some (v : Vec α n) {i : Nat} (h : i < n) : ∃ a, v.get i = some a :=
  ⟨_, List.getElem?_eq_getElem (v.length_lanes.symm ▸ h)⟩

theorem get_set {v r : Vec α n} {i : Nat} {a : α} (h : v.set i a = some r) :
    r.get i = some a ∧ ∀ j, j ≠ i → r.get j = v.get j := by
  unfold set at h
  split at h
  · next hi =>
    obtain rfl := Option.some.inj h
    exact ⟨List.getElem?_set_self (v.length_lanes.symm ▸ hi), fun j hj => List.getElem?_set_ne hj.symm⟩
  · cases h

theorem index_of_computes {t : IntType} {e : Expr t} {k : Nat} (v : Vec α n) (h : Computes e k) : v.index e = v.get k := by
  unfold index
  rw [h.ok, h.value, Int.toNat_natCast, Bool.true_and, if_pos (decide_eq_true (Int.natCast_nonneg k))]

end Vec

/-- `vec_step`: a vector of three components has the step of one of four. -/
def vecStep (n : Width) : Nat := n.slots

/-! ## The code -/

section Code
variable {α : Type} {t : IntType} {m n : Width}

/-- An expression as a condition. -/
def test (e : Expr t) : Option Bool := if e.ok then some (e.val.int != 0) else none

/-- `for (uint i = 0; i < count; i++) RetValue[i] = ...` -/
def forLanes {n : Nat} (count : Nat) (retValue : Vec α n) (lane : Nat → Option α) : Option (Vec α n) :=
  (List.range count).foldlM (fun retValue i => do
    let a ← lane i
    retValue.set i a) retValue

/-- The `switch` that sets `bit_mask`, which is not initialised otherwise. -/
def bitMask : Nat → Option (Value .uint)
  | 2 => some (IntType.uint.ofInt 0x1)
  | 4 => some (IntType.uint.ofInt 0x3)
  | 8 => some (IntType.uint.ofInt 0x7)
  | 16 => some (IntType.uint.ofInt 0xF)
  | _ => none

def shuffleLane (param1 : Vec α m.lanes) (bit_mask : Value .uint) (k : Value t) : Option α :=
  param1.index (var k &&& var bit_mask)

/-- `RetValue` is not initialised. -/
def shuffle (retValue : Vec α n.lanes) (param1 : Vec α m.lanes) (param2 : Vec (Value t) n.lanes) :
    Option (Vec α n.lanes) := do
  let bit_mask ← bitMask (vecStep m)
  forLanes (vecStep n) retValue fun i => do
    let k ← param2.get i
    shuffleLane param1 bit_mask k

def bitMaskHi (bit_mask : Value .uint) : Expr .uint := cast .uint (var bit_mask + var (IntType.uint.ofInt 0x1))

def shuffle2Lane (param1 param2 : Vec α m.lanes) (bit_mask : Value .uint) (k : Value t) : Option α := do
  if ← test (var k &&& bitMaskHi bit_mask) then param2.index (var k &&& var bit_mask)
  else param1.index (var k &&& var bit_mask)

def shuffle2 (retValue : Vec α n.lanes) (param1 param2 : Vec α m.lanes) (param3 : Vec (Value t) n.lanes) :
    Option (Vec α n.lanes) := do
  let bit_mask ← bitMask (vecStep m)
  forLanes (vecStep n) retValue fun i => do
    let k ← param3.get i
    shuffle2Lane param1 param2 bit_mask k

/-- `sizeof(param3[i]) * 8 - 1` -/
def topBit (t : IntType) : Expr ((IntType.ulong.common .int).common .int) := sizeof t * lit 8 - lit 1

def selectLane (param1 param2 : Vec α n.lanes) (i : Nat) (k : Value t) : Option α := do
  if ← test ((var k >>> topBit t) &&& var (IntType.uint.ofInt 0x1)) then param2.get i else param1.get i

/-- `select` of vectors. -/
def select (retValue : Vec α n.lanes) (param1 param2 : Vec α n.lanes) (param3 : Vec (Value t) n.lanes) :
    Option (Vec α n.lanes) :=
  forLanes (vecStep n) retValue fun i => do
    let k ← param3.get i
    selectLane param1 param2 i k

end Code

/-! ## The loop -/

section Loop
variable {α : Type} {n : Nat} {lane : Nat → Option α}

theorem forLanes_succ (count : Nat) (ret : Vec α n) :
    forLanes (count + 1) ret lane = (forLanes count ret lane).bind fun r => (lane count).bind (r.set count) := by
  rw [forLanes, List.range_succ, List.foldlM_append]
  exact congrArg (forLanes count ret lane).bind (funext fun r => bind_pure _)

/-- Up to the last lane, every lane is set. -/
theorem forLanes_le (h : ∀ i < n, ∃ a, lane i = some a) (ret : Vec α n) {count : Nat} (hcount : count ≤ n) :
    ∃ r, forLanes count ret lane = some r ∧ ∀ i < count, r.get i = lane i := by
  induction count with
  | zero => exact ⟨ret, rfl, fun i hi => absurd hi (Nat.not_lt_zero i)⟩
  | succ count ih =>
    obtain ⟨r, hr, hlanes⟩ := ih (by omega)
    obtain ⟨a, ha⟩ := h count hcount
    obtain ⟨r', hr'⟩ : ∃ r', r.set count a = some r' := ⟨_, if_pos hcount⟩
    refine ⟨r', ?_, fun i hi => ?_⟩
    · rw [forLanes_succ, hr, Option.bind_some, ha, Option.bind_some, hr']
    · rcases Nat.lt_succ_iff_lt_or_eq.1 hi with hlt | rfl
      · rw [(Vec.get_set hr').2 i hlt.ne, hlanes i hlt]
      · rw [(Vec.get_set hr').1, ha]

/-- The loop over the lanes of a mask. -/
theorem forLanes_mask {β : Type} {c : Vec β n} {f : Nat → β → Option α}
    (h : ∀ i < n, ∀ k, c.get i = some k → ∃ a, f i k = some a) (ret : Vec α n) :
    ∃ r, forLanes n ret (fun i => (c.get i).bind (f i)) = some r ∧ ∀ i < n, ∀ k, c.get i = some k → r.get i = f i k := by
  have hsome : ∀ i < n, ∃ a, (c.get i).bind (f i) = some a := by
    intro i hi
    obtain ⟨k, hk⟩ := c.get_eq_some hi
    rw [hk]
    exact h i hi k hk
  obtain ⟨r, hr, hlanes⟩ := forLanes_le hsome ret le_rfl
  refine ⟨r, hr, fun i hi k hk => ?_⟩
  rw [hlanes i hi, hk, Option.bind_some]

/-- Beyond the last lane there is nothing to set. -/
theorem forLanes_beyond (ret : Vec α n) {count : Nat} (h : n < count) : forLanes count ret lane = none := by
  induction count with
  | zero => omega
  | succ count ih =>
    rw [forLanes_succ]
    rcases Nat.lt_succ_iff_lt_or_eq.1 h with hlt | rfl
    · rw [ih hlt, Option.bind_none]
    · have hset : ∀ (r : Vec α n) a, r.set n a = none := fun r a => if_neg (lt_irrefl n)
      cases forLanes n ret lane with
      | none => rfl
      | some r =>
        cases lane n with
        | none => rfl
        | some a => exact hset r a

end Loop

/-! ## Masks -/

/-- The widths of shuffles. -/
inductive ShuffleWidth where
  | two | four | eight | sixteen
  deriving DecidableEq, Repr

namespace ShuffleWidth

def width : ShuffleWidth → Width
  | two => .two
  | four => .four
  | eight => .eight
  | sixteen => .sixteen

/-- The bits of an index of a lane. -/
def bits : ShuffleWidth → Nat
  | two => 1
  | four => 2
  | eight => 3
  | sixteen => 4

theorem lanes_eq (m : ShuffleWidth) : m.width.lanes = 2 ^ m.bits := by cases m <;> rfl

theorem vecStep_eq (m : ShuffleWidth) : vecStep m.width = m.width.lanes := by cases m <;> rfl

theorem bits_le (m : ShuffleWidth) : m.bits ≤ 4 := by cases m <;> decide

theorem bitMask_eq (m : ShuffleWidth) :
    ∃ bit_mask, bitMask (vecStep m.width) = some bit_mask ∧ Computes (var bit_mask) ((2 ^ m.bits - 1 : Nat) : Int) := by
  cases m <;> exact ⟨_, rfl, computes_pure (by decide)⟩

end ShuffleWidth

section Masks
variable {t : IntType}

theorem common_uint (ht : t.signed = false) : (t.common .uint).signed = false ∧ 32 ≤ (t.common .uint).width := by
  obtain ⟨rank, signed⟩ := t
  obtain rfl : signed = false := ht
  cases rank <;> decide

theorem toNat_lt_common (k : Value t) : k.bits.toNat < 2 ^ (t.common .uint).width :=
  k.bits.isLt.trans_le (Nat.pow_le_pow_right (by decide) (IntType.width_le_common t .uint))

theorem computes_toNat (ht : t.signed = false) (k : Value t) : Computes (var k) (k.bits.toNat : Int) :=
  ⟨rfl, int_of_unsigned ht k⟩

/-- The low bits of a mask. -/
theorem and_mask (ht : t.signed = false) (k : Value t) {bit_mask : Value .uint} {j : Nat} (hj : j ≤ 31)
    (hmask : Computes (var bit_mask) ((2 ^ j - 1 : Nat) : Int)) :
    Computes (var k &&& var bit_mask) ((k.bits.toNat % 2 ^ j : Nat) : Int) := by
  obtain ⟨hsigned, hwidth⟩ := common_uint ht
  have hlt : 2 ^ j - 1 < 2 ^ (t.common .uint).width := by
    have hpow : 2 ^ j ≤ 2 ^ (t.common .uint).width := Nat.pow_le_pow_right (by decide) (by omega)
    have hpos : 0 < 2 ^ j := Nat.two_pow_pos j
    omega
  have hand := Computes.and_of_unsigned rfl hsigned (computes_toNat ht k) hmask (toNat_lt_common k) hlt
  rwa [Nat.and_two_pow_sub_one_eq_mod] at hand

/-- One bit of a mask. -/
theorem test_and_bit (ht : t.signed = false) (k : Value t) {e : Expr .uint} {j : Nat} (hj : j ≤ 31)
    (he : Computes e ((2 ^ j : Nat) : Int)) : test (var k &&& e) = some (k.bits.toNat.testBit j) := by
  obtain ⟨hsigned, hwidth⟩ := common_uint ht
  have hlt : 2 ^ j < 2 ^ (t.common .uint).width := Nat.pow_lt_pow_right (by decide) (by omega)
  have hand := Computes.and_of_unsigned rfl hsigned (computes_toNat ht k) he (toNat_lt_common k) hlt
  have hpos : 0 < 2 ^ j := Nat.two_pow_pos j
  unfold test
  rw [hand.ok, if_pos rfl, hand.value, Nat.and_two_pow]
  cases k.bits.toNat.testBit j with
  | false => rw [Bool.toNat_false, Nat.zero_mul]; rfl
  | true =>
    rw [Bool.toNat_true, Nat.one_mul]
    exact congrArg some (bne_iff_ne.2 (by omega))

theorem mod_two_mul (k j : Nat) : k % (2 * 2 ^ j) = k % 2 ^ j + if k.testBit j then 2 ^ j else 0 := by
  rw [Nat.mul_comm 2, Nat.mod_mul, Nat.testBit_eq_decide_div_mod_eq]
  rcases Nat.mod_two_eq_zero_or_one (k / 2 ^ j) with h | h
  · rw [h]
    rfl
  · rw [h, Nat.mul_one]
    rfl

theorem topBit_computes (t : IntType) : Computes (topBit t) ((t.width - 1 : Nat) : Int) := by
  obtain ⟨rank, signed⟩ := t
  cases rank <;> cases signed <;> exact ⟨rfl, by decide⟩

/-- The highest bit of a mask, which is its sign where it is signed. -/
theorem test_top_bit (k : Value t) :
    test ((var k >>> topBit t) &&& var (IntType.uint.ofInt 0x1)) = some k.bits.msb := by
  have hpos := t.width_pos
  have hle := t.width_le_promote
  have htop := topBit_computes t
  have hone : (var (IntType.uint.ofInt 0x1)).val.int = 2 ^ 1 - 1 := by decide
  have hwidth : 1 < (t.promote.common .uint).width := by
    obtain ⟨rank, signed⟩ := t
    cases rank <;> cases signed <;> decide
  have hshift : (var k >>> topBit t).val.int = k.int / 2 ^ (t.width - 1) := value_shr htop.value (by omega)
  have hvalue := value_and_mask (a := var k >>> topBit t) hone hwidth
  have hok : ((var k >>> topBit t) &&& var (IntType.uint.ofInt 0x1)).ok = true := by
    refine (ok_bitwise _ _ _).trans ?_
    rw [show (var k >>> topBit t).ok = ((var k).ok && (topBit t).ok) from ok_shift _ _ _, htop.ok]
    rfl
  unfold test
  rw [hok, if_pos rfl, hvalue, hshift, pow_one, BitVec.msb_eq_getLsbD_last, ← testBit_int k (by omega), testBit_eq]
  rcases Int.emod_two_eq_zero_or_one (k.int / 2 ^ (t.width - 1)) with h | h
  · rw [h]
    rfl
  · rw [h]
    rfl

end Masks

/-! ## The laws of a lane -/

section Laws
variable {α : Type} {t : IntType}

/-- A lane that a mask selects is the one that its value has modulo the number of lanes. -/
theorem index_mask {m : ShuffleWidth} (ht : t.signed = false) (x : Vec α m.width.lanes) (k : Value t)
    {bit_mask : Value .uint} (hmask : Computes (var bit_mask) ((2 ^ m.bits - 1 : Nat) : Int)) :
    x.index (var k &&& var bit_mask) = x.get (k.bits.toNat % m.width.lanes) := by
  have hbits := m.bits_le
  have hand := and_mask ht k (by omega) hmask
  rw [← m.lanes_eq] at hand
  exact x.index_of_computes hand

theorem get_mod {m : ShuffleWidth} (x : Vec α m.width.lanes) (k : Nat) : ∃ a, x.get (k % m.width.lanes) = some a :=
  x.get_eq_some (Nat.mod_lt k (m.lanes_eq ▸ Nat.two_pow_pos _))

/-- The result of `shuffle`, and each lane of it. -/
def ShufflesLanes {m n : ShuffleWidth} (ret : Vec α n.width.lanes) (x : Vec α m.width.lanes)
    (mask : Vec (Value t) n.width.lanes) : Prop :=
  ∃ r, shuffle ret x mask = some r ∧ ∀ i < n.width.lanes, ∀ k, mask.get i = some k →
    r.get i = x.get (k.bits.toNat % m.width.lanes)

/-- The same of `shuffle2`, with the lanes of the second vector behind those of the first. -/
def Shuffles2Lanes {m n : ShuffleWidth} (ret : Vec α n.width.lanes) (x y : Vec α m.width.lanes)
    (mask : Vec (Value t) n.width.lanes) : Prop :=
  ∃ r, shuffle2 ret x y mask = some r ∧ ∀ i < n.width.lanes, ∀ k, mask.get i = some k →
    r.get i = (x.lanes ++ y.lanes)[k.bits.toNat % (2 * m.width.lanes)]?

theorem shufflesLanes {m n : ShuffleWidth} (ht : t.signed = false) (ret : Vec α n.width.lanes) (x : Vec α m.width.lanes)
    (mask : Vec (Value t) n.width.lanes) : ShufflesLanes ret x mask := by
  obtain ⟨bit_mask, hbit_mask, hmask⟩ := m.bitMask_eq
  have hlane : ∀ k : Value t, shuffleLane x bit_mask k = x.get (k.bits.toNat % m.width.lanes) :=
    fun k => index_mask ht x k hmask
  obtain ⟨r, hr, hlanes⟩ := forLanes_mask (fun i _ k _ => (hlane k).symm ▸ get_mod x _) ret
  refine ⟨r, ?_, fun i hi k hk => (hlanes i hi k hk).trans (hlane k)⟩
  unfold shuffle
  rw [hbit_mask, n.vecStep_eq]
  exact hr

/-- The lane of the first vector, or of the second one behind it. -/
theorem get_mod_two_mul {m : ShuffleWidth} (x y : Vec α m.width.lanes) (k : Nat) :
    (x.lanes ++ y.lanes)[k % (2 * m.width.lanes)]? =
      if k.testBit m.bits then y.get (k % m.width.lanes) else x.get (k % m.width.lanes) := by
  have hlt : k % m.width.lanes < m.width.lanes := Nat.mod_lt _ (m.lanes_eq ▸ Nat.two_pow_pos _)
  have hmod : k % (2 * m.width.lanes) = k % m.width.lanes + if k.testBit m.bits then m.width.lanes else 0 := by
    rw [m.lanes_eq]
    exact mod_two_mul k m.bits
  rw [hmod]
  split
  · rw [List.getElem?_append_right (by rw [x.length_lanes]; omega), x.length_lanes, Nat.add_sub_cancel]
    rfl
  · rw [Nat.add_zero, List.getElem?_append_left (by rwa [x.length_lanes])]
    rfl

theorem bitMaskHi_computes {m : ShuffleWidth} {bit_mask : Value .uint}
    (hmask : Computes (var bit_mask) ((2 ^ m.bits - 1 : Nat) : Int)) :
    Computes (bitMaskHi bit_mask) ((2 ^ m.bits : Nat) : Int) := by
  have hone : Computes (var (IntType.uint.ofInt 0x1)) 1 := computes_pure (by decide)
  have hsum : IntType.uint.InRange (((2 ^ m.bits - 1 : Nat) : Int) + 1) := by cases m <;> decide
  have hvalue : (((2 ^ m.bits - 1 : Nat) : Int) + 1) = ((2 ^ m.bits : Nat) : Int) := by cases m <;> rfl
  rw [← hvalue]
  exact (hmask.add hone rfl hmask.inRange (by decide) hsum).cast hsum

theorem shuffles2Lanes {m n : ShuffleWidth} (ht : t.signed = false) (ret : Vec α n.width.lanes)
    (x y : Vec α m.width.lanes) (mask : Vec (Value t) n.width.lanes) : Shuffles2Lanes ret x y mask := by
  obtain ⟨bit_mask, hbit_mask, hmask⟩ := m.bitMask_eq
  have hbits := m.bits_le
  have hlane : ∀ k : Value t, shuffle2Lane x y bit_mask k =
      if k.bits.toNat.testBit m.bits then y.get (k.bits.toNat % m.width.lanes) else x.get (k.bits.toNat % m.width.lanes) := by
    intro k
    rw [shuffle2Lane, test_and_bit ht k (by omega) (bitMaskHi_computes hmask), index_mask ht x k hmask,
      index_mask ht y k hmask]
    rfl
  have hsome : ∀ i < n.width.lanes, ∀ k, mask.get i = some k → ∃ a, shuffle2Lane x y bit_mask k = some a := by
    intro i _ k _
    rw [hlane]
    split
    · exact get_mod y _
    · exact get_mod x _
  obtain ⟨r, hr, hlanes⟩ := forLanes_mask hsome ret
  refine ⟨r, ?_, fun i hi k hk => ?_⟩
  · unfold shuffle2
    rw [hbit_mask, n.vecStep_eq]
    exact hr
  · rw [hlanes i hi k hk, hlane, get_mod_two_mul]

/-- The result of `select`, and each lane of it. -/
def SelectsLanes {n : Width} (ret a b : Vec α n.lanes) (c : Vec (Value t) n.lanes) : Prop :=
  ∃ r, select ret a b c = some r ∧ ∀ i < n.lanes, ∀ k, c.get i = some k →
    r.get i = if k.bits.msb then b.get i else a.get i

/-- A vector of three components has no fourth lane. -/
theorem selectsLanes_iff {n : Width} (ret a b : Vec α n.lanes) (c : Vec (Value t) n.lanes) :
    SelectsLanes ret a b c ↔ n ≠ .three := by
  constructor
  · rintro ⟨r, hr, -⟩ rfl
    have hnone : select ret a b c = none := forLanes_beyond ret (by decide)
    rw [hnone] at hr
    cases hr
  · intro hn
    have hstep : vecStep n = n.lanes := by cases n <;> first | rfl | exact absurd rfl hn
    have hlane : ∀ i (k : Value t), selectLane a b i k = if k.bits.msb then b.get i else a.get i := by
      intro i k
      rw [selectLane, test_top_bit]
      rfl
    have hsome : ∀ i < n.lanes, ∀ k, c.get i = some k → ∃ x, selectLane a b i k = some x := by
      intro i hi k _
      rw [hlane]
      split
      · exact b.get_eq_some hi
      · exact a.get_eq_some hi
    obtain ⟨r, hr, hlanes⟩ := forLanes_mask hsome ret
    refine ⟨r, ?_, fun i hi k hk => (hlanes i hi k hk).trans (hlane i k)⟩
    unfold select
    rw [hstep]
    exact hr

end Laws

/-! ## The three functions -/

/-- A call of one of them. The masks of shuffles are unsigned. -/
inductive Call (α : Type) where
  | shuffle (m n : ShuffleWidth) (rank : Rank) (ret : Vec α n.width.lanes) (x : Vec α m.width.lanes)
    (mask : Vec (Value ⟨rank, false⟩) n.width.lanes)
  | shuffle2 (m n : ShuffleWidth) (rank : Rank) (ret : Vec α n.width.lanes) (x y : Vec α m.width.lanes)
    (mask : Vec (Value ⟨rank, false⟩) n.width.lanes)
  | select (n : Width) (t : IntType) (ret a b : Vec α n.lanes) (c : Vec (Value t) n.lanes)

namespace Call
variable {α : Type}

/-- The law of the lanes. -/
def Law : Call α → Prop
  | shuffle _ _ _ ret x mask => ShufflesLanes ret x mask
  | shuffle2 _ _ _ ret x y mask => Shuffles2Lanes ret x y mask
  | select _ _ ret a b c => SelectsLanes ret a b c

def SelectsThree : Call α → Prop
  | select n _ _ _ _ _ => n = .three
  | _ => False

theorem law_iff (call : Call α) : call.Law ↔ ¬ call.SelectsThree := by
  cases call with
  | shuffle _ _ _ ret x mask => exact iff_of_true (shufflesLanes rfl ret x mask) not_false
  | shuffle2 _ _ _ ret x y mask => exact iff_of_true (shuffles2Lanes rfl ret x y mask) not_false
  | select _ _ ret a b c => exact selectsLanes_iff ret a b c

end Call

/-- A vector of three lanes that are the same. -/
def threeOf {α : Type} (a : α) : Vec α Width.three.lanes := ⟨[a, a, a], rfl⟩

theorem select_three :
    ¬ (Call.select .three .int (threeOf 0) (threeOf 1) (threeOf 2) (threeOf (IntType.int.ofInt (-1)))).Law := by
  rintro ⟨r, hr, -⟩
  have hnone : select (threeOf 0) (threeOf 1) (threeOf 2) (threeOf (IntType.int.ofInt (-1))) = none := by decide +kernel
  rw [hnone] at hr
  cases hr

end OpenCRun.Library.LaneSelection
