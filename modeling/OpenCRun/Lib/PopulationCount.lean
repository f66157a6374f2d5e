import Mathlib.Algebra.BigOperators.Group.Finset.Basic
import Mathlib.Data.Nat.Bitwise
import Mathlib.Tactic.Linarith
import Mathlib.Tactic.Ring
/-!
# Population count

The ones of a word are summed in its bytes, in three steps that work on all
bytes at once, and a multiplication then adds the bytes up. The masks keep what
is shifted in from the next byte apart.
-/
namespace Lib.PopulationCount

open Finset

/-! ## Words of bytes -/

/-- The number with these bytes, the lowest first. -/
def word : List Nat → Nat
  | [] => 0
  | b :: bs => b + 2 ^ 8 * word bs

/-- Every byte is below a bound. -/
def Below (n : Nat) (bs : List Nat) : Prop := ∀ b ∈ bs, b < n

/-- The lowest bytes of a number. -/
def bytes : Nat → Nat → List Nat
  | 0, _ => []
  | k + 1, n => n % 2 ^ 8 :: bytes k (n / 2 ^ 8)

theorem bytes_below (k n : Nat) : Below (2 ^ 8) (bytes k n) := by
  induction k generalizing n with
  | zero => intro b hb; exact absurd hb List.not_mem_nil
  | succ k ih =>
    intro b hb
    rcases List.mem_cons.1 hb with rfl | hb
    · exact Nat.mod_lt n (by decide)
    · exact ih _ b hb

theorem word_bytes {k n : Nat} (h : n < 2 ^ (8 * k)) : word (bytes k n) = n := by
  induction k generalizing n with
  | zero =>
    have hzero : n = 0 := by simpa using h
    rw [hzero]
    rfl
  | succ k ih =>
    have hdiv : n / 2 ^ 8 < 2 ^ (8 * k) := by
      apply Nat.div_lt_of_lt_mul
      rwa [← pow_add, Nat.add_comm 8]
    rw [bytes, word, ih hdiv]
    exact Nat.mod_add_div n (2 ^ 8)

/-- The same byte, over and over. -/
def mask (k d : Nat) : Nat := word (List.replicate k d)

/-! ## Operations on all bytes -/

theorem testBit_byte {b : Nat} (hb : b < 2 ^ 8) (n i : Nat) :
    (b + 2 ^ 8 * n).testBit i = if i < 8 then b.testBit i else n.testBit (i - 8) := by
  rw [Nat.add_comm, Nat.testBit_two_pow_mul_add n hb]

/-- What is shifted into a byte is masked. -/
theorem shift_and_byte {b d e : Nat} (hb : b < 2 ^ 8) (he : e ≤ 8) (hd : d < 2 ^ (8 - e)) (n m : Nat) :
    ((b + 2 ^ 8 * n) / 2 ^ e) &&& (d + 2 ^ 8 * m) = (b / 2 ^ e &&& d) + 2 ^ 8 * ((n / 2 ^ e) &&& m) := by
  have hd' : d < 2 ^ 8 := hd.trans_le (Nat.pow_le_pow_right (by decide) (Nat.sub_le 8 e))
  have hand : b / 2 ^ e &&& d < 2 ^ 8 := Nat.and_lt_two_pow _ hd'
  apply Nat.eq_of_testBit_eq
  intro i
  rw [testBit_byte hand, Nat.testBit_and, Nat.testBit_div_two_pow, testBit_byte hb, testBit_byte hd']
  by_cases hi : i < 8
  · rw [if_pos hi, if_pos hi, Nat.testBit_and, Nat.testBit_div_two_pow]
    by_cases hie : i + e < 8
    · rw [if_pos hie]
    · have hzero : d.testBit i = false :=
        Nat.testBit_lt_two_pow (hd.trans_le (Nat.pow_le_pow_right (by decide) (by omega)))
      rw [hzero, Bool.and_false, Bool.and_false]
  · rw [if_neg hi, if_neg hi, if_neg (by omega), Nat.testBit_and, Nat.testBit_div_two_pow]
    congr 2
    omega

theorem shift_and_word {bs : List Nat} {d e : Nat} (hbs : Below (2 ^ 8) bs) (he : e ≤ 8) (hd : d < 2 ^ (8 - e)) :
    (word bs / 2 ^ e) &&& mask bs.length d = word (bs.map fun b => b / 2 ^ e &&& d) := by
  induction bs with
  | nil => exact Nat.and_zero _
  | cons b bs ih =>
    have hb : b < 2 ^ 8 := hbs b List.mem_cons_self
    rw [List.length_cons, mask, List.replicate_succ, word, word, shift_and_byte hb he hd, ← mask,
      ih fun c hc => hbs c (List.mem_cons_of_mem _ hc)]
    rfl

theorem and_byte {b d : Nat} (hb : b < 2 ^ 8) (hd : d < 2 ^ 8) (n m : Nat) :
    (b + 2 ^ 8 * n) &&& (d + 2 ^ 8 * m) = (b &&& d) + 2 ^ 8 * (n &&& m) := by
  simpa using shift_and_byte (e := 0) hb (by decide) hd n m

theorem and_word {bs : List Nat} {d : Nat} (hbs : Below (2 ^ 8) bs) (hd : d < 2 ^ 8) :
    word bs &&& mask bs.length d = word (bs.map (· &&& d)) := by
  simpa using shift_and_word (e := 0) hbs (by decide) hd

theorem word_add (bs : List Nat) (f g : Nat → Nat) : word (bs.map f) + word (bs.map g) = word (bs.map fun b => f b + g b) := by
  induction bs with
  | nil => rfl
  | cons b bs ih =>
    simp only [List.map_cons, word]
    rw [← ih]
    ring

theorem word_sub (bs : List Nat) {f g : Nat → Nat} (h : ∀ b ∈ bs, g b ≤ f b) :
    word (bs.map f) - word (bs.map g) = word (bs.map fun b => f b - g b) := by
  have hle : ∀ b ∈ bs, (f b - g b) + g b = f b := fun b hb => Nat.sub_add_cancel (h b hb)
  have hsum : word (bs.map fun b => f b - g b) + word (bs.map g) = word (bs.map f) := by
    rw [word_add]
    exact congrArg word (List.map_congr_left hle)
  omega

/-! ## The count of a word -/

/-- The ones among the lowest bits. -/
def ones (w n : Nat) : Nat := ∑ i ∈ range w, (n.testBit i).toNat

theorem ones_byte {b : Nat} (hb : b < 2 ^ 8) (w n : Nat) : ones (8 + w) (b + 2 ^ 8 * n) = ones 8 b + ones w n := by
  rw [ones, sum_range_add]
  congr 1
  · apply sum_congr rfl
    intro i hi
    rw [testBit_byte hb, if_pos (mem_range.1 hi)]
  · apply sum_congr rfl
    intro i _
    rw [testBit_byte hb, if_neg (by omega), Nat.add_sub_cancel_left]

theorem ones_word {bs : List Nat} (hbs : Below (2 ^ 8) bs) : ones (8 * bs.length) (word bs) = (bs.map (ones 8)).sum := by
  induction bs with
  | nil => rfl
  | cons b bs ih =>
    rw [List.length_cons, Nat.mul_succ, Nat.add_comm (8 * _), word, ones_byte (hbs b List.mem_cons_self),
      ih fun c hc => hbs c (List.mem_cons_of_mem _ hc), List.map_cons, List.sum_cons]

/-! ### The steps -/

def pairSums (k n : Nat) : Nat := n - (n / 2 ^ 1 &&& mask k 0x55)

def nibbleSums (k n : Nat) : Nat := (n &&& mask k 0x33) + (n / 2 ^ 2 &&& mask k 0x33)

def byteSums (k n : Nat) : Nat := (n + n / 2 ^ 4) &&& mask k 0x0f

theorem pairSums_word {bs : List Nat} (hbs : Below (2 ^ 8) bs) :
    pairSums bs.length (word bs) = word (bs.map (pairSums 1)) := by
  have hsub := word_sub bs (f := id) (g := fun b => b / 2 ^ 1 &&& 0x55)
    fun b _ => Nat.and_le_left.trans (Nat.div_le_self b _)
  rw [List.map_id] at hsub
  rw [pairSums, shift_and_word hbs (by decide) (by decide), hsub]
  rfl

theorem nibbleSums_word {bs : List Nat} (hbs : Below (2 ^ 8) bs) :
    nibbleSums bs.length (word bs) = word (bs.map (nibbleSums 1)) := by
  rw [nibbleSums, and_word hbs (by decide), shift_and_word hbs (by decide) (by decide), word_add]
  rfl

/-- The sums of nibbles do not run into each other. -/
def NibblesSmall (bs : List Nat) : Prop := ∀ b ∈ bs, b / 2 ^ 4 ≤ 4 ∧ b % 2 ^ 4 ≤ 4

theorem byteSums_word {bs : List Nat} (hbs : NibblesSmall bs) :
    byteSums bs.length (word bs) = word (bs.map fun b => b / 2 ^ 4 + b % 2 ^ 4) := by
  induction bs with
  | nil => rfl
  | cons b bs ih =>
    obtain ⟨hhigh, hlow⟩ := hbs b List.mem_cons_self
    have hbs' : NibblesSmall bs := fun c hc => hbs c (List.mem_cons_of_mem _ hc)
    have hnext : word bs % 2 ^ 4 ≤ 4 := by
      cases bs with
      | nil => decide
      | cons c cs =>
        have hc := (hbs' c List.mem_cons_self).2
        rw [word]
        omega
    have hsum : b + 2 ^ 8 * word bs + (b + 2 ^ 8 * word bs) / 2 ^ 4 =
        (b + b / 2 ^ 4 + 2 ^ 4 * (word bs % 2 ^ 4)) + 2 ^ 8 * (word bs + word bs / 2 ^ 4) := by
      omega
    have hbyte : b + b / 2 ^ 4 + 2 ^ 4 * (word bs % 2 ^ 4) < 2 ^ 8 := by omega
    rw [List.length_cons, byteSums, mask, List.replicate_succ, word, word, hsum,
      and_byte hbyte (by decide), ← mask, ← byteSums, ih hbs', List.map_cons, word]
    congr 1
    rw [show 0x0f = 2 ^ 4 - 1 from rfl, Nat.and_two_pow_sub_one_eq_mod]
    omega

/-- The steps on one byte. -/
theorem byte_count : ∀ b < 2 ^ 8, pairSums 1 b < 2 ^ 8 ∧ nibbleSums 1 (pairSums 1 b) / 2 ^ 4 ≤ 4 ∧
    nibbleSums 1 (pairSums 1 b) % 2 ^ 4 ≤ 4 ∧
    nibbleSums 1 (pairSums 1 b) / 2 ^ 4 + nibbleSums 1 (pairSums 1 b) % 2 ^ 4 = ones 8 b := by
  decide +kernel

theorem byteSums_eq {bs : List Nat} (hbs : Below (2 ^ 8) bs) :
    byteSums bs.length (nibbleSums bs.length (pairSums bs.length (word bs))) = word (bs.map (ones 8)) := by
  have hpairs : Below (2 ^ 8) (bs.map (pairSums 1)) := by
    intro c hc
    obtain ⟨b, hb, rfl⟩ := List.mem_map.1 hc
    exact (byte_count b (hbs b hb)).1
  have hsmall : NibblesSmall ((bs.map (pairSums 1)).map (nibbleSums 1)) := by
    intro c hc
    rw [List.map_map] at hc
    obtain ⟨b, hb, rfl⟩ := List.mem_map.1 hc
    obtain ⟨-, hhigh, hlow, -⟩ := byte_count b (hbs b hb)
    exact ⟨hhigh, hlow⟩
  have hnibbles := nibbleSums_word hpairs
  have hbytes := byteSums_word hsmall
  rw [List.length_map] at hnibbles
  rw [List.length_map, List.length_map] at hbytes
  rw [pairSums_word hbs, hnibbles, hbytes, List.map_map, List.map_map]
  exact congrArg word (List.map_congr_left fun b hb => (byte_count b (hbs b hb)).2.2.2)

/-! ### The sum of the bytes -/

theorem ones_le (w n : Nat) : ones w n ≤ w := by
  induction w with
  | zero => exact le_rfl
  | succ w ih =>
    have hbit := Bool.toNat_le (n.testBit w)
    rw [ones, sum_range_succ, ← ones]
    omega

/-- The highest byte of a product with ones in every byte. -/
theorem top_byte {bs : List Nat} (hlen : bs.length = 8) (hbs : Below 9 bs) :
    word bs * mask 8 1 % 2 ^ 64 / 2 ^ 56 = bs.sum := by
  obtain ⟨b₀, b₁, b₂, b₃, b₄, b₅, b₆, b₇, rfl⟩ : ∃ b₀ b₁ b₂ b₃ b₄ b₅ b₆ b₇, bs = [b₀, b₁, b₂, b₃, b₄, b₅, b₆, b₇] := by
    match bs, hlen with
    | [b₀, b₁, b₂, b₃, b₄, b₅, b₆, b₇], _ => exact ⟨b₀, b₁, b₂, b₃, b₄, b₅, b₆, b₇, rfl⟩
  simp only [Below, List.mem_cons, List.not_mem_nil, or_false, forall_eq_or_imp, forall_eq] at hbs
  -- the bytes of the product below, at and above the one that has the whole sum
  obtain ⟨low, hlow⟩ : ∃ low, low = word [b₀, b₀ + b₁, b₀ + b₁ + b₂, b₀ + b₁ + b₂ + b₃, b₀ + b₁ + b₂ + b₃ + b₄,
    b₀ + b₁ + b₂ + b₃ + b₄ + b₅, b₀ + b₁ + b₂ + b₃ + b₄ + b₅ + b₆] := ⟨_, rfl⟩
  obtain ⟨high, hhigh⟩ : ∃ high, high = word [b₁ + b₂ + b₃ + b₄ + b₅ + b₆ + b₇, b₂ + b₃ + b₄ + b₅ + b₆ + b₇,
    b₃ + b₄ + b₅ + b₆ + b₇, b₄ + b₅ + b₆ + b₇, b₅ + b₆ + b₇, b₆ + b₇, b₇] := ⟨_, rfl⟩
  have hprod : word [b₀, b₁, b₂, b₃, b₄, b₅, b₆, b₇] * mask 8 1 =
      low + 2 ^ 56 * ([b₀, b₁, b₂, b₃, b₄, b₅, b₆, b₇].sum + 2 ^ 8 * high) := by
    rw [hlow, hhigh]
    simp only [word, mask, List.replicate, List.sum_cons, List.sum_nil]
    ring
  have hlow' : low < 2 ^ 56 := by
    rw [hlow]
    simp only [word]
    omega
  have hsum : [b₀, b₁, b₂, b₃, b₄, b₅, b₆, b₇].sum < 2 ^ 8 := by
    simp only [List.sum_cons, List.sum_nil]
    omega
  rw [hprod]
  omega

/-- All steps, on a word of eight bytes. -/
theorem population_count {n : Nat} (h : n < 2 ^ 64) :
    byteSums 8 (nibbleSums 8 (pairSums 8 n)) * mask 8 1 % 2 ^ 64 / 2 ^ 56 = ones 64 n := by
  have hword : word (bytes 8 n) = n := word_bytes h
  have hbytes := bytes_below 8 n
  have hsum := byteSums_eq hbytes
  have hones := ones_word hbytes
  have hsmall : Below 9 ((bytes 8 n).map (ones 8)) := by
    intro c hc
    obtain ⟨b, -, rfl⟩ := List.mem_map.1 hc
    exact Nat.lt_succ_of_le (ones_le 8 b)
  rw [show (bytes 8 n).length = 8 from rfl, hword] at hsum hones
  rw [hsum, hones, top_byte rfl hsmall]

end Lib.PopulationCount
