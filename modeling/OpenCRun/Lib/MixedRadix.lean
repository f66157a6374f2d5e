import Mathlib.Algebra.BigOperators.Group.List.Basic
import Mathlib.Data.List.Forall2
import Mathlib.Tactic.Ring
/-!
# Mixed radix numerals

A numeral is a list of digits, the least significant first, each below its own
base. `digits` and `value` are inverse to each other up to the product of the
bases, and adding with carries is adding.
-/
namespace Lib.MixedRadix

def value : List Nat → List Nat → Nat
  | b :: bs, d :: ds => d + b * value bs ds
  | _, _ => 0

def digits : List Nat → Nat → List Nat
  | [], _ => []
  | b :: bs, n => n % b :: digits bs (n / b)

/-- Each digit is below its base. -/
def Valid (bs ds : List Nat) : Prop := List.Forall₂ (fun d b => d < b) ds bs

/-- Adds to the least significant digit and carries on; the numeral, and what is left to carry. -/
def addCarry : List Nat → List Nat → Nat → List Nat × Nat
  | b :: bs, d :: ds, c => ((d + c) % b :: (addCarry bs ds ((d + c) / b)).1, (addCarry bs ds ((d + c) / b)).2)
  | _, ds, c => (ds, c)

@[simp] theorem digits_length (bs : List Nat) (n : Nat) : (digits bs n).length = bs.length := by
  induction bs generalizing n with
  | nil => rfl
  | cons b bs ih => simp [digits, ih]

theorem digits_valid {bs : List Nat} (hb : ∀ b ∈ bs, 0 < b) (n : Nat) : Valid bs (digits bs n) := by
  induction bs generalizing n with
  | nil => exact .nil
  | cons b bs ih =>
    exact .cons (Nat.mod_lt _ (hb b (by simp))) (ih (fun b' h => hb b' (by simp [h])) _)

theorem value_lt {bs ds : List Nat} (h : Valid bs ds) : value bs ds < bs.prod := by
  induction h with
  | nil => simp [value]
  | @cons d b ds bs hd _ ih =>
    rw [value, List.prod_cons]
    calc d + b * value bs ds < b + b * value bs ds := by omega
      _ = b * (value bs ds + 1) := by ring
      _ ≤ b * bs.prod := Nat.mul_le_mul_left b ih

theorem value_digits (bs : List Nat) (n : Nat) : value bs (digits bs n) = n % bs.prod := by
  induction bs generalizing n with
  | nil => simp [value, Nat.mod_one]
  | cons b bs ih => rw [digits, value, ih, List.prod_cons, Nat.mod_mul]

theorem digits_value {bs ds : List Nat} (h : Valid bs ds) : digits bs (value bs ds) = ds := by
  induction h with
  | nil => rfl
  | @cons d b ds bs hd _ ih =>
    have hb : 0 < b := Nat.zero_lt_of_lt hd
    rw [value, digits, Nat.add_mul_mod_self_left, Nat.mod_eq_of_lt hd, Nat.add_mul_div_left _ _ hb,
      Nat.div_eq_of_lt hd, Nat.zero_add, ih]

theorem digits_inj {bs : List Nat} {m n : Nat} (hm : m < bs.prod) (hn : n < bs.prod) (h : digits bs m = digits bs n) :
    m = n := by
  rw [← Nat.mod_eq_of_lt hm, ← Nat.mod_eq_of_lt hn, ← value_digits, ← value_digits, h]

/-- The digits are those of the rest. -/
theorem digits_mod (bs : List Nat) (n : Nat) : digits bs (n % bs.prod) = digits bs n := by
  induction bs generalizing n with
  | nil => rfl
  | cons b bs ih =>
    rw [digits, digits, List.prod_cons, Nat.mod_mul_right_mod, Nat.mod_mul_right_div_self, ih]

@[simp] theorem digits_zero (bs : List Nat) : digits bs 0 = List.replicate bs.length 0 := by
  induction bs with
  | nil => rfl
  | cons b bs ih => simp [digits, ih, List.replicate_succ]

theorem value_append {as bs ds es : List Nat} (h : ds.length = as.length) :
    value (as ++ bs) (ds ++ es) = value as ds + as.prod * value bs es := by
  induction as generalizing ds with
  | nil =>
    rw [List.length_nil, List.length_eq_zero_iff] at h
    simp [h, value]
  | cons a as ih =>
    cases ds with
    | nil => cases h
    | cons d ds =>
      simp only [List.cons_append, value, List.prod_cons, ih (Nat.succ.inj h)]
      ring

/-- Adding with carries gives the digits of the sum. -/
theorem addCarry_digits (bs : List Nat) (hb : ∀ b ∈ bs, 0 < b) (n c : Nat) :
    (addCarry bs (digits bs n) c).1 = digits bs (n + c) ∧
      (addCarry bs (digits bs n) c).2 + n / bs.prod = (n + c) / bs.prod := by
  induction bs generalizing n c with
  | nil => simp [addCarry, digits, Nat.add_comm]
  | cons b bs ih =>
    have hb0 : 0 < b := hb b (by simp)
    -- the digit and the carry are the remainder and the quotient of the sum
    have hdiv : n / b + (n % b + c) / b = (n + c) / b := by
      conv_rhs => rw [← Nat.div_add_mod n b, Nat.add_assoc, Nat.mul_add_div hb0]
    obtain ⟨h1, h2⟩ := ih (fun b' h => hb b' (by simp [h])) (n / b) ((n % b + c) / b)
    rw [hdiv] at h1 h2
    simp only [addCarry, digits, List.prod_cons, ← Nat.div_div_eq_div_mul, h1, h2, Nat.mod_add_mod, and_self]

theorem addCarry_zero {bs ds : List Nat} (h : Valid bs ds) : addCarry bs ds 0 = (ds, 0) := by
  induction h with
  | nil => rfl
  | @cons d b ds bs hd _ ih => simp [addCarry, Nat.mod_eq_of_lt hd, Nat.div_eq_of_lt hd, ih]

theorem Valid.length_eq {bs ds : List Nat} (h : Valid bs ds) : ds.length = bs.length := List.Forall₂.length_eq h

theorem valid_iff {bs ds : List Nat} :
    Valid bs ds ↔ ds.length = bs.length ∧ ∀ i < bs.length, ds.getD i 0 < bs.getD i 0 := by
  unfold Valid
  rw [List.forall₂_iff_get]
  constructor
  · rintro ⟨hl, h⟩
    refine ⟨hl, fun i hi => ?_⟩
    have := h i (hl ▸ hi) hi
    simpa [List.getD_eq_getElem?_getD, List.getElem?_eq_getElem hi, List.getElem?_eq_getElem (hl ▸ hi)] using this
  · rintro ⟨hl, h⟩
    refine ⟨hl, fun i h1 h2 => ?_⟩
    have := h i h2
    simpa [List.getD_eq_getElem?_getD, List.getElem?_eq_getElem h1, List.getElem?_eq_getElem h2] using this

theorem Valid.take {bs ds : List Nat} (h : Valid bs ds) (n : Nat) : Valid (bs.take n) (ds.take n) :=
  List.forall₂_take n h

theorem prod_take_le {bs : List Nat} (hb : ∀ b ∈ bs, 0 < b) (n : Nat) : (bs.take n).prod ≤ bs.prod := by
  rw [← List.prod_take_mul_prod_drop bs n]
  exact Nat.le_mul_of_pos_right _ (List.prod_pos_iff_forall_pos_nat.2 fun b h => hb b (List.mem_of_mem_drop h))

end Lib.MixedRadix
