import Mathlib.Algebra.Order.Group.Nat
/-!
# Fields of a word

A word of bits as a number: what a mask or a shift keeps of it, and what comes of
fields that are put together.
-/
namespace Lib.BitFields

theorem and_field (n j k : Nat) : n &&& (2 ^ k - 1) * 2 ^ j = n / 2 ^ j % 2 ^ k * 2 ^ j := by
  apply Nat.eq_of_testBit_eq
  intro i
  rw [Nat.testBit_and, Nat.testBit_mul_two_pow, Nat.testBit_mul_two_pow, Nat.testBit_two_pow_sub_one,
    Nat.testBit_mod_two_pow, Nat.testBit_div_two_pow]
  by_cases hi : j ≤ i
  · simp [hi, Bool.and_comm]
  · simp [hi]

/-- Fields side by side. -/
theorem or_field (a : Nat) {b n : Nat} (h : b < 2 ^ n) : a * 2 ^ n ||| b = a * 2 ^ n + b := by
  rw [Nat.mul_comm, Nat.two_pow_add_eq_or_of_lt h]

/-- A field over the bits of another word. -/
theorem or_shift (a b n : Nat) : a * 2 ^ n ||| b = (a ||| b / 2 ^ n) * 2 ^ n + b % 2 ^ n := by
  have hsplit : b = b / 2 ^ n * 2 ^ n ||| b % 2 ^ n := by
    rw [or_field _ (Nat.mod_lt b (Nat.two_pow_pos n)), Nat.div_add_mod']
  have hor : a * 2 ^ n ||| b / 2 ^ n * 2 ^ n = (a ||| b / 2 ^ n) * 2 ^ n := by
    rw [← Nat.shiftLeft_eq, ← Nat.shiftLeft_eq, ← Nat.shiftLeft_eq, Nat.shiftLeft_or_distrib]
  calc a * 2 ^ n ||| b = (a * 2 ^ n ||| b / 2 ^ n * 2 ^ n) ||| b % 2 ^ n := by rw [Nat.or_assoc, ← hsplit]
    _ = (a ||| b / 2 ^ n) * 2 ^ n + b % 2 ^ n := by rw [hor, or_field _ (Nat.mod_lt b (Nat.two_pow_pos n))]

/-- What a mask keeps. -/
theorem toNat_field {w : Nat} (x : BitVec w) {mask : BitVec w} (j k : Nat) (hmask : mask.toNat = (2 ^ k - 1) * 2 ^ j) :
    (x &&& mask).toNat = x.toNat / 2 ^ j % 2 ^ k * 2 ^ j := by
  rw [BitVec.toNat_and, hmask, and_field]

/-- A field that is shifted down. -/
theorem shift_field (w j k : Nat) : (w >>> j) &&& (2 ^ k - 1) = w / 2 ^ j % 2 ^ k := by
  rw [Nat.and_two_pow_sub_one_eq_mod, Nat.shiftRight_eq_div_pow]

end Lib.BitFields
