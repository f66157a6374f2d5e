import Mathlib.Data.Nat.Dist
import Mathlib.Order.Monotone.Basic
import Mathlib.Data.Nat.Log
import Mathlib.Tactic.Ring
/-!
# Patterns of floating-point numbers

The bits below the sign of a binary format, read as a number, are in the order
of the magnitudes that they denote: each is one unit in the last place above
the one before it, and what comes after the greatest finite one is infinity.
-/
namespace Lib.FloatPattern

/-! ## Fields -/

/-- A pattern by its sign, exponent and significand, the last two of `k` and `t` bits. -/
structure Fields (k t a s e m : Nat) : Prop where
  sign_lt : s < 2
  exponent_lt : e < 2 ^ k
  mantissa_lt : m < 2 ^ t
  eq : a = (s * 2 ^ k + e) * 2 ^ t + m

theorem exists_fields {k t a : Nat} (h : a < 2 ^ (k + t + 1)) : ∃ s e m, Fields k t a s e m := by
  refine ⟨a / 2 ^ t / 2 ^ k, a / 2 ^ t % 2 ^ k, a % 2 ^ t, ?_, Nat.mod_lt _ (Nat.two_pow_pos k),
    Nat.mod_lt _ (Nat.two_pow_pos t), ?_⟩
  · rw [Nat.div_div_eq_div_mul, ← pow_add, Nat.div_lt_iff_lt_mul (Nat.two_pow_pos _), Nat.add_comm t, ← pow_succ']
    exact h
  · rw [Nat.div_add_mod', Nat.div_add_mod']

/-! ## Magnitudes -/

/-- What an exponent and `t` bits of a significand denote, in multiples of the least magnitude. -/
def magnitude (t a : Nat) : Nat :=
  if a / 2 ^ t = 0 then a % 2 ^ t else (2 ^ t + a % 2 ^ t) * 2 ^ (a / 2 ^ t - 1)

theorem magnitude_subnormal {t m : Nat} (hm : m < 2 ^ t) : magnitude t m = m := by
  rw [magnitude, Nat.div_eq_of_lt hm, if_pos rfl, Nat.mod_eq_of_lt hm]

theorem magnitude_normal {t x m : Nat} (hx : 0 < x) (hm : m < 2 ^ t) :
    magnitude t (x * 2 ^ t + m) = (2 ^ t + m) * 2 ^ (x - 1) := by
  have hpos : 0 < 2 ^ t := Nat.two_pow_pos t
  have hdiv : (x * 2 ^ t + m) / 2 ^ t = x := by
    rw [Nat.mul_comm, Nat.mul_add_div hpos, Nat.div_eq_of_lt hm, Nat.add_zero]
  have hmod : (x * 2 ^ t + m) % 2 ^ t = m := by
    rw [Nat.mul_comm, Nat.mul_add_mod, Nat.mod_eq_of_lt hm]
  rw [magnitude, hdiv, hmod, if_neg hx.ne']

/-- One unit in the last place. -/
theorem magnitude_succ (t a : Nat) : magnitude t (a + 1) = magnitude t a + 2 ^ (a / 2 ^ t - 1) := by
  have hpos : 0 < 2 ^ t := Nat.two_pow_pos t
  obtain ⟨x, m, hm, rfl⟩ : ∃ x m, m < 2 ^ t ∧ a = x * 2 ^ t + m :=
    ⟨a / 2 ^ t, a % 2 ^ t, Nat.mod_lt _ hpos, (Nat.div_add_mod' a (2 ^ t)).symm⟩
  have hdiv : (x * 2 ^ t + m) / 2 ^ t = x := by
    rw [Nat.mul_comm, Nat.mul_add_div hpos, Nat.div_eq_of_lt hm, Nat.add_zero]
  rw [hdiv]
  rcases Nat.lt_or_ge (m + 1) (2 ^ t) with hlt | hge
  · rcases Nat.eq_zero_or_pos x with rfl | hx
    · rw [Nat.zero_mul, Nat.zero_add, magnitude_subnormal hlt, magnitude_subnormal hm]
      rfl
    · rw [Nat.add_assoc, magnitude_normal hx hlt, magnitude_normal hx hm]
      ring
  · have hcarry : x * 2 ^ t + m + 1 = (x + 1) * 2 ^ t + 0 := by
      rw [Nat.add_mul]
      omega
    rw [hcarry, magnitude_normal (Nat.succ_pos x) hpos]
    rcases Nat.eq_zero_or_pos x with rfl | hx
    · rw [Nat.zero_mul, Nat.zero_add, magnitude_subnormal hm]
      simp only [Nat.add_zero, Nat.sub_self, Nat.zero_sub, pow_zero, Nat.mul_one]
      omega
    · obtain ⟨y, rfl⟩ : ∃ y, x = y + 1 := ⟨x - 1, by omega⟩
      rw [magnitude_normal hx hm]
      have hm' : 2 ^ t = m + 1 := by omega
      have hpow : 2 ^ ((y + 1).succ - 1) = 2 ^ y * 2 := pow_succ 2 y
      rw [Nat.add_zero, Nat.add_sub_cancel, hpow, hm']
      ring

theorem magnitude_strictMono (t : Nat) : StrictMono (magnitude t) :=
  strictMono_nat_of_lt_succ fun a => by
    rw [magnitude_succ]
    exact Nat.lt_add_of_pos_right (Nat.two_pow_pos _)

/-! ## The nearest pattern -/

/-- No pattern up to the greatest denotes a nearer number. -/
def Nearest (g : Nat → Nat) (greatest v a : Nat) : Prop :=
  a ≤ greatest ∧ ∀ b ≤ greatest, Nat.dist (g a) v ≤ Nat.dist (g b) v

/-- It is enough to look at the neighbours. -/
theorem nearest_iff {g : Nat → Nat} (hg : StrictMono g) (greatest v a : Nat) :
    Nearest g greatest v a ↔ a ≤ greatest ∧ (0 < a → g (a - 1) + g a ≤ 2 * v) ∧
      (a < greatest → 2 * v ≤ g a + g (a + 1)) := by
  unfold Nearest Nat.dist
  constructor
  · rintro ⟨hle, h⟩
    refine ⟨hle, fun hpos => ?_, fun hlt => ?_⟩
    · have hprev := hg (Nat.sub_lt hpos Nat.zero_lt_one)
      have hdist := h (a - 1) (by omega)
      omega
    · have hnext := hg (Nat.lt_add_one a)
      have hdist := h (a + 1) (by omega)
      omega
  · rintro ⟨hle, hprev, hnext⟩
    refine ⟨hle, fun b hb => ?_⟩
    rcases lt_trichotomy b a with hlt | rfl | hgt
    · have hmono := hg.monotone (show b ≤ a - 1 by omega)
      have hstep := hg (Nat.sub_lt (show 0 < a by omega) Nat.zero_lt_one)
      have := hprev (by omega)
      omega
    · exact le_rfl
    · have hmono := hg.monotone (show a + 1 ≤ b by omega)
      have hstep := hg (Nat.lt_add_one a)
      have := hnext (by omega)
      omega

theorem Nearest.le_of_le {g : Nat → Nat} (hg : StrictMono g) {greatest v a c : Nat} (h : Nearest g greatest v a)
    (hc : c ≤ greatest) (hv : v ≤ g c) : a ≤ c := by
  by_contra hlt
  have hmono := hg (not_le.1 hlt)
  have hdist := h.2 c hc
  unfold Nat.dist at hdist
  omega

/-- Between two neighbours. -/
theorem nearest_between_iff {g : Nat → Nat} (hg : StrictMono g) {greatest v c : Nat} (hc : c < greatest)
    (hlo : g c ≤ v) (hhi : v < g (c + 1)) (a : Nat) :
    Nearest g greatest v a ↔ (a = c ∧ 2 * v ≤ g c + g (c + 1)) ∨ (a = c + 1 ∧ g c + g (c + 1) ≤ 2 * v) := by
  rw [nearest_iff hg]
  constructor
  · rintro ⟨hle, hprev, hnext⟩
    have hge : c ≤ a := by
      by_contra hlt
      have hmono := hg.monotone (show a + 1 ≤ c by omega)
      have hstep := hg (Nat.lt_add_one a)
      have := hnext (by omega)
      omega
    have hlt : a ≤ c + 1 := by
      by_contra hgt
      have hmono := hg.monotone (show c + 1 ≤ a - 1 by omega)
      have hstep := hg (Nat.sub_lt (show 0 < a by omega) Nat.zero_lt_one)
      have := hprev (by omega)
      omega
    rcases Nat.eq_or_lt_of_le hge with rfl | hgt
    · exact .inl ⟨rfl, hnext hc⟩
    · obtain rfl : a = c + 1 := by omega
      exact .inr ⟨rfl, hprev (Nat.succ_pos c)⟩
  · rintro (⟨rfl, hnear⟩ | ⟨rfl, hnear⟩)
    · refine ⟨hc.le, fun hpos => ?_, fun _ => hnear⟩
      have hstep := hg (Nat.sub_lt hpos Nat.zero_lt_one)
      omega
    · refine ⟨hc, fun _ => hnear, fun _ => ?_⟩
      have hstep := hg (Nat.lt_add_one (c + 1))
      omega

/-- Some units above a pattern, where the next is `2 * d` units above. -/
theorem nearest_step_iff {g : Nat → Nat} (hg : StrictMono g) {greatest c d r u : Nat} (hc : c < greatest) (hu : 0 < u)
    (hr : r < 2 * d) (hstep : g (c + 1) = g c + 2 * d * u) (a : Nat) :
    Nearest g greatest (g c + r * u) a ↔ (a = c ∧ r ≤ d) ∨ (a = c + 1 ∧ d ≤ r) := by
  have hlt : g c + r * u < g (c + 1) := by
    rw [hstep]
    exact Nat.add_lt_add_left (Nat.mul_lt_mul_of_pos_right hr hu) _
  have hle : r * u ≤ d * u ↔ r ≤ d := Nat.mul_le_mul_right_iff hu
  have hge : d * u ≤ r * u ↔ d ≤ r := Nat.mul_le_mul_right_iff hu
  rw [nearest_between_iff hg hc (Nat.le_add_right _ _) hlt, hstep, Nat.mul_assoc]
  omega

/-- From the greatest on. -/
theorem nearest_of_greatest_le {g : Nat → Nat} (hg : StrictMono g) {greatest v : Nat} (h : g greatest ≤ v) (a : Nat) :
    Nearest g greatest v a ↔ a = greatest := by
  rw [nearest_iff hg]
  constructor
  · rintro ⟨hle, -, hnext⟩
    by_contra hne
    have hmono := hg.monotone (show a + 1 ≤ greatest by omega)
    have hstep := hg (Nat.lt_add_one a)
    have := hnext (by omega)
    omega
  · rintro rfl
    refine ⟨le_rfl, fun hpos => ?_, fun hlt => (lt_irrefl _ hlt).elim⟩
    have hstep := hg (Nat.sub_lt hpos Nat.zero_lt_one)
    omega

/-- A number with a pattern of its own. -/
theorem nearest_exact_iff {g : Nat → Nat} (hg : StrictMono g) {greatest a : Nat} (h : a ≤ greatest) (b : Nat) :
    Nearest g greatest (g a) b ↔ b = a := by
  rcases Nat.eq_or_lt_of_le h with rfl | hlt
  · exact nearest_of_greatest_le hg le_rfl b
  · have hstep := hg (Nat.lt_add_one a)
    rw [nearest_between_iff hg hlt le_rfl hstep]
    omega

/-! ## Whole numbers -/

/-- The quotient rounded to the nearest, and to the even one of two. -/
def nearestEven (n d : Nat) : Nat :=
  if 2 * (n % d) < d ∨ (2 * (n % d) = d ∧ n / d % 2 = 0) then n / d else n / d + 1

/-- The pattern of a whole number, with the exponent biased by `bias`. A carry goes into the exponent. -/
def ofNat (t bias n : Nat) : Nat :=
  if n = 0 then 0 else (bias - 1 + n.log2) * 2 ^ t + nearestEven (n * 2 ^ t) (2 ^ n.log2)

/-- The number without its fraction. -/
def wholePart (t bias a : Nat) : Nat := magnitude t a / 2 ^ (bias + t - 1)

/-- A whole number that the significand has room for. -/
theorem magnitude_ofNat {t bias n : Nat} (hb : 0 < bias) (hd : n ≠ 0 → 2 ^ n.log2 ∣ n * 2 ^ t) :
    magnitude t (ofNat t bias n) = n * 2 ^ (bias + t - 1) := by
  unfold ofNat
  split
  · next h => rw [h, magnitude_subnormal (Nat.two_pow_pos t), Nat.zero_mul]
  · next h =>
    obtain ⟨q, hq⟩ := hd h
    have hpos : 0 < 2 ^ n.log2 := Nat.two_pow_pos _
    have heven : nearestEven (n * 2 ^ t) (2 ^ n.log2) = q := by
      rw [nearestEven, hq, Nat.mul_mod_right, Nat.mul_div_cancel_left _ hpos, if_pos (.inl hpos)]
    have hlo : 2 ^ n.log2 ≤ n := Nat.log2_self_le h
    have hhi : n < 2 ^ n.log2 * 2 := by
      rw [← pow_succ]
      exact Nat.lt_log2_self
    have hqlo : 2 ^ t ≤ q := by
      rw [← Nat.mul_le_mul_left_iff hpos, ← hq]
      exact Nat.mul_le_mul_right _ hlo
    have hqhi : q < 2 ^ t * 2 := by
      rw [← Nat.mul_lt_mul_left hpos, ← hq, ← Nat.mul_assoc, Nat.mul_right_comm]
      exact Nat.mul_lt_mul_of_pos_right hhi (Nat.two_pow_pos t)
    obtain ⟨m, rfl⟩ := Nat.exists_eq_add_of_le hqlo
    have hpattern : (bias - 1 + n.log2) * 2 ^ t + (2 ^ t + m) = (bias + n.log2) * 2 ^ t + m := by
      obtain ⟨b, rfl⟩ : ∃ b, bias = b + 1 := ⟨bias - 1, by omega⟩
      rw [Nat.add_sub_cancel]
      ring
    rw [heven, hpattern, magnitude_normal (by omega) (by omega)]
    calc (2 ^ t + m) * 2 ^ (bias + n.log2 - 1)
        = 2 ^ n.log2 * (2 ^ t + m) * 2 ^ (bias - 1) := by
          rw [show bias + n.log2 - 1 = n.log2 + (bias - 1) by omega, pow_add]
          ring
      _ = n * 2 ^ (bias + t - 1) := by
          rw [← hq, show bias + t - 1 = t + (bias - 1) by omega, pow_add]
          ring

end Lib.FloatPattern
