import Mathlib.Data.List.Range
/-!
# Loops with an end

`for (a = start; a != stop; a = next a) if (!body a) return false; return true;`
with fuel. A loop whose variable passes `pos 0`, `pos 1`, … up to `stop` runs
its body on each of them, up to the first that fails.
-/
namespace Lib.Loop

variable {α : Type} [DecidableEq α]

/-- The values the body succeeded on, and whether the loop came to its end. The body may look at how
many there were before. -/
def forLoop (next : α → α) (stop : α) (body : Nat → α → Bool) : Nat → Nat → α → Option (List α × Bool)
  | 0, _, _ => none
  | fuel + 1, k, a =>
    if a = stop then some ([], true)
    else if !body k a then some ([], false)
    else (forLoop next stop body fuel (k + 1) (next a)).map fun r => (a :: r.1, r.2)

variable {next : α → α} {stop : α} {body : Nat → α → Bool} (pos : Nat → α) {m : Nat}

/-- The loop from its `k`-th value on. -/
theorem forLoop_from (hnext : ∀ k < m, next (pos k) = pos (k + 1)) (hne : ∀ k < m, pos k ≠ stop)
    (hstop : pos m = stop) {j : Nat} (hj : j ≤ m) (hok : ∀ k < j, body k (pos k) = true)
    (hfail : j < m → body j (pos j) = false) (n k fuel : Nat) (hk : k + n = j) (hf : n < fuel) :
    forLoop next stop body fuel k (pos k) = some ((List.range' k n).map pos, decide (j = m)) := by
  induction n generalizing k fuel with
  | zero =>
    obtain rfl : k = j := hk
    obtain ⟨fuel, rfl⟩ := Nat.exists_eq_succ_of_ne_zero (Nat.ne_of_gt hf)
    rcases Nat.lt_or_eq_of_le hj with hlt | rfl
    · simp [forLoop, hne k hlt, hfail hlt, Nat.ne_of_lt hlt]
    · simp [forLoop, hstop]
  | succ n ih =>
    obtain ⟨fuel, rfl⟩ := Nat.exists_eq_succ_of_ne_zero (Nat.ne_of_gt (Nat.zero_lt_of_lt hf))
    have hkj : k < j := by omega
    have hkm : k < m := Nat.lt_of_lt_of_le hkj hj
    have hrec := ih (k + 1) fuel (by omega) (by omega)
    simp [forLoop, hne k hkm, hok k hkj, hnext k hkm, hrec, List.range'_succ]

/-- The whole loop, with its first failure at `j`, or none and `j = m`. -/
theorem forLoop_range (hnext : ∀ k < m, next (pos k) = pos (k + 1)) (hne : ∀ k < m, pos k ≠ stop)
    (hstop : pos m = stop) {j : Nat} (hj : j ≤ m) (hok : ∀ k < j, body k (pos k) = true)
    (hfail : j < m → body j (pos j) = false) {fuel : Nat} (hf : j < fuel) :
    forLoop next stop body fuel 0 (pos 0) = some ((List.range j).map pos, decide (j = m)) := by
  rw [List.range_eq_range']
  exact forLoop_from pos hnext hne hstop hj hok hfail j 0 fuel (Nat.zero_add j) hf

/-- What a loop over `s`, `s + 1`, … gets to, when it ends at the first value that does not pass. -/
def AllReached (pass read : Nat → Prop) (s k : Nat) : Prop :=
  ∀ i, s ≤ i → i < s + k → (∀ j, s ≤ j → j < i → pass j) → read i

theorem allReached_zero (pass read : Nat → Prop) (s : Nat) : AllReached pass read s 0 := fun i h1 h2 => by omega

theorem allReached_succ {pass read : Nat → Prop} {s k : Nat} :
    AllReached pass read s (k + 1) ↔ read s ∧ (pass s → AllReached pass read (s + 1) k) := by
  constructor
  · intro h
    refine ⟨h s le_rfl (by omega) fun j h1 h2 => by omega, fun hs i h1 h2 hpass => h i (by omega) (by omega) ?_⟩
    intro j h3 h4
    rcases Nat.eq_or_lt_of_le h3 with rfl | hlt
    · exact hs
    · exact hpass j hlt h4
  · rintro ⟨hread, hrest⟩ i h1 h2 hpass
    rcases Nat.eq_or_lt_of_le h1 with rfl | hlt
    · exact hread
    · exact hrest (hpass s le_rfl hlt) i hlt (by omega) fun j h3 h4 => hpass j (by omega) h4

/-- Blocks of one size, one after the other. -/
theorem flatMap_range_mul {β : Type} (f : Nat → β) (w n : Nat) :
    (List.range n).flatMap (fun g => (List.range w).map fun l => f (w * g + l)) = (List.range (w * n)).map f := by
  induction n with
  | zero => simp
  | succ n ih =>
    rw [List.range_succ, List.flatMap_append, ih, Nat.mul_succ, List.range_add, List.map_append]
    simp [Function.comp_def]

end Lib.Loop
