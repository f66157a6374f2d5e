import Mathlib.Algebra.BigOperators.Group.Finset.Piecewise
import Mathlib.Algebra.BigOperators.Fin
import Mathlib.Algebra.Order.BigOperators.Group.Finset
/-!
# Tallies over many parties

Each of finitely many parties is in a phase, and a phase has a weight. When one
party changes phase the total changes by the difference of two weights, so an
invariant about counters is arithmetic.
-/
namespace Lib.Tally

variable {ι α : Type} [Fintype ι]

def total (w : α → Nat) (f : ι → α) : Nat := ∑ i, w (f i)

theorem total_update [DecidableEq ι] (w : α → Nat) (f : ι → α) (i : ι) (a : α) :
    total w (Function.update f i a) + w (f i) = total w f + w a := by
  have hcomp : (fun j => w (Function.update f i a j)) = Function.update (fun j => w (f j)) i (w a) := by
    funext j
    exact Function.apply_update (fun _ => w) f i a j
  have hsplit := Finset.sum_update_of_mem (Finset.mem_univ i) (fun j => w (f j)) (w a)
  have hrest := Finset.add_sum_erase Finset.univ (fun j => w (f j)) (Finset.mem_univ i)
  rw [Finset.sdiff_singleton_eq_erase] at hsplit
  simp only [total, hcomp, hsplit, ← hrest]
  omega

theorem le_total (w : α → Nat) (f : ι → α) (i : ι) : w (f i) ≤ total w f :=
  Finset.single_le_sum (f := fun j => w (f j)) (fun _ _ => Nat.zero_le _) (Finset.mem_univ i)

/-- Two parties count both. -/
theorem add_le_total [DecidableEq ι] (w : α → Nat) (f : ι → α) {i j : ι} (h : i ≠ j) : w (f i) + w (f j) ≤ total w f := by
  have hp := Finset.sum_pair (f := fun k => w (f k)) h
  rw [← hp]
  exact Finset.sum_le_sum_of_subset (Finset.subset_univ _)

theorem total_pos {w : α → Nat} {f : ι → α} : 0 < total w f ↔ ∃ i, 0 < w (f i) := by
  simp only [total, Finset.sum_pos_iff, Finset.mem_univ, true_and]

theorem total_const (w : α → Nat) (a : α) : total w (fun _ : ι => a) = Fintype.card ι * w a := by
  simp [total]

theorem total_le {w : α → Nat} (hw : ∀ a, w a ≤ 1) (f : ι → α) : total w f ≤ Fintype.card ι := by
  have h := Finset.sum_le_card_nsmul Finset.univ (fun i => w (f i)) 1 fun i _ => hw (f i)
  simpa [total] using h

/-- With weights of at most one, the total is the number of parties when every party has weight one. -/
theorem total_eq_card {w : α → Nat} {f : ι → α} (hw : ∀ a, w a ≤ 1) :
    total w f = Fintype.card ι ↔ ∀ i, w (f i) = 1 := by
  constructor
  · intro h i
    by_contra hne
    have hlt : total w f < ∑ _j : ι, 1 :=
      Finset.sum_lt_sum (fun j _ => hw (f j)) ⟨i, Finset.mem_univ i, lt_of_le_of_ne (hw (f i)) hne⟩
    simp [h] at hlt
  · intro h
    simp [total, h]

end Lib.Tally
