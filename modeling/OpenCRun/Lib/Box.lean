import Mathlib.Data.Fintype.Basic
import Mathlib.Data.Set.Lattice
import Mathlib.Order.Interval.Set.LinearOrder
/-!
# Boxes

A box has in each dimension the points from a lower bound up to, but not
including, an upper one. Two boxes overlap if they have a point in common.
-/
namespace Lib

structure Box (ι α : Type) where
  lower : ι → α
  upper : ι → α

namespace Box

variable {ι α : Type} [LinearOrder α]

def points (b : Box ι α) : Set (ι → α) := Set.univ.pi fun i => Set.Ico (b.lower i) (b.upper i)

def Overlap (b c : Box ι α) : Prop := (b.points ∩ c.points).Nonempty

/-- Boxes overlap if they do in every dimension. -/
theorem overlap_iff {b c : Box ι α} :
    b.Overlap c ↔ ∀ i, max (b.lower i) (c.lower i) < min (b.upper i) (c.upper i) := by
  simp only [Overlap, points, ← Set.pi_inter_distrib, Set.univ_pi_nonempty_iff, Set.Ico_inter_Ico, Set.nonempty_Ico]

instance [Fintype ι] (b c : Box ι α) : Decidable (b.Overlap c) := decidable_of_iff _ overlap_iff.symm

end Box

end Lib
