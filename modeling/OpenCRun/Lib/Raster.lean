import OpenCRun.Lib.Box
import Mathlib.Algebra.Group.Pi.Basic
import Mathlib.Algebra.Order.Sub.Basic
import Mathlib.Order.CompletePartialOrder
/-!
# Rasters

A raster has a value at each point of a grid. A box of one raster is cut out of
it, and pasted into another one.
-/
namespace Lib

abbrev Raster (ι α : Type) := (ι → Nat) → α

namespace Raster

variable {ι α : Type}

/-- The points of a box of size `r` with its origin at `o`. -/
def box (o r : ι → Nat) : Set (ι → Nat) := Box.points ⟨o, o + r⟩

/-- The raster, seen from `o`. -/
def cut (o : ι → Nat) (f : Raster ι α) : Raster ι α := fun p => f (o + p)

open Classical in
/-- `f` is laid over a box of `g`. -/
noncomputable def paste (o r : ι → Nat) (f g : Raster ι α) : Raster ι α := fun p => if p ∈ box o r then f (p - o) else g p

variable {o o' r r' : ι → Nat} {f f' g g' : Raster ι α} {p : ι → Nat}

theorem mem_box : p ∈ box o r ↔ ∀ i, o i ≤ p i ∧ p i < o i + r i := by
  simp [box, Box.points]

@[simp] theorem add_mem_box : o + p ∈ box o r ↔ ∀ i, p i < r i := by
  simp [mem_box]

theorem paste_of_mem (h : p ∈ box o r) : paste o r f g p = f (p - o) := if_pos h

theorem paste_of_notMem (h : p ∉ box o r) : paste o r f g p = g p := if_neg h

theorem paste_add (h : ∀ i, p i < r i) : paste o r f g (o + p) = f p := by
  rw [paste_of_mem (add_mem_box.2 h)]
  congr 1
  funext i
  exact Nat.add_sub_cancel_left _ _

theorem add_sub_of_mem (h : p ∈ box o r) : o + (p - o) = p := by
  funext i
  exact Nat.add_sub_cancel' (mem_box.1 h i).1

theorem sub_lt_of_mem (h : p ∈ box o r) (i : ι) : (p - o) i < r i := by
  have hi := mem_box.1 h i
  show p i - o i < r i
  omega

/-- Only what is laid over the box is looked at. -/
theorem paste_congr (hf : ∀ p, (∀ i, p i < r i) → f p = f' p) (hg : p ∉ box o r → g p = g' p) :
    paste o r f g p = paste o r f' g' p := by
  by_cases h : p ∈ box o r
  · rw [paste_of_mem h, paste_of_mem h]
    exact hf _ (sub_lt_of_mem h)
  · rw [paste_of_notMem h, paste_of_notMem h, hg h]

/-- What is pasted is cut out again. -/
theorem cut_paste (h : ∀ i, p i < r i) : cut o (paste o r f g) p = f p := paste_add h

/-- A box elsewhere is as it was. -/
theorem cut_paste_of_disjoint (hdisj : Disjoint (box o r) (box o' r')) (h : ∀ i, p i < r' i) :
    cut o' (paste o r f g) p = cut o' g p :=
  paste_of_notMem (Set.disjoint_right.1 hdisj (add_mem_box.2 h))

end Raster

end Lib
