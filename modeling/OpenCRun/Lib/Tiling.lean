import Mathlib.Data.List.Basic
import Mathlib.Data.Nat.Basic
import Mathlib.Order.Nat
/-!
# Lists of segments that tile an interval

A list of segments `[lo x, hi x)` tiles `[a, b)` when the first starts at `a`,
each next one starts where the one before ends, and the last ends at `b`.
Empty segments are allowed; in a `Sorted` tiling only the last can be empty.
-/
namespace Lib.Tiling

variable {α : Type} (lo hi : α → Nat)

/-- The segments tile `[a, b)`, in order. -/
def Tiles : Nat → List α → Nat → Prop
  | a, [], b => a = b
  | a, x :: xs, b => lo x = a ∧ a ≤ hi x ∧ Tiles (hi x) xs b

/-- The starts strictly increase. -/
def Sorted (xs : List α) : Prop := xs.Pairwise (fun x y => lo x < lo y)

/-- `n` is in the segment. -/
def Contains (x : α) (n : Nat) : Prop := lo x ≤ n ∧ n < hi x

instance (x : α) (n : Nat) : Decidable (Contains lo hi x n) := inferInstanceAs (Decidable (_ ∧ _))

variable {lo hi} {a b c n : Nat} {xs ys : List α} {x y : α}

theorem Tiles.le (h : Tiles lo hi a xs b) : a ≤ b := by
  induction xs generalizing a with
  | nil => exact Nat.le_of_eq h
  | cons x xs ih => exact h.2.1.trans (ih h.2.2)

theorem tiles_append : Tiles lo hi a (xs ++ ys) c ↔ ∃ b, Tiles lo hi a xs b ∧ Tiles lo hi b ys c := by
  induction xs generalizing a with
  | nil => simp [Tiles]
  | cons x xs ih => simp [Tiles, ih, and_assoc]

theorem Tiles.mem (h : Tiles lo hi a xs b) (hx : x ∈ xs) : a ≤ lo x ∧ lo x ≤ hi x ∧ hi x ≤ b := by
  induction xs generalizing a with
  | nil => cases hx
  | cons z xs ih =>
    obtain ⟨h1, h2, h3⟩ := h
    rcases List.mem_cons.1 hx with rfl | hx
    · exact ⟨h1.ge, h1 ▸ h2, h3.le⟩
    · obtain ⟨i1, i2⟩ := ih h3 hx
      exact ⟨h2.trans i1, i2⟩

/-- A segment ends before every later one starts. -/
theorem Tiles.pairwise (h : Tiles lo hi a xs b) : xs.Pairwise (fun x y => hi x ≤ lo y) := by
  induction xs generalizing a with
  | nil => exact .nil
  | cons x xs ih => exact .cons (fun y hy => (h.2.2.mem hy).1) (ih h.2.2)

/-- Of two segments one ends before the other starts. -/
theorem Tiles.apart (h : Tiles lo hi a xs b) (hx : x ∈ xs) (hy : y ∈ xs) (hne : x ≠ y) : hi x ≤ lo y ∨ hi y ≤ lo x := by
  have hp := h.pairwise
  clear h
  induction hp with
  | nil => cases hx
  | cons hz _ ih =>
    rcases List.mem_cons.1 hx with rfl | hx'
    · rcases List.mem_cons.1 hy with rfl | hy'
      · exact absurd rfl hne
      · exact .inl (hz y hy')
    · rcases List.mem_cons.1 hy with rfl | hy'
      · exact .inr (hz x hx')
      · exact ih hx' hy'

/-- Every number of the interval is in some segment. -/
theorem Tiles.cover (h : Tiles lo hi a xs b) (h1 : a ≤ n) (h2 : n < b) : ∃ x ∈ xs, Contains lo hi x n := by
  induction xs generalizing a with
  | nil => have : a = b := h; omega
  | cons x xs ih =>
    obtain ⟨e, -, ht⟩ := h
    by_cases hn : n < hi x
    · exact ⟨x, by simp, by unfold Contains; omega⟩
    · obtain ⟨y, hy, hc⟩ := ih ht (by omega)
      exact ⟨y, by simp [hy], hc⟩

/-- Only one segment holds a number. -/
theorem Tiles.unique (h : Tiles lo hi a xs b) (hx : x ∈ xs) (hy : y ∈ xs)
    (hxn : Contains lo hi x n) (hyn : Contains lo hi y n) : x = y := by
  have hp := h.pairwise
  induction hp generalizing a with
  | nil => cases hx
  | @cons z xs hz _ ih =>
    have hne : ∀ w ∈ xs, Contains lo hi w n → ¬ Contains lo hi z n := by
      intro w hw hwn hzn
      have := hz w hw
      unfold Contains at hwn hzn
      omega
    rcases List.mem_cons.1 hx with rfl | hx' <;> rcases List.mem_cons.1 hy with rfl | hy'
    · rfl
    · exact absurd hxn (hne y hy' hyn)
    · exact absurd hyn (hne x hx' hxn)
    · exact ih h.2.2 hx' hy'

/-- Renaming the segments without moving them. -/
theorem Tiles.map (f : α → α) (hlo : ∀ x ∈ xs, lo (f x) = lo x) (hhi : ∀ x ∈ xs, hi (f x) = hi x)
    (h : Tiles lo hi a xs b) : Tiles lo hi a (xs.map f) b := by
  induction xs generalizing a with
  | nil => exact h
  | cons x xs ih =>
    obtain ⟨h1, h2, h3⟩ := h
    refine ⟨by rw [hlo x (by simp), h1], by rwa [hhi x (by simp)], ?_⟩
    rw [hhi x (by simp)]
    exact ih (fun y hy => hlo y (by simp [hy])) (fun y hy => hhi y (by simp [hy])) h3

theorem Sorted.map (f : α → α) (hlo : ∀ x ∈ xs, lo (f x) = lo x) (h : Sorted lo xs) : Sorted lo (xs.map f) := by
  unfold Sorted at h ⊢
  rw [List.pairwise_map]
  apply h.imp_of_mem
  intro x y hx hy hlt
  rwa [hlo x hx, hlo y hy]

/-- Segments that are not empty are sorted. -/
theorem Tiles.sorted (h : Tiles lo hi a xs b) (hn : ∀ x ∈ xs, lo x < hi x) : Sorted lo xs :=
  h.pairwise.imp_of_mem (fun hx _ hle => lt_of_lt_of_le (hn _ hx) hle)

/-- In a sorted tiling a segment that is not the last is not empty. -/
theorem Tiles.nonempty_of_lt (h : Tiles lo hi a xs b) (hs : Sorted lo xs) (hx : x ∈ xs) (hlt : hi x < b) :
    lo x < hi x := by
  obtain ⟨pre, post, rfl⟩ := List.append_of_mem hx
  obtain ⟨m, -, h1, h2, h3⟩ := tiles_append.1 h
  rcases post with _ | ⟨y, post⟩
  · have : hi x = b := h3
    omega
  · have : lo x < lo y := by
      have := (List.pairwise_append.1 hs).2.1
      exact (List.pairwise_cons.1 this).1 y (by simp)
    rwa [h3.1] at this

/-- Replacing one segment by two that tile it. -/
theorem Tiles.split {x₁ x₂ : α} (h : Tiles lo hi a (xs ++ x :: ys) b) (h1 : lo x₁ = lo x)
    (h2 : hi x₁ = lo x₂) (h3 : hi x₂ = hi x) (hm : lo x ≤ lo x₂ ∧ lo x₂ ≤ hi x) :
    Tiles lo hi a (xs ++ x₁ :: x₂ :: ys) b := by
  obtain ⟨m, hp, e, _, ht⟩ := tiles_append.1 h
  refine tiles_append.2 ⟨m, hp, by rw [h1, e], by omega, h2.symm, by rw [h3, h2]; exact hm.2, by rwa [h3]⟩

theorem Sorted.split {x₁ x₂ : α} (h : Sorted lo (xs ++ x :: ys)) (h1 : lo x₁ = lo x) (h2 : lo x < lo x₂)
    (h3 : ∀ y ∈ ys, lo x₂ < lo y) : Sorted lo (xs ++ x₁ :: x₂ :: ys) := by
  simp only [Sorted, List.pairwise_append, List.pairwise_cons, List.mem_cons] at h ⊢
  obtain ⟨s1, ⟨s2, s3⟩, s4⟩ := h
  refine ⟨s1, ⟨?_, h3, s3⟩, ?_⟩
  · rintro y (rfl | hy)
    · exact h1 ▸ h2
    · exact h1 ▸ s2 y hy
  · rintro z hz y (rfl | rfl | hy)
    · exact h1 ▸ s4 z hz x (.inl rfl)
    · exact (s4 z hz x (.inl rfl)).trans h2
    · exact s4 z hz y (.inr hy)

/-! ## The last segment that starts at or before a number -/

section Search

/-- The last start at or before `n` is that of `xs[j]`. -/
def IsLastLE (lo : α → Nat) (xs : List α) (n j : Nat) : Prop :=
  (∃ x, xs[j]? = some x ∧ lo x ≤ n) ∧ ∀ i y, j < i → xs[i]? = some y → n < lo y

theorem pairwise_idx {R : α → α → Prop} (h : xs.Pairwise R) {i j : Nat} (hij : i < j) (hx : xs[i]? = some x)
    (hy : xs[j]? = some y) : R x y := by
  obtain ⟨hi', rfl⟩ := List.getElem?_eq_some_iff.1 hx
  obtain ⟨hj', rfl⟩ := List.getElem?_eq_some_iff.1 hy
  exact List.pairwise_iff_getElem.1 h i j hi' hj' hij

theorem Sorted.le_iff_idx (hs : Sorted lo xs) {j k : Nat} (hj : IsLastLE lo xs n j) (hk : xs[k]? = some x) :
    lo x ≤ n ↔ k ≤ j := by
  obtain ⟨⟨y, hy, hyn⟩, hlast⟩ := hj
  constructor
  · intro hx
    by_contra hlt
    exact absurd (hlast k x (by omega) hk) (by omega)
  · intro hkj
    rcases Nat.lt_or_eq_of_le hkj with hlt | rfl
    · have : lo x < lo y := pairwise_idx (R := fun x y => lo x < lo y) hs hlt hk hy
      omega
    · rw [hk] at hy; cases hy; exact hyn

/-- A segment reaches beyond `n` exactly from the last start at or before `n` on. -/
theorem Tiles.lt_iff_idx (ht : Tiles lo hi a xs b) (hb : n < b) {j k : Nat}
    (hj : IsLastLE lo xs n j) (hk : xs[k]? = some x) : n < hi x ↔ j ≤ k := by
  obtain ⟨⟨y, hy, hyn⟩, hlast⟩ := hj
  constructor
  · intro hx
    by_contra hlt
    have := pairwise_idx ht.pairwise (by omega : k < j) hk hy
    omega
  · intro hjk
    have hmem := List.mem_of_getElem? hk
    rcases Nat.lt_or_eq_of_le hjk with hlt | rfl
    · have := hlast k x hlt hk
      have := (ht.mem hmem).2.1
      omega
    · -- the tile after this one, or the end of the tiling, starts after `n`
      by_contra hge
      obtain ⟨z, hz, hzn⟩ := ht.cover (n := n) ((ht.mem hmem).1.trans (by rw [hk] at hy; cases hy; exact hyn)) hb
      obtain ⟨i, hi'⟩ := List.getElem?_of_mem hz
      unfold Contains at hzn
      rcases Nat.lt_trichotomy i j with hij | rfl | hij
      · have := pairwise_idx ht.pairwise hij hi' hk
        rw [hk] at hy; cases hy
        omega
      · rw [hk] at hi'; cases hi'; omega
      · have := hlast i z hij hi'; omega

end Search

end Lib.Tiling
