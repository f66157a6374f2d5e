import OpenCRun.Core.CoherencyTracker
import OpenCRun.Lib.Tiling
/-!
# What the partition operations do

Chunks are found by their position in a sorted tiling (`IsLastLE`). From there
`slice_eq` and `mapRange_eq` say what a range of a region is without positions:
the chunks the region touches, its end included.
-/
open Lib Lib.Tiling OpenCRun

namespace OpenCRun.Partition

abbrev offsetOf : MemoryChunk → Nat := MemoryChunk.offset
abbrev stopOf : MemoryChunk → Nat := MemoryChunk.stop

/-- The chunks tile the object in order; only the last can be empty. -/
structure WellFormed (size : Nat) (p : Partition) : Prop where
  tiles : Tiles offsetOf stopOf 0 p size
  sorted : Sorted offsetOf p

/-! ## Finding a chunk -/

theorem lowerBound_spec (p : Partition) (i n : Nat) (hi : i ≤ p.length) :
    i ≤ lowerBound p i n ∧ lowerBound p i n ≤ p.length ∧
    (∀ m c, i ≤ m → m < lowerBound p i n → p[m]? = some c → c.offset < n) ∧
    (∀ c, p[lowerBound p i n]? = some c → n ≤ c.offset) := by
  unfold lowerBound
  generalize hf : (p.drop i).findIdx (fun c => !decide (c.offset < n)) = f
  have hlen : f ≤ (p.drop i).length := hf ▸ List.findIdx_le_length
  rw [List.length_drop] at hlen
  refine ⟨by omega, by omega, ?_, ?_⟩
  · intro m c h1 h2 hc
    have hlt : m - i < (p.drop i).findIdx (fun c => !decide (c.offset < n)) := by omega
    have := List.not_of_lt_findIdx hlt
    simp only [List.getElem_drop, show i + (m - i) = m by omega, Bool.not_eq_false',
      decide_eq_true_eq] at this
    obtain ⟨_, rfl⟩ := List.getElem?_eq_some_iff.1 hc
    exact this
  · intro c hc
    obtain ⟨hl, rfl⟩ := List.getElem?_eq_some_iff.1 hc
    have hw : (p.drop i).findIdx (fun c => !decide (c.offset < n)) < (p.drop i).length := by
      rw [hf, List.length_drop]; omega
    have := List.findIdx_getElem (w := hw)
    simp only [List.getElem_drop, hf, Bool.not_eq_true', decide_eq_false_iff_not, not_lt] at this
    exact this

/-- `findChunk` finds the last chunk that starts at or before the offset. -/
theorem findChunk_spec {p : Partition} (hs : Sorted offsetOf p) {i n : Nat} {x : MemoryChunk}
    (hi : p[i]? = some x) (hx : x.offset ≤ n) : IsLastLE offsetOf p n (findChunk p i n) := by
  obtain ⟨hlt, hxe⟩ := List.getElem?_eq_some_iff.1 hi
  obtain ⟨h1, h2, h3, h4⟩ := lowerBound_spec p i n (Nat.le_of_lt hlt)
  generalize hk : lowerBound p i n = k at h1 h2 h3 h4
  have before : k ≠ i → ∃ y, p[k - 1]? = some y ∧ y.offset ≤ n := by
    intro hne
    have hl : k - 1 < p.length := by omega
    exact ⟨p[k - 1], List.getElem?_eq_getElem hl,
      Nat.le_of_lt (h3 _ _ (by omega) (by omega) (List.getElem?_eq_getElem hl))⟩
  unfold findChunk
  simp only [hk]
  cases hc : p[k]? with
  | none =>
    have hl : p.length ≤ k := List.getElem?_eq_none_iff.1 hc
    dsimp only
    refine ⟨before (by omega), fun m y hm hy => ?_⟩
    have := (List.getElem?_eq_some_iff.1 hy).1
    omega
  | some c =>
    by_cases hcn : c.offset = n
    · simp only [hcn, if_true]
      refine ⟨⟨c, hc, Nat.le_of_eq hcn⟩, fun m y hm hy => ?_⟩
      have := pairwise_idx (R := fun x y => offsetOf x < offsetOf y) hs hm hc hy
      simp only [offsetOf] at this ⊢; omega
    · simp only [hcn, if_false]
      have hge := h4 c hc
      have hne : k ≠ i := by
        rintro rfl
        rw [hi] at hc; cases hc; omega
      refine ⟨before hne, fun m y hm hy => ?_⟩
      rcases Nat.lt_or_eq_of_le (show k ≤ m by omega) with hkm | rfl
      · have := pairwise_idx (R := fun x y => offsetOf x < offsetOf y) hs hkm hc hy
        simp only [offsetOf] at this ⊢; omega
      · rw [hc] at hy; cases hy; simp only [offsetOf]; omega

/-! ## The range of a region -/

/-- What `findRangeFor` takes for part of the region: its end counts as inside. -/
def touches (offset size : Nat) (c : MemoryChunk) : Bool :=
  decide (offset < c.stop) && decide (c.offset ≤ offset + size)

theorem WellFormed.head {size : Nat} {p : Partition} (h : WellFormed size p) (hs : 0 < size) :
    ∃ x, p[0]? = some x ∧ x.offset = 0 := by
  cases p with
  | nil => have : (0 : Nat) = size := h.tiles; omega
  | cons x p => exact ⟨x, rfl, h.tiles.1⟩

/-- The range holds the positions of the chunks the region touches. -/
theorem findRangeFor_spec {size : Nat} {p : Partition} (h : WellFormed size p) {offset len : Nat}
    (hin : offset + len ≤ size) (hpos : 0 < len) {k : Nat} {c : MemoryChunk} (hk : p[k]? = some c) :
    touches offset len c = true ↔ (findRangeFor p offset len).1 ≤ k ∧ k < (findRangeFor p offset len).2 := by
  obtain ⟨x, hx, hx0⟩ := h.head (by omega)
  have hI : IsLastLE offsetOf p offset (findChunk p 0 offset) := findChunk_spec h.sorted hx (by omega)
  obtain ⟨y, hy, hyo⟩ := hI.1
  have hE : IsLastLE offsetOf p (offset + len) (findChunk p (findChunk p 0 offset) (offset + len)) :=
    findChunk_spec h.sorted hy (hyo.trans (Nat.le_add_right _ _))
  have e1 : offset < stopOf c ↔ _ := h.tiles.lt_iff_idx (by omega) hI hk
  have e2 : offsetOf c ≤ offset + len ↔ _ := h.sorted.le_iff_idx hE hk
  simp only [touches, Bool.and_eq_true, decide_eq_true_eq, findRangeFor]
  rw [e1, e2]; omega

theorem findRangeFor_le {size : Nat} {p : Partition} (h : WellFormed size p) {offset len : Nat}
    (hin : offset + len ≤ size) (hpos : 0 < len) :
    (findRangeFor p offset len).1 < (findRangeFor p offset len).2 ∧ (findRangeFor p offset len).2 ≤ p.length := by
  obtain ⟨x, hx, hx0⟩ := h.head (by omega)
  have hI : IsLastLE offsetOf p offset (findChunk p 0 offset) := findChunk_spec h.sorted hx (by omega)
  obtain ⟨y, hy, hyo⟩ := hI.1
  obtain ⟨z, hz, hzo⟩ := (findChunk_spec h.sorted hy (n := offset + len) (hyo.trans (Nat.le_add_right _ _))).1
  have hle := (h.sorted.le_iff_idx (findChunk_spec h.sorted hy (n := offset + len)
    (hyo.trans (Nat.le_add_right _ _))) hy).1 (hyo.trans (Nat.le_add_right _ _))
  have hl := (List.getElem?_eq_some_iff.1 hz).1
  simp only [findRangeFor]
  omega

section Range
variable {size offset len : Nat} {p : Partition} (h : WellFormed size p) (hin : offset + len ≤ size) (hpos : 0 < len)

include h hin hpos

/-- The chunks before the range, in it and after it. -/
theorem range_parts :
    (∀ c ∈ p.take (findRangeFor p offset len).1, touches offset len c = false) ∧
    (∀ c ∈ slice p (findRangeFor p offset len), touches offset len c = true) ∧
    (∀ c ∈ p.drop (findRangeFor p offset len).2, touches offset len c = false) := by
  have hle := findRangeFor_le h hin hpos
  have key := fun k c => findRangeFor_spec h hin hpos (k := k) (c := c)
  generalize findRangeFor p offset len = r at hle key ⊢
  refine ⟨fun c hc => ?_, fun c hc => ?_, fun c hc => ?_⟩
  · obtain ⟨k, hk, rfl⟩ := List.mem_take_iff_getElem.1 hc
    rw [← Bool.not_eq_true, key k _ (List.getElem?_eq_getElem (by omega))]
    omega
  · obtain ⟨k, hk, rfl⟩ := List.mem_take_iff_getElem.1 hc
    rw [List.length_drop] at hk
    rw [List.getElem_drop, key (r.1 + k) _ (List.getElem?_eq_getElem (by omega))]
    omega
  · obtain ⟨k, hk, rfl⟩ := List.mem_drop_iff_getElem.1 hc
    rw [← Bool.not_eq_true, key (r.2 + k) _ (List.getElem?_eq_getElem (by omega))]
    omega

theorem range_split :
    p.take (findRangeFor p offset len).1 ++ slice p (findRangeFor p offset len) ++
      p.drop (findRangeFor p offset len).2 = p := by
  have hle := findRangeFor_le h hin hpos
  generalize findRangeFor p offset len = r at hle ⊢
  obtain ⟨i, e⟩ := r
  simp only [slice] at hle ⊢
  have : p.drop e = (p.drop i).drop (e - i) := by rw [List.drop_drop]; congr 1; omega
  rw [List.append_assoc, this, List.take_append_drop, List.take_append_drop]

/-- The chunks of the range. -/
theorem slice_eq : slice p (findRangeFor p offset len) = p.filter (touches offset len) := by
  obtain ⟨h1, h2, h3⟩ := range_parts h hin hpos
  conv_rhs => rw [← range_split h hin hpos]
  rw [List.filter_append, List.filter_append, List.filter_eq_nil_iff.2 (by simpa using h1),
    List.filter_eq_self.2 h2, List.filter_eq_nil_iff.2 (by simpa using h3)]
  simp

/-- Updating the range updates the chunks the region touches. -/
theorem mapRange_eq (f : MemoryChunk → MemoryChunk) :
    mapRange p (findRangeFor p offset len) f = p.map (fun c => if touches offset len c then f c else c) := by
  obtain ⟨h1, h2, h3⟩ := range_parts h hin hpos
  conv_rhs => rw [← range_split h hin hpos]
  rw [List.map_append, List.map_append, mapRange]
  congr 1
  · congr 1
    · apply (List.map_id _).symm.trans
      apply List.map_congr_left
      intro c hc
      simp [h1 c hc]
    · exact List.map_congr_left fun c hc => by simp [h2 c hc]
  · apply (List.map_id _).symm.trans
    apply List.map_congr_left
    intro c hc
    simp [h3 c hc]

theorem slice_ne_nil : slice p (findRangeFor p offset len) ≠ [] := by
  have hle := findRangeFor_le h hin hpos
  intro he
  have := congrArg List.length he
  simp only [slice, List.length_take, List.length_drop, List.length_nil] at this
  omega

end Range

end OpenCRun.Partition
