import OpenCRun.Core.Partition
/-!
# Opening regions

`addRegion` cuts the partition at both ends of a region. A cut changes which
offsets chunks start at (`Starts`) by exactly one, and the rest follows: the
partition stays well formed, no byte changes its bits, and the assertion of
`splitChunk` fails only for a cut at the object's end that no chunk starts at.
-/
open Lib Lib.Tiling

namespace OpenCRun.Partition

/-- A chunk starts at the offset. -/
def Starts (p : Partition) (n : Nat) : Prop := ∃ c ∈ p, c.offset = n

/-- The bits of the chunk that holds a byte. -/
def validityAt (p : Partition) (a : Nat) : Finset Nat :=
  ((p.find? (fun c => decide (Contains offsetOf stopOf c a))).map MemoryChunk.validity).getD ∅

theorem WellFormed.validityAt_eq {size a : Nat} {p : Partition} (h : WellFormed size p) {c : MemoryChunk}
    (hc : c ∈ p) (ha : Contains offsetOf stopOf c a) : validityAt p a = c.validity := by
  unfold validityAt
  cases hf : p.find? (fun c => decide (Contains offsetOf stopOf c a)) with
  | none => simpa [ha] using List.find?_eq_none.1 hf c hc
  | some x =>
    have hx : Contains offsetOf stopOf x a := by simpa using List.find?_some hf
    rw [h.tiles.unique hc (List.mem_of_find?_eq_some hf) ha hx]
    rfl

/-- Only the last chunk can be empty, and then it starts at the object's end. -/
theorem WellFormed.nonempty_iff {size : Nat} {p : Partition} (h : WellFormed size p) :
    (∀ c ∈ p, 0 < c.size) ↔ ¬ Starts p size := by
  constructor
  · rintro hn ⟨c, hc, he⟩
    have := hn c hc
    have := (h.tiles.mem hc).2.2
    simp only [stopOf, MemoryChunk.stop] at this
    omega
  · intro hs c hc
    by_contra h0
    have hb := h.tiles.mem hc
    have hlt := h.tiles.nonempty_of_lt h.sorted hc
    simp only [offsetOf, stopOf, MemoryChunk.stop] at hb hlt
    exact hs ⟨c, hc, by omega⟩

/-! ## One cut -/

/-- `q` is `p` cut at `n`. -/
structure Cut (size n : Nat) (p q : Partition) : Prop where
  wellFormed : WellFormed size q
  starts : ∀ m, Starts q m ↔ Starts p m ∨ m = n
  bits : ∀ c ∈ q, ∃ c₀ ∈ p, c.validity = c₀.validity
  validity : ∀ a, a < size → validityAt q a = validityAt p a

theorem Cut.refl {size n : Nat} {p : Partition} (h : WellFormed size p) (hs : Starts p n) : Cut size n p p :=
  ⟨h, fun _ => ⟨.inl, fun hm => hm.elim id (· ▸ hs)⟩, fun c hc => ⟨c, hc, rfl⟩, fun _ _ => rfl⟩

/-- A chunk replaced by its parts before and after `n`. -/
def halves (pre : Partition) (c : MemoryChunk) (n : Nat) (post : Partition) : Partition :=
  pre ++ { c with size := n - c.offset } :: { c with offset := n, size := c.stop - n } :: post

section Split
variable {size n : Nat} {pre post : Partition} {c : MemoryChunk}
  (h : WellFormed size (pre ++ c :: post)) (h1 : c.offset < n) (h2 : n ≤ c.stop)

include h h1 h2

theorem halves_wellFormed (hn : n < c.stop ∨ post = []) : WellFormed size (halves pre c n post) := by
  simp only [MemoryChunk.stop] at h2 hn
  unfold halves
  constructor
  · refine h.tiles.split rfl ?_ ?_ ?_
    · simp only [offsetOf, stopOf, MemoryChunk.stop]; omega
    · simp only [stopOf, MemoryChunk.stop]; omega
    · simp only [offsetOf, stopOf, MemoryChunk.stop]; omega
  · refine h.sorted.split rfl h1 ?_
    intro y hy
    obtain ⟨m, -, ht⟩ := tiles_append.1 h.tiles
    have := (ht.2.2.mem hy).1
    rcases hn with hn | rfl
    · simp only [offsetOf, stopOf, MemoryChunk.stop] at this ⊢; omega
    · cases hy

omit h h1 h2 in
theorem halves_starts (m : Nat) : Starts (halves pre c n post) m ↔ Starts (pre ++ c :: post) m ∨ m = n := by
  simp only [halves, Starts, List.mem_append, List.mem_cons]
  constructor
  · rintro ⟨x, hx | rfl | rfl | hx, rfl⟩
    · exact .inl ⟨x, by simp [hx], rfl⟩
    · exact .inl ⟨c, by simp, rfl⟩
    · exact .inr rfl
    · exact .inl ⟨x, by simp [hx], rfl⟩
  · rintro (⟨x, hx | rfl | hx, rfl⟩ | rfl)
    · exact ⟨x, .inl hx, rfl⟩
    · exact ⟨_, .inr (.inl rfl), rfl⟩
    · exact ⟨x, by simp [hx], rfl⟩
    · exact ⟨_, .inr (.inr (.inl rfl)), rfl⟩

omit h h1 h2 in
theorem halves_bits {x : MemoryChunk} (hx : x ∈ halves pre c n post) :
    ∃ c₀ ∈ pre ++ c :: post, x.validity = c₀.validity := by
  simp only [halves, List.mem_append, List.mem_cons] at hx
  rcases hx with hx | rfl | rfl | hx
  · exact ⟨x, by simp [hx], rfl⟩
  · exact ⟨c, by simp, rfl⟩
  · exact ⟨c, by simp, rfl⟩
  · exact ⟨x, by simp [hx], rfl⟩

/-- A byte keeps its bits: it is in one of the parts if it was in the chunk that is cut. -/
theorem halves_validityAt (hn : n < c.stop ∨ post = []) {a : Nat} (ha : a < size) :
    validityAt (halves pre c n post) a = validityAt (pre ++ c :: post) a := by
  have wf := halves_wellFormed h h1 h2 hn
  obtain ⟨x, hx, hc⟩ := h.tiles.cover (Nat.zero_le a) ha
  rw [h.validityAt_eq hx hc]
  rcases List.mem_append.1 hx with hx | hx
  · exact wf.validityAt_eq (by simp [halves, hx]) hc
  rcases List.mem_cons.1 hx with rfl | hx
  · simp only [Contains, offsetOf, stopOf, MemoryChunk.stop] at hc
    by_cases han : a < n
    · apply wf.validityAt_eq (c := { x with size := n - x.offset }) (by simp [halves])
      simp only [Contains, offsetOf, stopOf, MemoryChunk.stop]
      omega
    · apply wf.validityAt_eq (c := { x with offset := n, size := x.stop - n }) (by simp [halves])
      simp only [Contains, offsetOf, stopOf, MemoryChunk.stop]
      omega
  · exact wf.validityAt_eq (by simp [halves, hx]) hc

theorem cut_middle (hn : n < c.stop ∨ post = []) : Cut size n (pre ++ c :: post) (halves pre c n post) where
  wellFormed := halves_wellFormed h h1 h2 hn
  starts := halves_starts
  bits _ hx := halves_bits hx
  validity _ ha := halves_validityAt h h1 h2 hn ha

end Split

theorem set_insertIdx_append (pre post : Partition) (c x y : MemoryChunk) :
    ((pre ++ c :: post).set pre.length x).insertIdx (pre.length + 1) y = pre ++ x :: y :: post := by
  induction pre with
  | nil => rfl
  | cons z pre ih => simpa using ih

/-- The chunk found for an offset, its neighbours, and where it lies. -/
theorem findChunk_split {size n i : Nat} {p : Partition} (h : WellFormed size p) (hn : n ≤ size)
    {x : MemoryChunk} (hi : p[i]? = some x) (hx : x.offset ≤ n) :
    ∃ pre c post, p = pre ++ c :: post ∧ findChunk p i n = pre.length ∧ c.offset ≤ n ∧ n ≤ c.stop ∧
      (n < c.stop ∨ post = []) ∧ (Starts p n ↔ c.offset = n) := by
  obtain ⟨⟨c, hc, hcn⟩, hlast⟩ := findChunk_spec h.sorted hi hx
  obtain ⟨hl, rfl⟩ := List.getElem?_eq_some_iff.1 hc
  generalize findChunk p i n = j at *
  -- The chunk that is found is the last one to start at or before `n`.
  have hpost : n < stopOf p[j] ∨ p.drop (j + 1) = [] := by
    by_cases hd : j + 1 < p.length
    · have := hlast (j + 1) p[j + 1] (by omega) (List.getElem?_eq_getElem hd)
      have ht : Tiles offsetOf stopOf 0 (p.take j ++ p[j] :: p.drop (j + 1)) size := by
        rw [← List.drop_eq_getElem_cons hl, List.take_append_drop]; exact h.tiles
      obtain ⟨m, -, -, -, ht⟩ := tiles_append.1 ht
      rw [List.drop_eq_getElem_cons hd] at ht
      exact .inl (ht.1 ▸ this)
    · exact .inr (List.drop_eq_nil_iff.2 (by omega))
  refine ⟨p.take j, p[j], p.drop (j + 1), ?_, by simp; omega, hcn, ?_, hpost, ?_⟩
  · rw [← List.drop_eq_getElem_cons hl, List.take_append_drop]
  · rcases hpost with hp | hp
    · exact hp.le
    · have ht : Tiles offsetOf stopOf 0 (p.take j ++ p[j] :: p.drop (j + 1)) size := by
        rw [← List.drop_eq_getElem_cons hl, List.take_append_drop]; exact h.tiles
      obtain ⟨m, -, -, -, ht⟩ := tiles_append.1 ht
      rw [hp] at ht
      have : stopOf p[j] = size := ht
      exact hn.trans this.ge
  · constructor
    · rintro ⟨y, hy, he⟩
      obtain ⟨k, hk⟩ := List.getElem?_of_mem hy
      have hkj := (h.sorted.le_iff_idx (n := n) ⟨⟨p[j], hc, hcn⟩, hlast⟩ hk).1 he.le
      rcases Nat.lt_or_eq_of_le hkj with hlt | rfl
      · have := pairwise_idx (R := fun x y => offsetOf x < offsetOf y) h.sorted hlt hk hc
        simp only [offsetOf] at this hcn; omega
      · rw [hk] at hc; cases hc; exact he
    · exact fun he => ⟨p[j], List.getElem_mem hl, he⟩

/-- What a split does at the chunk found for its offset. -/
theorem splitChunk_spec {size n i : Nat} {p : Partition} (h : WellFormed size p) (hn : n ≤ size)
    {x : MemoryChunk} (hi : p[i]? = some x) (hx : x.offset ≤ n) :
    let r := splitChunk p (findChunk p i n) n
    Cut size n p r.val.1 ∧ (∃ y, r.val.1[r.val.2]? = some y ∧ y.offset = n) ∧
      (r.ok = true ↔ n < size ∨ Starts p n) := by
  obtain ⟨pre, c, post, rfl, hf, hcn, hns, hpost, hst⟩ := findChunk_split h hn hi hx
  have hget : (pre ++ c :: post)[pre.length]! = c := by simp
  dsimp only
  rw [hf]
  unfold splitChunk
  simp only [hget]
  by_cases he : c.offset = n
  · simp only [he, if_true, Checked.val_pure, Checked.ok_pure, true_iff]
    exact ⟨Cut.refl h (hst.2 he), ⟨c, by simp, he⟩, .inr (hst.2 he)⟩
  · have hlt : c.offset < n := by omega
    have hsz : c.size - (c.offset + c.size - n) = n - c.offset := by
      simp only [MemoryChunk.stop] at hns; omega
    simp only [he, if_false, Checked.val_bind, Checked.ok_bind, Checked.val_pure, Checked.ok_pure,
      Checked.ok_check, hsz, set_insertIdx_append, Bool.and_true, Bool.and_eq_true, decide_eq_true_eq]
    refine ⟨cut_middle h hlt hns hpost, ⟨{ c with offset := n, size := c.stop - n }, by simp [MemoryChunk.stop], rfl⟩,
      ?_⟩
    rw [hst]
    have hend : c.stop ≤ size := (h.tiles.mem (by simp)).2.2
    rcases hpost with hp | rfl
    · simp only [hlt, hp, true_and, true_iff]; omega
    · obtain ⟨m, -, -, -, ht⟩ := tiles_append.1 h.tiles
      have : c.stop = size := ht
      simp only [hlt, true_and, he, or_false, this]

/-! ## A region, and any sequence of them -/

theorem addRegion_spec {size : Nat} {p : Partition} (h : WellFormed size p) (r : Region size) :
    WellFormed size (addRegion p r.offset r.size).val ∧
    (∀ m, Starts (addRegion p r.offset r.size).val m ↔ Starts p m ∨ m = r.offset ∨ m = r.stop) ∧
    (∀ c ∈ (addRegion p r.offset r.size).val, ∃ c₀ ∈ p, c.validity = c₀.validity) ∧
    (∀ a, a < size → validityAt (addRegion p r.offset r.size).val a = validityAt p a) ∧
    ((addRegion p r.offset r.size).ok = true ↔ r.stop < size ∨ Starts p size) := by
  have hle := r.le
  have hpos := r.size_pos
  obtain ⟨x, hx, hx0⟩ := h.head (by omega)
  obtain ⟨c1, ⟨y, hy, hyo⟩, ok1⟩ := splitChunk_spec h (n := r.offset) (by omega) hx (by omega)
  obtain ⟨c2, -, ok2⟩ := splitChunk_spec c1.wellFormed (n := r.offset + r.size) hle hy (by omega)
  simp only [addRegion, Checked.val_bind, Checked.ok_bind, Checked.val_pure, Checked.ok_pure, Bool.and_true,
    Bool.and_eq_true, ok1, ok2, Region.stop]
  refine ⟨c2.wellFormed, fun m => by rw [c2.starts, c1.starts, or_assoc], fun c hc => ?_, fun a ha => ?_, ?_⟩
  · obtain ⟨c', hc', he'⟩ := c2.bits c hc
    obtain ⟨c₀, hc₀, he₀⟩ := c1.bits c' hc'
    exact ⟨c₀, hc₀, he'.trans he₀⟩
  · rw [c2.validity a ha, c1.validity a ha]
  · rw [c1.starts]
    constructor
    · rintro ⟨-, h | h | h⟩
      · exact .inl h
      · exact (Nat.lt_or_eq_of_le hle).imp_right fun he => by rwa [he] at h
      · omega
    · rintro (h | h)
      · exact ⟨.inl (by omega), .inl h⟩
      · exact ⟨.inl (by omega), (Nat.lt_or_eq_of_le hle).imp_right fun he => .inl (by rwa [he])⟩

/-- Any sequence of `addRegion` calls. -/
def addRegions {size : Nat} (p : Partition) (rs : List (Region size)) : Checked Partition :=
  rs.foldlM (fun p r => addRegion p r.offset r.size) p

/-- The assertion fails at the first region that ends at the object's end. -/
theorem addRegions_spec {size : Nat} {p : Partition} (h : WellFormed size p) (rs : List (Region size)) :
    WellFormed size (addRegions p rs).val ∧
    (∀ m, Starts (addRegions p rs).val m ↔ Starts p m ∨ ∃ r ∈ rs, m = r.offset ∨ m = r.stop) ∧
    (∀ a, a < size → validityAt (addRegions p rs).val a = validityAt p a) ∧
    ((addRegions p rs).ok = true ↔ (∀ r ∈ rs, r.stop < size) ∨ Starts p size) := by
  induction rs generalizing p with
  | nil => simp [addRegions, h]
  | cons r rs ih =>
    obtain ⟨w1, s1, -, v1, ok1⟩ := addRegion_spec h r
    obtain ⟨w2, s2, v2, ok2⟩ := ih w1
    simp only [addRegions, List.foldlM_cons, Checked.val_bind, Checked.ok_bind, Bool.and_eq_true] at *
    refine ⟨w2, fun m => ?_, fun a ha => (v2 a ha).trans (v1 a ha), ?_⟩
    · rw [s2, s1]
      simp only [List.mem_cons, exists_eq_or_imp, or_assoc]
    · have hle := r.le
      have hpos := r.size_pos
      rw [ok1, ok2, s1]
      simp only [List.mem_cons, forall_eq_or_imp, Region.stop]
      constructor
      · rintro ⟨h1 | h1, h2 | h2 | h2 | h2⟩
        all_goals first | exact .inr h1 | exact .inr h2 | exact .inl ⟨h1, h2⟩ | omega
      · rintro (⟨h1, h2⟩ | h1)
        · exact ⟨.inl h1, .inl h2⟩
        · exact ⟨.inr h1, .inr (.inl h1)⟩

/-! ## From the initial partition -/

theorem initializeTracker_partition (obj : MainObject) (st : Storage) :
    ∃ v, (initializeTracker obj st).partition = [⟨0, obj.size, v⟩] := ⟨_, rfl⟩

theorem initial_wellFormed (obj : MainObject) (st : Storage) :
    WellFormed obj.size (initializeTracker obj st).partition := by
  obtain ⟨v, hv⟩ := initializeTracker_partition obj st
  rw [hv]
  exact ⟨by simp [Tiles, MemoryChunk.stop], by simp [Sorted]⟩

theorem initial_starts (obj : MainObject) (st : Storage) (m : Nat) :
    Starts (initializeTracker obj st).partition m ↔ m = 0 := by
  obtain ⟨v, hv⟩ := initializeTracker_partition obj st
  simp [hv, Starts, eq_comm]

/-- What the partition is meant to be after regions were added to `p`. -/
structure Intact {size : Nat} (p q : Partition) (rs : List (Region size)) : Prop where
  tiles : Tiles offsetOf stopOf 0 q size
  sorted : Sorted offsetOf q
  nonempty : ∀ c ∈ q, 0 < c.size
  boundaries : ∀ r ∈ rs, ∀ n, n = r.offset ∨ n = r.stop → ∃ c ∈ q, c.offset = n ∨ c.stop = n
  validity : ∀ a, a < size → validityAt q a = validityAt p a

/-- The partition stays intact and no assertion fails, at every moment, exactly
when no region ends at the object's end. -/
theorem addRegions_intact_iff (obj : MainObject) (st : Storage) (rs : List (Region obj.size)) :
    (∀ done, done <+: rs →
      (addRegions (initializeTracker obj st).partition done).ok = true ∧
      Intact (initializeTracker obj st).partition (addRegions (initializeTracker obj st).partition done).val done) ↔
    ∀ r ∈ rs, r.stop ≠ obj.size := by
  have h0 : ¬ Starts (initializeTracker obj st).partition obj.size := by
    rw [initial_starts]
    exact Nat.ne_of_gt obj.size_pos
  constructor
  · intro h r hr
    obtain ⟨-, -, -, hok⟩ := addRegions_spec (initial_wellFormed obj st) rs
    have := (hok.1 (h rs (List.prefix_refl rs)).1).resolve_right h0
    exact (this r hr).ne
  · rintro h done ⟨rest, rfl⟩
    have hlt : ∀ r ∈ done, r.stop < obj.size := fun r hr =>
      lt_of_le_of_ne r.le (h r (by simp [hr]))
    obtain ⟨wf, hs, hv, hok⟩ := addRegions_spec (initial_wellFormed obj st) done
    refine ⟨hok.2 (.inl hlt), wf.tiles, wf.sorted, wf.nonempty_iff.2 ?_, ?_, hv⟩
    · rw [hs]
      rintro (h | ⟨r, hr, he | he⟩)
      · exact h0 h
      · have := r.size_pos
        have := r.le
        omega
      · exact absurd he.symm (hlt r hr).ne
    · intro r hr n hn
      obtain ⟨c, hc, he⟩ := (hs n).2 (.inr ⟨r, hr, hn⟩)
      exact ⟨c, hc, .inl he⟩

/-- A buffer of eight bytes, on a context with one CPU. -/
def eightBytes : MainObject := ⟨[.cpu], 8, MemFlags.ReadWrite, by decide, by decide⟩

/-- A region over the last half fails the assertion, and leaves an empty chunk behind it. -/
theorem addRegion_at_end :
    let p := (initializeTracker eightBytes ⟨∅, fun _ _ => 0⟩).partition
    let r : Region 8 := ⟨4, 4, by decide, by decide⟩
    (addRegions p [r]).ok = false ∧
    (addRegions p [r]).val = [⟨0, 4, ∅⟩, ⟨4, 4, ∅⟩, ⟨8, 0, ∅⟩] ∧
    ¬ Intact p (addRegions p [r]).val [r] := by
  refine ⟨by decide, by decide, fun h => ?_⟩
  exact absurd (h.nonempty ⟨8, 0, ∅⟩ (by decide)) (by decide)

end OpenCRun.Partition
