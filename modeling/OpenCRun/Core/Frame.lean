import Mathlib.Data.Finset.Lattice.Lemmas
import OpenCRun.Core.UpdateRegion
/-!
# What an update leaves alone

For a region with both ends on chunk boundaries, the chunks that `findRangeFor`
takes are those inside the region, and the one that starts at its end
(`touched_cases`). An update keeps to its region exactly when that one chunk
has the bits already that step 3 gives it (`Settled`): then no transfer is
made for it either.
-/
open Lib Lib.Tiling Lib.Replica

namespace OpenCRun.Frame

open OpenCRun.Partition

variable {obj : MainObject} {st : Storage} {mode : SynchronizeMode} {d : Nat} {v : Finset Nat}

/-! ## The bits of step 3 -/

/-- The bit of the copy that an update selects. -/
def selectedBit (obj : MainObject) (mode : SynchronizeMode) (d : Nat) : Nat :=
  if deviceUpdate obj mode then d else obj.getHostIndex

/-- The bits that step 3 sets, with these descriptors allocated. -/
def Marks (obj : MainObject) (allocated : Finset Nat) (mode : SynchronizeMode) (d i : Nat) : Prop :=
  i = selectedBit obj mode d ∨
  ((deviceUpdate obj mode = false ∨ (d ∈ allocated ∧ obj.usesHostMemory d = true)) ∧
    (i = obj.getHostIndex ∨ (i ∈ allocated ∧ obj.usesHostMemory i = true)))

/-- Step 3 has nothing to do: its bits are set and, if the mode writes, no others are. -/
structure Settled (obj : MainObject) (allocated : Finset Nat) (mode : SynchronizeMode) (d : Nat) (v : Finset Nat) :
    Prop where
  marked : ∀ i, Marks obj allocated mode d i → i ∈ v
  others : mode.write = true → ∀ i ∈ v, Marks obj allocated mode d i

theorem Settled.selected {allocated : Finset Nat} (h : Settled obj allocated mode d v) :
    selectedBit obj mode d ∈ v := h.marked _ (.inl rfl)

theorem usesHostMemory_lt {i : Nat} (h : obj.usesHostMemory i = true) : i < obj.getHostIndex := by
  simp only [MainObject.usesHostMemory, Bool.and_eq_true, decide_eq_true_eq] at h
  exact (List.getElem?_eq_some_iff.1 h.1).1

theorem mem_updateValidity {i : Nat} :
    i ∈ updateValidity obj st mode d v ↔ Marks obj st.allocated mode d i ∨ (mode.write = false ∧ i ∈ v) := by
  have hw : i ∈ (if mode.write then ∅ else v) ↔ mode.write = false ∧ i ∈ v := by
    split <;> simp_all
  have hlt : obj.usesHostMemory i = true → i < obj.getHostIndex := usesHostMemory_lt
  unfold updateValidity Marks selectedBit
  by_cases hu : deviceUpdate obj mode = true
  · by_cases ha : st.aliasWithHostPtr obj d = true
    · have had : d ∈ st.allocated ∧ obj.usesHostMemory d = true := by
        simpa [Storage.aliasWithHostPtr] using ha
      simp only [hu, ha, if_true, mem_updateHostValidity, Finset.mem_insert, hw, had, and_self, or_true, true_and]
      simp only [Storage.aliasWithHostPtr, Bool.and_eq_true, decide_eq_true_eq]
      grind
    · have had : ¬ (d ∈ st.allocated ∧ obj.usesHostMemory d = true) := by
        simpa [Storage.aliasWithHostPtr] using ha
      simp [hu, ha, hw, had]
  · simp only [hu, Bool.false_eq_true, if_false, mem_updateHostValidity, hw]
    simp only [Storage.aliasWithHostPtr, Bool.and_eq_true, decide_eq_true_eq]
    grind

theorem settled_iff : Settled obj st.allocated mode d v ↔ updateValidity obj st mode d v = v := by
  constructor
  · intro h
    ext i
    rw [mem_updateValidity]
    constructor
    · rintro (hm | ⟨-, hi⟩)
      · exact h.marked i hm
      · exact hi
    · intro hi
      by_cases hw : mode.write = true
      · exact .inl (h.others hw i hi)
      · exact .inr ⟨by simpa using hw, hi⟩
  · intro h
    refine ⟨fun i hm => h ▸ mem_updateValidity.2 (.inl hm), fun hw i hi => ?_⟩
    rw [← h, mem_updateValidity] at hi
    simpa [hw] using hi

/-! ## The chunks of a region on boundaries -/

/-- Both ends of the region are chunk boundaries. -/
structure OnBoundaries (p : Partition) (r : Region obj.size) : Prop where
  start : Starts p r.offset
  stop : r.stop = obj.size ∨ Starts p r.stop

theorem OnBoundaries.mono {p q : Partition} {r : Region obj.size} (h : OnBoundaries p r)
    (hs : ∀ n, Starts p n → Starts q n) : OnBoundaries q r :=
  ⟨hs _ h.start, h.stop.imp_right (hs _)⟩

def Inside (r : Region obj.size) (c : MemoryChunk) : Prop := r.offset ≤ c.offset ∧ c.stop ≤ r.stop

theorem start_contains {p : Partition} (h : WellFormed obj.size p) {c : MemoryChunk} (hc : c ∈ p)
    (hlt : c.offset < obj.size) : Contains offsetOf stopOf c c.offset := by
  refine ⟨le_rfl, ?_⟩
  by_contra hge
  have hle := (h.tiles.mem hc).2
  have := h.tiles.nonempty_of_lt h.sorted hc
  simp only [offsetOf, stopOf] at *
  omega

/-- The region touches the chunks inside it, and the one that starts at its end. -/
theorem touched_cases {p : Partition} (h : WellFormed obj.size p) {r : Region obj.size} (hr : OnBoundaries p r)
    {c : MemoryChunk} (hc : c ∈ p) (ht : touches r.offset r.size c = true) :
    Inside r c ∨ (c.offset = r.stop ∧ r.stop < c.stop) := by
  have hle := r.le
  have hpos := r.size_pos
  have hb := h.tiles.mem hc
  simp only [touches, Bool.and_eq_true, decide_eq_true_eq] at ht
  have hstart : r.offset ≤ c.offset := by
    by_contra hlt
    obtain ⟨y, hy, hyo⟩ := hr.start
    have := h.tiles.unique hy hc (hyo ▸ start_contains h hy (by omega)) ⟨by simp only [offsetOf]; omega, ht.1⟩
    subst this
    omega
  by_cases hs : c.stop ≤ r.stop
  · exact .inl ⟨hstart, hs⟩
  · refine .inr ⟨?_, by omega⟩
    rcases hr.stop with he | ⟨y, hy, hyo⟩
    · simp only [stopOf] at hb; omega
    · simp only [stopOf, Region.stop] at *
      have := h.tiles.unique hy hc (hyo ▸ start_contains h hy (by omega)) ⟨by simp only [offsetOf]; omega, by
        simp only [stopOf]; omega⟩
      subst this
      exact hyo

/-! ## Transfers -/

/-- A chunk with the selected copy valid, or with none valid, is not transferred. -/
theorem transfer_noop {c : MemoryChunk} (h : c.validity = ∅ ∨ selectedBit obj mode d ∈ c.validity) :
    (transfer obj mode d st c).val = st := by
  unfold transfer selectedBit at *
  by_cases hu : deviceUpdate obj mode = true
  · simp only [hu, if_true, transferToDevice] at h ⊢
    rcases h with h | h
    · simp [h]
    · by_cases h0 : c.validity = ∅ <;> simp [h0, h]
  · simp only [hu, Bool.false_eq_true, if_false, transferToHost] at h ⊢
    rcases h with h | h
    · simp [h]
    · by_cases h0 : c.validity = ∅ <;> simp [h0, h]

theorem memcpy_frame (st : Storage) {dst src l : Loc} {offset size a : Nat} (ha : ¬ (offset ≤ a ∧ a < offset + size)) :
    (st.memcpy dst src offset size).mem l a = st.mem l a :=
  if_neg fun h => ha h.2

/-- A transfer changes bytes of its chunk only. -/
theorem transfer_frame {c : MemoryChunk} {l : Loc} {a : Nat} (ha : ¬ Contains offsetOf stopOf c a) :
    (transfer obj mode d st c).val.mem l a = st.mem l a := by
  unfold transfer
  by_cases hu : deviceUpdate obj mode = true
  · simp only [hu, if_true, transferToDevice]
    split
    · rfl
    split
    · rfl
    split
    · simp only [Checked.val_bind]
      split
      · rfl
      · exact memcpy_frame (st.map d) ha
    · exact memcpy_frame ((st.map d).map _) ha
  · simp only [hu, Bool.false_eq_true, if_false, transferToHost]
    split
    · rfl
    split
    · rfl
    · exact memcpy_frame (st.map _) ha

/-- The devices that the transfer of a chunk with these bits maps. -/
def mappedBy (obj : MainObject) (mode : SynchronizeMode) (d : Nat) (v : Finset Nat) : Finset Nat :=
  if v = ∅ ∨ selectedBit obj mode d ∈ v then ∅
  else (if deviceUpdate obj mode then {d} else ∅) ∪ (if obj.getHostIndex ∈ v then ∅ else {findFirst obj v})

theorem transfer_allocated (c : MemoryChunk) :
    (transfer obj mode d st c).val.allocated = st.allocated ∪ mappedBy obj mode d c.validity := by
  by_cases h : c.validity = ∅ ∨ selectedBit obj mode d ∈ c.validity
  · rw [transfer_noop h, mappedBy, if_pos h, Finset.union_empty]
  · have h0 := h
    rw [not_or] at h0
    obtain ⟨h0, h1⟩ := h0
    rw [mappedBy, if_neg h]
    unfold selectedBit at h1
    unfold transfer
    by_cases hu : deviceUpdate obj mode = true
    · simp only [hu, if_true] at h1 ⊢
      by_cases hh : obj.getHostIndex ∈ c.validity
      · simp only [transferToDevice, h0, h1, hh, if_false, if_true, Checked.val_bind]
        split <;> simp [Storage.map, Storage.memcpy, Finset.union_comm]
      · simp only [transferToDevice, h0, h1, hh, if_false, Checked.val_pure, Storage.map, Storage.memcpy]
        ext i; grind
    · simp only [hu, Bool.false_eq_true, if_false] at h1 ⊢
      simp only [transferToHost, h0, h1, if_false, Checked.val_bind, Checked.val_pure, Storage.map, Storage.memcpy]
      ext i; grind

/-- The descriptors that are allocated after step 2, from the chunks before it: an update that
only writes transfers nothing when the chunk after its region is settled. -/
def allocatedAfter (obj : MainObject) (t : Tracker) (r : Region obj.size) (mode : SynchronizeMode) (d : Nat) :
    Finset Nat :=
  if mode.read then
    (t.partition.filter (touches r.offset r.size)).foldl (fun s c => s ∪ mappedBy obj mode d c.validity)
      t.storage.allocated
  else t.storage.allocated

theorem transfers_allocated (cs : List MemoryChunk) (st : Storage) :
    (cs.foldlM (transfer obj mode d) st).val.allocated =
      cs.foldl (fun s c => s ∪ mappedBy obj mode d c.validity) st.allocated := by
  induction cs generalizing st with
  | nil => rfl
  | cons c cs ih =>
    simp only [List.foldlM_cons, Checked.val_bind, List.foldl_cons, ih, transfer_allocated]

section Update
variable {t : Tracker} (h : WellFormed obj.size t.partition) {r : Region obj.size} (hr : OnBoundaries t.partition r)

/-- The chunk that starts where the region ends has the selected copy valid already. -/
def NextSelected (p : Partition) (r : Region obj.size) (mode : SynchronizeMode) (d : Nat) : Prop :=
  ∀ c ∈ p, c.offset = r.stop → r.stop < obj.size → c.validity = ∅ ∨ selectedBit obj mode d ∈ c.validity

include h hr

/-- Each chunk of step 1 is inside the region, or there is no need to transfer it. -/
theorem computed_inside (hn : NextSelected t.partition r mode d) :
    ∀ c ∈ (computeChunksToTransfer t.partition r.offset r.size mode).val,
      Inside r c ∨ c.validity = ∅ ∨ selectedBit obj mode d ∈ c.validity := by
  intro c hc
  obtain ⟨c₀, h₀, ht, hv, h1, h2⟩ := computeChunksToTransfer_partOf h r mode hc
  rcases touched_cases h hr h₀ ht with hi | ⟨hs, hlt⟩
  · exact .inl ⟨hi.1.trans h1, h2.trans hi.2⟩
  · have := (h.tiles.mem h₀).2.2
    exact .inr (hv ▸ hn c₀ h₀ hs (lt_of_lt_of_le hlt this))

/-- An update that only writes asks for nothing but the chunk after its region. -/
theorem computed_writeOnly (hw : mode.read = false) (hn : NextSelected t.partition r mode d) :
    ∀ c ∈ (computeChunksToTransfer t.partition r.offset r.size mode).val,
      c.validity = ∅ ∨ selectedBit obj mode d ∈ c.validity := by
  obtain ⟨first, last, ⟨f1, f2⟩, ⟨l1, l2⟩, -, hmem⟩ := mem_computeChunksToTransfer h r hw
  intro c hc
  rcases (hmem c).1 hc with ⟨hlt, rfl⟩ | ⟨hlt, rfl⟩
  · have := r.size_pos
    rcases touched_cases h hr f1 f2 with hi | hi
    · exact absurd hi.1 (Nat.not_le.2 hlt)
    · simp only [Region.stop] at hi
      omega
  · rcases touched_cases h hr l1 l2 with hi | ⟨hs, hlt'⟩
    · exact absurd hi.2 (Nat.not_le.2 hlt)
    · exact hn last l1 hs (lt_of_lt_of_le hlt' (h.tiles.mem l1).2.2)

theorem transferred_allocated (hX : mode.read = false → NextSelected t.partition r mode d) :
    (transferred obj t r.offset r.size mode d).val.allocated = allocatedAfter obj t r mode d := by
  rw [transferred, allocatedAfter]
  by_cases hrd : mode.read = true
  · simp only [transfers_allocated, computeChunksToTransfer, hrd, if_true, Checked.val_pure,
      slice_eq h r.le r.size_pos]
  · rw [if_neg hrd]
    have hrd : mode.read = false := by simpa using hrd
    refine Checked.foldlM_inv (fun st' : Storage => st'.allocated = t.storage.allocated) _ _ (fun st' c hc hst => ?_) _ rfl
    rw [transfer_noop (computed_writeOnly h hr hrd (hX hrd) c hc)]
    exact hst

/-- No byte outside the region changes if the chunk after it needs no transfer. -/
theorem transferred_frame (hn : NextSelected t.partition r mode d) {l : Loc} {a : Nat}
    (ha : a < r.offset ∨ r.stop ≤ a) :
    (transferred obj t r.offset r.size mode d).val.mem l a = t.storage.mem l a := by
  refine Checked.foldlM_inv (fun st' : Storage => st'.mem l a = t.storage.mem l a) _ _ (fun st' c hc hst => ?_) _ rfl
  rcases computed_inside h hr hn c hc with hi | hs
  · rw [transfer_frame, hst]
    rintro ⟨h1, h2⟩
    have := hi.1.trans h1
    have := lt_of_lt_of_le h2 hi.2
    omega
  · rw [transfer_noop hs, hst]

/-! ## The frame law of one call -/

omit h hr

/-- From `t` to `t'`, only chunks inside the region got new bits, and only bytes inside it moved. -/
structure Framed (r : Region obj.size) (t t' : Tracker) : Prop where
  chunks : ∀ (k : Nat) (c : MemoryChunk), t.partition[k]? = some c → ¬ Inside r c → t'.partition[k]? = some c
  bytes : ∀ l a, a < r.offset ∨ r.stop ≤ a → t'.storage.mem l a = t.storage.mem l a

include h hr

/-- An update keeps to its region exactly when the chunk that starts at the region's end, if there
is one, is settled. -/
theorem updateRegion_framed_iff :
    Framed r t (updateRegion obj t r.offset r.size mode d).val ↔
      ∀ c ∈ t.partition, c.offset = r.stop → r.stop < obj.size →
        Settled obj (allocatedAfter obj t r mode d) mode d c.validity := by
  -- Only the chunk right after the region is touched without being inside.
  have hnext : ∀ c ∈ t.partition, c.offset = r.stop → r.stop < obj.size →
      ¬ Inside r c ∧ touches r.offset r.size c = true := by
    intro c hc hs hlt
    have hpos := r.size_pos
    have := (start_contains h hc (hs ▸ hlt)).2
    simp only [Inside, touches, Bool.and_eq_true, decide_eq_true_eq, Region.stop] at *
    simp only [stopOf] at this
    omega
  rw [updateRegion_val h r]
  constructor
  · intro hf
    have hbits : ∀ c ∈ t.partition, c.offset = r.stop → r.stop < obj.size →
        Settled obj (transferred obj t r.offset r.size mode d).val.allocated mode d c.validity := by
      intro c hc hs hlt
      obtain ⟨hin, ht⟩ := hnext c hc hs hlt
      obtain ⟨k, hk⟩ := List.getElem?_of_mem hc
      have hkc := hf.chunks k c hk hin
      simp only [List.getElem?_map, hk, Option.map_some, Option.some.injEq, newBits, ht, if_true] at hkc
      exact settled_iff.2 (congrArg MemoryChunk.validity hkc)
    intro c hc hs hlt
    rw [← transferred_allocated h hr fun _ c hc hs hlt => .inr (hbits c hc hs hlt).selected]
    exact hbits c hc hs hlt
  · intro hset
    have hn : NextSelected t.partition r mode d := fun c hc hs hlt => .inr (hset c hc hs hlt).selected
    refine ⟨fun k c hk hin => ?_, fun l a ha => transferred_frame h hr hn ha⟩
    simp only [List.getElem?_map, hk, Option.map_some, Option.some.injEq, newBits]
    split
    · rename_i ht
      have hc := List.mem_of_getElem? hk
      obtain ⟨hs, hlt⟩ := (touched_cases h hr hc ht).resolve_left hin
      have hset := hset c hc hs (lt_of_lt_of_le hlt (h.tiles.mem hc).2.2)
      rw [← transferred_allocated h hr fun _ => hn, settled_iff] at hset
      rw [hset]
    · rfl

end Update

/-- Setting the bits of a region keeps those outside, if the chunk after it is settled. -/
theorem updateBits_validityAt {t : Tracker} (h : WellFormed obj.size t.partition) {r : Region obj.size}
    (hr : OnBoundaries t.partition r) {mode : SynchronizeMode} {d : Nat}
    (hset : ∀ c ∈ t.partition, c.offset = r.stop → r.stop < obj.size →
      Settled obj t.storage.allocated mode d c.validity)
    {a : Nat} (ha : a < obj.size) (hout : a < r.offset ∨ r.stop ≤ a) :
    validityAt (updateBits obj t r.offset r.size mode d).val.partition a = validityAt t.partition a := by
  have wf := wellFormed_updateBits h r mode d
  obtain ⟨c, hc, hca⟩ := h.tiles.cover (Nat.zero_le a) ha
  rw [updateBits_val h r] at wf ⊢
  rw [h.validityAt_eq hc hca,
    wf.validityAt_eq (List.mem_map_of_mem hc) (by simpa [Contains] using hca)]
  unfold newBits
  split
  · rename_i ht
    rcases touched_cases h hr hc ht with hi | ⟨hs, hlt⟩
    · have := hi.1.trans hca.1
      have := lt_of_lt_of_le hca.2 hi.2
      omega
    · exact settled_iff.1 (hset c hc hs (lt_of_lt_of_le hlt (h.tiles.mem hc).2.2))
  · rfl

end OpenCRun.Frame
