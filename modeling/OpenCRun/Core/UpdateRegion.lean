import OpenCRun.Core.Regions
import OpenCRun.Lib.Replica
/-!
# What `updateRegion` does

A tracked object is a replicated memory (`Tracker.replica`): a chunk's bits are
about memories, and several bits can be about one memory. `updateRegion_synced`
says that a call is a synchronisation of that memory: step 2 refreshes the
selected copy, step 3 makes it valid for the chunks the region touches.
-/
open Lib Lib.Tiling Lib.Replica

namespace OpenCRun

open OpenCRun.Partition

/-- The memory an update brings up to date. -/
def MainObject.selected (obj : MainObject) (mode : SynchronizeMode) (d : Nat) : Loc :=
  if deviceUpdate obj mode then obj.devicePtr d else .host

/-- The memories a set of bits is about. -/
def MainObject.copies (obj : MainObject) (v : Finset Nat) : Set Loc := {l | ∃ i ∈ v, obj.copyLoc i = l}

def Tracker.replica (obj : MainObject) (t : Tracker) (latest : Nat → Option UInt8) : State Loc Nat UInt8 :=
  ⟨t.storage.mem, fun a => obj.copies (validityAt t.partition a), latest⟩

/-- Every bit is that of a device or of the host. -/
def BitsBounded (obj : MainObject) (p : Partition) : Prop := ∀ c ∈ p, ∀ i ∈ c.validity, i ≤ obj.getHostIndex

variable {obj : MainObject} {st : Storage} {mode : SynchronizeMode} {d : Nat} {v : Finset Nat}

theorem copyLoc_device (hd : d < obj.devices.length) : obj.copyLoc d = obj.devicePtr d := by
  simp [MainObject.copyLoc, MainObject.getHostIndex, hd.ne]

theorem copyLoc_host : obj.copyLoc obj.getHostIndex = .host := by
  simp [MainObject.copyLoc]

theorem devicePtr_alias (h : st.aliasWithHostPtr obj d = true) : obj.devicePtr d = .host := by
  simp only [Storage.aliasWithHostPtr, Bool.and_eq_true] at h
  simp [MainObject.devicePtr, h.2]

theorem copies_empty : obj.copies ∅ = ∅ := by
  simp [MainObject.copies]

theorem mem_copies {i : Nat} (h : i ∈ v) : obj.copyLoc i ∈ obj.copies v := ⟨i, h, rfl⟩

/-! ## Transfers -/

section Transfer
variable {c : MemoryChunk} (hb : ∀ i ∈ c.validity, i ≤ obj.getHostIndex)

include hb in
/-- Without the host's bit, the first bit is that of a device that has it. -/
theorem findFirst_mem (hne : c.validity ≠ ∅) (hh : obj.getHostIndex ∉ c.validity) :
    findFirst obj c.validity ∈ c.validity ∧ findFirst obj c.validity < obj.devices.length := by
  obtain ⟨i, hi⟩ := Finset.nonempty_iff_ne_empty.2 hne
  have hlt : i < obj.getHostIndex := lt_of_le_of_ne (hb i hi) (fun he => hh (he ▸ hi))
  unfold findFirst
  cases hf : (List.range obj.getHostIndex).find? (fun idx => decide (idx ∈ c.validity)) with
  | none => simpa [hi] using List.find?_eq_none.1 hf i (List.mem_range.2 hlt)
  | some j =>
    exact ⟨by simpa using List.find?_some hf, List.mem_range.1 (List.mem_of_find?_eq_some hf)⟩

variable {valid : Nat → Set Loc} (hv : ∀ a, Contains offsetOf stopOf c a → valid a = obj.copies c.validity)

include hv

theorem refreshes_same (st : Storage) {l : Loc} (h : c.validity ≠ ∅ → l ∈ obj.copies c.validity) :
    Refreshes valid st.mem st.mem l {a | Contains offsetOf stopOf c a} := by
  apply Refreshes.of_valid
  intro a ha hn
  rw [hv a ha] at hn ⊢
  apply h
  intro he
  simp [he, copies_empty] at hn

theorem refreshes_memcpy (st : Storage) {l src : Loc} (h : src ∈ obj.copies c.validity) :
    Refreshes valid st.mem (st.memcpy l src c.offset c.size).mem l {a | Contains offsetOf stopOf c a} := by
  refine ⟨fun k a hk => ?_, fun a ha _ => ⟨src, hv a ha ▸ h, if_pos ⟨rfl, ha⟩⟩, fun a hn => ?_⟩
  · apply if_neg
    intro hc
    exact hk.elim (· hc.1) (· hc.2)
  · apply if_neg
    intro hc
    apply hn
    rw [hv a hc.2]
    exact ⟨src, h⟩

include hb

/-- A transfer refreshes the selected memory for the bytes of its chunk. -/
theorem transfer_refreshes (st : Storage) (mode : SynchronizeMode) (hd : d < obj.devices.length) :
    Refreshes valid st.mem (transfer obj mode d st c).val.mem (obj.selected mode d)
      {a | Contains offsetOf stopOf c a} := by
  unfold transfer MainObject.selected
  by_cases hu : deviceUpdate obj mode = true
  · simp only [hu, if_true, transferToDevice]
    by_cases h0 : c.validity = ∅
    · simp only [h0, if_true, Checked.val_pure]
      exact refreshes_same hv st (absurd h0)
    -- The copy comes from the host if that is valid, else from the first device that is.
    by_cases hdv : d ∈ c.validity
    · simp only [h0, hdv, if_true, if_false, Checked.val_pure]
      exact refreshes_same hv st fun _ => copyLoc_device hd ▸ mem_copies hdv
    by_cases hh : obj.getHostIndex ∈ c.validity
    · simp only [h0, hdv, hh, if_true, if_false, Checked.val_bind]
      have hhost : Loc.host ∈ obj.copies c.validity := copyLoc_host ▸ mem_copies hh
      by_cases ha : (st.map d).aliasWithHostPtr obj d = true
      · simp only [ha, if_true, Checked.val_pure]
        exact refreshes_same hv (st.map d) fun _ => devicePtr_alias ha ▸ hhost
      · simp only [ha, Bool.false_eq_true, if_false, Checked.val_pure]
        exact refreshes_memcpy hv (st.map d) hhost
    · simp only [h0, hdv, hh, if_false, Checked.val_pure]
      obtain ⟨hf, hlt⟩ := findFirst_mem hb h0 hh
      exact refreshes_memcpy hv ((st.map d).map _) (copyLoc_device hlt ▸ mem_copies hf)
  · simp only [hu, Bool.false_eq_true, if_false, transferToHost]
    by_cases h0 : c.validity = ∅
    · simp only [h0, if_true, Checked.val_pure]
      exact refreshes_same hv st (absurd h0)
    by_cases hh : obj.getHostIndex ∈ c.validity
    · simp only [h0, hh, if_true, if_false, Checked.val_pure]
      exact refreshes_same hv st fun _ => copyLoc_host ▸ mem_copies hh
    · simp only [h0, hh, if_false, Checked.val_bind, Checked.val_pure]
      obtain ⟨hf, hlt⟩ := findFirst_mem hb h0 hh
      exact refreshes_memcpy hv (st.map _) (copyLoc_device hlt ▸ mem_copies hf)

end Transfer

/-! ## The chunks to transfer -/

/-- `c` is part of a chunk of the partition that the region touches. -/
def PartOf (p : Partition) (offset size : Nat) (c : MemoryChunk) : Prop :=
  ∃ c₀ ∈ p, touches offset size c₀ = true ∧ c.validity = c₀.validity ∧ c₀.offset ≤ c.offset ∧ c.stop ≤ c₀.stop

/-- The byte is in a chunk that the region touches. -/
def TouchedByte (p : Partition) (offset size a : Nat) : Prop :=
  ∃ c ∈ p, touches offset size c = true ∧ Contains offsetOf stopOf c a

/-- The bytes of the region are in chunks it touches. -/
theorem touchedByte_of_mem {p : Partition} (h : WellFormed obj.size p) (r : Region obj.size) {a : Nat}
    (h1 : r.offset ≤ a) (h2 : a < r.stop) : TouchedByte p r.offset r.size a := by
  have hle := r.le
  obtain ⟨c, hc, ha⟩ := h.tiles.cover (Nat.zero_le a) (lt_of_lt_of_le h2 hle)
  refine ⟨c, hc, ?_, ha⟩
  simp only [Region.stop, Contains, offsetOf, stopOf] at *
  simp only [touches, Bool.and_eq_true, decide_eq_true_eq]
  omega

theorem PartOf.self {p : Partition} {offset size : Nat} {c : MemoryChunk} (hc : c ∈ p)
    (ht : touches offset size c = true) : PartOf p offset size c :=
  ⟨c, hc, ht, rfl, le_rfl, le_rfl⟩

theorem PartOf.contains {p : Partition} {offset size : Nat} {c : MemoryChunk} (h : PartOf p offset size c) {a : Nat}
    (ha : Contains offsetOf stopOf c a) :
    ∃ c₀ ∈ p, touches offset size c₀ = true ∧ c.validity = c₀.validity ∧ Contains offsetOf stopOf c₀ a := by
  obtain ⟨c₀, hc, ht, hv, h1, h2⟩ := h
  exact ⟨c₀, hc, ht, hv, h1.trans ha.1, lt_of_lt_of_le ha.2 h2⟩

section Compute
variable {p : Partition} (h : WellFormed obj.size p) (r : Region obj.size)

include h

/-- The range is not empty; its first and its last chunk bound the others. -/
theorem range_ends : ∃ first last, (slice p (findRangeFor p r.offset r.size)).headD default = first ∧
    (slice p (findRangeFor p r.offset r.size)).getLastD default = last ∧
    (first ∈ p ∧ touches r.offset r.size first = true) ∧ (last ∈ p ∧ touches r.offset r.size last = true) ∧
    ∀ c ∈ p, touches r.offset r.size c = true →
      (c = first ∨ first.stop ≤ c.offset) ∧ (c = last ∨ c.stop ≤ last.offset) := by
  have hne := slice_ne_nil h r.le r.size_pos
  have hmem : ∀ c, c ∈ p.filter (touches r.offset r.size) ↔ c ∈ p ∧ touches r.offset r.size c = true := by simp
  have hp : (p.filter (touches r.offset r.size)).Pairwise (fun x y => stopOf x ≤ offsetOf y) :=
    h.tiles.pairwise.sublist List.filter_sublist
  rw [slice_eq h r.le r.size_pos] at hne ⊢
  generalize p.filter (touches r.offset r.size) = l at *
  obtain ⟨first, rest, hf⟩ := List.exists_cons_of_ne_nil hne
  obtain ⟨init, last, hl⟩ := (List.eq_nil_or_concat l).resolve_left hne
  refine ⟨first, last, by simp [hf], by simp [hl], (hmem _).1 (by simp [hf]), (hmem _).1 (by simp [hl]),
    fun c hc ht => ⟨?_, ?_⟩⟩
  · have hcl := (hmem c).2 ⟨hc, ht⟩
    rw [hf] at hcl hp
    exact (List.mem_cons.1 hcl).imp_right fun hr => (List.pairwise_cons.1 hp).1 c hr
  · have hcl := (hmem c).2 ⟨hc, ht⟩
    rw [hl] at hcl hp
    simp only [List.concat_eq_append, List.mem_append, List.mem_singleton, List.pairwise_append] at hcl hp
    exact hcl.symm.imp_right fun hi => hp.2.2 c hi last rfl

/-- Without a read, step 1 takes what sticks out of the region of its first and of its last chunk. -/
theorem mem_computeChunksToTransfer {mode : SynchronizeMode} (hr : mode.read = false) :
    ∃ first last, (first ∈ p ∧ touches r.offset r.size first = true) ∧ (last ∈ p ∧ touches r.offset r.size last = true) ∧
      (∀ c ∈ p, touches r.offset r.size c = true →
        (c = first ∨ first.stop ≤ c.offset) ∧ (c = last ∨ c.stop ≤ last.offset)) ∧
      ∀ c, c ∈ (computeChunksToTransfer p r.offset r.size mode).val ↔
        (first.offset < r.offset ∧ c = { first with size := r.offset - first.offset }) ∨
        (r.stop < last.stop ∧ c = { last with offset := r.stop, size := last.stop - r.stop }) := by
  obtain ⟨first, last, hf, hl, hfirst, hlast, hends⟩ := range_ends h r
  refine ⟨first, last, hfirst, hlast, hends, fun c => ?_⟩
  simp only [computeChunksToTransfer, hr, hf, hl, Bool.false_eq_true, if_false, Checked.val_bind, Checked.val_pure,
    List.mem_append, Region.stop]
  apply or_congr
  · split <;> simp [*]
  · split <;> simp [*]

/-- It takes parts of the touched chunks: -/
theorem computeChunksToTransfer_partOf (mode : SynchronizeMode) {c : MemoryChunk}
    (hc : c ∈ (computeChunksToTransfer p r.offset r.size mode).val) : PartOf p r.offset r.size c := by
  cases hr : mode.read with
  | true =>
    simp only [computeChunksToTransfer, hr, if_true, Checked.val_pure, slice_eq h r.le r.size_pos,
      List.mem_filter] at hc
    exact PartOf.self hc.1 hc.2
  | false =>
    obtain ⟨first, last, ⟨f1, f2⟩, ⟨l1, l2⟩, -, hmem⟩ := mem_computeChunksToTransfer h r hr
    have ht1 := f2
    have ht2 := l2
    simp only [touches, Bool.and_eq_true, decide_eq_true_eq] at ht1 ht2
    rcases (hmem c).1 hc with ⟨hlt, rfl⟩ | ⟨hlt, rfl⟩
    · refine ⟨first, f1, f2, rfl, le_rfl, ?_⟩
      simp only [MemoryChunk.stop] at *
      omega
    · refine ⟨last, l1, l2, rfl, ht2.2, ?_⟩
      simp only [MemoryChunk.stop] at *
      omega

/-- all their bytes when the mode reads, else those outside the region. -/
theorem computeChunksToTransfer_bytes (mode : SynchronizeMode) (a : Nat) :
    (∃ c ∈ (computeChunksToTransfer p r.offset r.size mode).val, Contains offsetOf stopOf c a) ↔
      TouchedByte p r.offset r.size a ∧ (mode.read = true ∨ a < r.offset ∨ r.stop ≤ a) := by
  cases hr : mode.read with
  | true =>
    simp only [computeChunksToTransfer, hr, if_true, Checked.val_pure, slice_eq h r.le r.size_pos, List.mem_filter,
      TouchedByte, true_or, and_true, and_assoc]
  | false =>
    obtain ⟨first, last, ⟨-, f2⟩, ⟨-, l2⟩, hends, hmem⟩ := mem_computeChunksToTransfer h r hr
    simp only [touches, Bool.and_eq_true, decide_eq_true_eq] at f2 l2
    simp only [Bool.false_eq_true, false_or]
    constructor
    · rintro ⟨c, hc, ha⟩
      obtain ⟨c₀, h₀, ht, -, ha₀⟩ := (computeChunksToTransfer_partOf h r mode hc).contains ha
      refine ⟨⟨c₀, h₀, ht, ha₀⟩, ?_⟩
      rcases (hmem c).1 hc with ⟨hlt, rfl⟩ | ⟨hlt, rfl⟩
      · simp only [Contains, offsetOf, stopOf, MemoryChunk.stop] at ha
        exact .inl (by omega)
      · exact .inr ha.1
    · rintro ⟨⟨c, hc, ht, ha⟩, hout⟩
      obtain ⟨e1, e2⟩ := hends c hc ht
      simp only [touches, Bool.and_eq_true, decide_eq_true_eq] at ht
      simp only [Contains, offsetOf, stopOf] at ha
      rcases hout with hout | hout
      · -- before the region only the first chunk reaches
        obtain rfl := e1.resolve_right (by omega)
        refine ⟨_, (hmem _).2 (.inl ⟨by omega, rfl⟩), ?_⟩
        simp only [Contains, offsetOf, stopOf, MemoryChunk.stop] at *
        omega
      · -- and after it only the last one
        simp only [Region.stop] at hout
        obtain rfl := e2.resolve_right (by omega)
        refine ⟨_, (hmem _).2 (.inr ⟨by simp only [Region.stop]; omega, rfl⟩), ?_⟩
        simp only [Contains, offsetOf, stopOf, MemoryChunk.stop, Region.stop] at *
        omega

end Compute

/-! ## The new bits -/

theorem mem_updateHostValidity {i : Nat} :
    i ∈ updateHostValidity obj st v ↔
      i = obj.getHostIndex ∨ i ∈ v ∨ (i < obj.getHostIndex ∧ st.aliasWithHostPtr obj i = true) := by
  unfold updateHostValidity
  have fold : ∀ (l : List Nat) (w : Finset Nat),
      i ∈ l.foldl (fun v idx => if st.aliasWithHostPtr obj idx then insert idx v else v) w ↔
        i ∈ w ∨ (i ∈ l ∧ st.aliasWithHostPtr obj i = true) := by
    intro l
    induction l with
    | nil => simp
    | cons x l ih =>
      intro w
      simp only [List.foldl_cons, ih, List.mem_cons]
      by_cases hx : st.aliasWithHostPtr obj x = true
      · by_cases hi : i = x <;> simp [hx, hi]
      · by_cases hi : i = x <;> simp [hx, hi]
  rw [fold]
  simp [or_assoc]

/-- `updateHostValidity` makes the host memory valid and nothing else. -/
theorem copies_updateHostValidity : obj.copies (updateHostValidity obj st v) = insert Loc.host (obj.copies v) := by
  ext l
  simp only [MainObject.copies, Set.mem_ofPred_eq, Set.mem_insert_iff, mem_updateHostValidity]
  constructor
  · rintro ⟨i, rfl | hi | ⟨hi, ha⟩, rfl⟩
    · exact .inl copyLoc_host
    · exact .inr ⟨i, hi, rfl⟩
    · exact .inl ((copyLoc_device hi).trans (devicePtr_alias ha))
  · rintro (rfl | ⟨i, hi, rfl⟩)
    · exact ⟨_, .inl rfl, copyLoc_host⟩
    · exact ⟨i, .inr (.inl hi), rfl⟩

theorem copies_insert (i : Nat) : obj.copies (insert i v) = insert (obj.copyLoc i) (obj.copies v) := by
  ext l
  simp [MainObject.copies, eq_comm]

theorem copies_singleton (i : Nat) : obj.copies {i} = {obj.copyLoc i} := by
  ext l
  simp [MainObject.copies, eq_comm]

/-- Step 3 makes the selected memory valid; a write makes every other one invalid. -/
theorem copies_updateValidity (hd : d < obj.devices.length) :
    obj.copies (updateValidity obj st mode d v) =
      insert (obj.selected mode d) (if mode.write then ∅ else obj.copies v) := by
  have hw : obj.copies (if mode.write then ∅ else v) = if mode.write then ∅ else obj.copies v := by
    split <;> simp [copies_empty]
  unfold updateValidity MainObject.selected
  by_cases hu : deviceUpdate obj mode = true
  · by_cases ha : st.aliasWithHostPtr obj d = true
    · simp [hu, ha, copies_updateHostValidity, copies_insert, hw, copyLoc_device hd, devicePtr_alias ha]
    · simp [hu, ha, copies_insert, hw, copyLoc_device hd]
  · simp [hu, copies_updateHostValidity, hw]

theorem updateValidity_bounded (hd : d < obj.devices.length) (hv : ∀ i ∈ v, i ≤ obj.getHostIndex) :
    ∀ i ∈ updateValidity obj st mode d v, i ≤ obj.getHostIndex := by
  have hd' : d ≤ obj.getHostIndex := hd.le
  intro i hi
  have key : i = obj.getHostIndex ∨ i = d ∨ i ∈ v ∨ i < obj.getHostIndex := by
    unfold updateValidity at hi
    grind [mem_updateHostValidity]
  rcases key with rfl | rfl | hi | hi
  · exact le_rfl
  · exact hd'
  · exact hv i hi
  · exact hi.le

/-! ## The whole call -/

section Update
variable {t : Tracker} (h : WellFormed obj.size t.partition) (r : Region obj.size)

/-- The storage after the transfers of step 2. -/
def transferred (obj : MainObject) (t : Tracker) (offset size : Nat) (mode : SynchronizeMode) (d : Nat) :
    Checked Storage :=
  (computeChunksToTransfer t.partition offset size mode).val.foldlM (transfer obj mode d) t.storage

/-- Step 3 on one chunk: only the touched ones change. -/
def newBits (obj : MainObject) (st : Storage) (offset size : Nat) (mode : SynchronizeMode) (d : Nat)
    (c : MemoryChunk) : MemoryChunk :=
  if touches offset size c then { c with validity := updateValidity obj st mode d c.validity } else c

@[simp] theorem newBits_offset (offset size : Nat) (c : MemoryChunk) :
    (newBits obj st offset size mode d c).offset = c.offset := by
  unfold newBits; split <;> rfl

@[simp] theorem newBits_stop (offset size : Nat) (c : MemoryChunk) :
    (newBits obj st offset size mode d c).stop = c.stop := by
  unfold newBits; split <;> rfl

include h in
theorem updateBits_val :
    (updateBits obj t r.offset r.size mode d).val =
      { t with partition := t.partition.map (newBits obj t.storage r.offset r.size mode d) } := by
  simp only [updateBits, Checked.val_bind, Checked.val_pure, mapRange_eq h r.le r.size_pos]
  rfl

include h in
theorem wellFormed_updateBits (mode : SynchronizeMode) (d : Nat) :
    WellFormed obj.size (updateBits obj t r.offset r.size mode d).val.partition := by
  rw [updateBits_val h r]
  exact ⟨h.tiles.map _ (fun c _ => newBits_offset _ _ c) (fun c _ => newBits_stop _ _ c),
    Sorted.map _ (fun c _ => newBits_offset _ _ c) h.sorted⟩

include h in
theorem starts_updateBits {n : Nat} (hs : Starts t.partition n) :
    Starts (updateBits obj t r.offset r.size mode d).val.partition n := by
  obtain ⟨c, hc, he⟩ := hs
  rw [updateBits_val h r]
  exact ⟨_, List.mem_map_of_mem hc, by simpa using he⟩

include h in
theorem updateRegion_val :
    (updateRegion obj t r.offset r.size mode d).val =
      { partition := t.partition.map
          (newBits obj (transferred obj t r.offset r.size mode d).val r.offset r.size mode d),
        storage := (transferred obj t r.offset r.size mode d).val } := by
  simp only [updateRegion, Checked.val_bind]
  exact updateBits_val (t := { t with storage := (transferred obj t r.offset r.size mode d).val }) h r

include h in
theorem updateRegion_wellFormed (mode : SynchronizeMode) (d : Nat) :
    WellFormed obj.size (updateRegion obj t r.offset r.size mode d).val.partition := by
  simp only [updateRegion, Checked.val_bind]
  exact wellFormed_updateBits (t := { t with storage := (transferred obj t r.offset r.size mode d).val }) h r mode d

theorem updateRegion_bounded (mode : SynchronizeMode) (h : WellFormed obj.size t.partition) (hb : BitsBounded obj t.partition)
    (hd : d < obj.devices.length) : BitsBounded obj (updateRegion obj t r.offset r.size mode d).val.partition := by
  rw [updateRegion_val h r]
  intro c' hc' i hi
  obtain ⟨c, hc, rfl⟩ := List.mem_map.1 hc'
  unfold newBits at hi
  split at hi
  · exact updateValidity_bounded hd (hb c hc) i hi
  · exact hb c hc i hi

include h in
/-- The bits of a byte after the call. -/
theorem updateRegion_validityAt {c : MemoryChunk} (hc : c ∈ t.partition) {a : Nat}
    (ha : Contains offsetOf stopOf c a) :
    validityAt (updateRegion obj t r.offset r.size mode d).val.partition a =
      (newBits obj (transferred obj t r.offset r.size mode d).val r.offset r.size mode d c).validity := by
  have wf := updateRegion_wellFormed h r mode d
  rw [updateRegion_val h r] at wf ⊢
  apply wf.validityAt_eq (List.mem_map_of_mem hc)
  simpa [Contains] using ha

/-- A fold of transfers refreshes the selected memory for the bytes of all its chunks. -/
theorem transfers_refresh (mode : SynchronizeMode) (valid : Nat → Set Loc) (hd : d < obj.devices.length) (cs : List MemoryChunk)
    (hb : ∀ c ∈ cs, ∀ i ∈ c.validity, i ≤ obj.getHostIndex)
    (hv : ∀ c ∈ cs, ∀ a, Contains offsetOf stopOf c a → valid a = obj.copies c.validity) (st : Storage) :
    Refreshes valid st.mem (cs.foldlM (transfer obj mode d) st).val.mem (obj.selected mode d)
      {a | ∃ c ∈ cs, Contains offsetOf stopOf c a} := by
  induction cs generalizing st with
  | nil => exact Refreshes.of_valid fun a ha => by simp at ha
  | cons c cs ih =>
    have h1 := transfer_refreshes (hb c (by simp)) (hv c (by simp)) st mode hd
    have h2 := ih (fun c hc => hb c (by simp [hc])) (fun c hc => hv c (by simp [hc])) (transfer obj mode d st c).val
    have h3 := h1.trans h2
    have he : {a | ∃ c' ∈ c :: cs, Contains offsetOf stopOf c' a} =
        {a | Contains offsetOf stopOf c a} ∪ {a | ∃ c ∈ cs, Contains offsetOf stopOf c a} := by
      ext a; simp
    rw [he]
    exact h3

/-- A call of `updateRegion` is a synchronisation of the replicated memory. -/
theorem updateRegion_synced (mode : SynchronizeMode) (h : WellFormed obj.size t.partition) (hb : BitsBounded obj t.partition)
    (hd : d < obj.devices.length) (latest : Nat → Option UInt8) :
    Synced (t.replica obj latest) ((updateRegion obj t r.offset r.size mode d).val.replica obj latest)
      (obj.selected mode d) {a | TouchedByte t.partition r.offset r.size a}
      {a | TouchedByte t.partition r.offset r.size a ∧ (mode.read = true ∨ a < r.offset ∨ r.stop ≤ a)}
      (mode.write = true) := by
  have hpart := fun c => @computeChunksToTransfer_partOf _ _ h r mode c
  have hbytes := computeChunksToTransfer_bytes h r mode
  refine ⟨?_, fun a l => ?_, rfl⟩
  -- A chunk that is transferred has the validity that its bytes had before it was split.
  · have href := transfers_refresh mode (fun a => obj.copies (validityAt t.partition a)) hd
      (computeChunksToTransfer t.partition r.offset r.size mode).val
      (fun c hc => by obtain ⟨c₀, h₀, -, hv, -⟩ := hpart c hc; exact hv ▸ hb c₀ h₀)
      (fun c hc a ha => by
        obtain ⟨c₀, h₀, -, hv, ha₀⟩ := (hpart c hc).contains ha
        rw [hv, ← h.validityAt_eq h₀ ha₀])
      t.storage
    simp only [hbytes] at href
    simpa only [Tracker.replica, updateRegion_val h r, transferred] using href
  · simp only [Tracker.replica, Set.mem_ofPred_eq]
    by_cases ha : ∃ c ∈ t.partition, Contains offsetOf stopOf c a
    · obtain ⟨c, hc, ha⟩ := ha
      have ht : TouchedByte t.partition r.offset r.size a ↔ touches r.offset r.size c = true :=
        ⟨fun ⟨c', hc', ht', ha'⟩ => h.tiles.unique hc' hc ha' ha ▸ ht', fun ht => ⟨c, hc, ht, ha⟩⟩
      rw [updateRegion_validityAt h r hc ha, h.validityAt_eq hc ha, ht]
      unfold newBits
      by_cases htc : touches r.offset r.size c = true
      · by_cases hw : mode.write = true <;> simp [htc, hw, copies_updateValidity hd]
      · simp [htc]
    · -- a byte outside the object is in no chunk, and has no valid copy
      have hn : ¬ TouchedByte t.partition r.offset r.size a := fun ⟨c, hc, _, hac⟩ => ha ⟨c, hc, hac⟩
      have hnone : ∀ p : Partition, (¬ ∃ c ∈ p, Contains offsetOf stopOf c a) → validityAt p a = ∅ := by
        intro p hp
        unfold validityAt
        rw [List.find?_eq_none.2 (by simpa using hp)]
        rfl
      rw [hnone _ ha, hnone _ (by rw [updateRegion_val h r]; simpa [Contains] using ha)]
      simp [hn]

end Update

/-! ## Accepted modes -/

/-- The modes that the assertions of an update let pass. -/
def AccessMode := {m : SynchronizeMode // m.read = true ∨ m.write = true}

theorem accepted_of_ok {obj : MainObject} {t : Tracker} {offset size d : Nat} {mode : SynchronizeMode}
    (h : (updateRegion obj t offset size mode d).ok = true) : mode.read = true ∨ mode.write = true := by
  simp only [updateRegion, computeChunksToTransfer, Checked.ok_bind, Bool.and_eq_true, Checked.ok_check] at h
  by_cases hr : mode.read = true
  · exact .inl hr
  · simp only [hr, Bool.false_eq_true, if_false, Checked.ok_bind, Bool.and_eq_true, Checked.ok_check] at h
    exact .inr h.2.1.1

end OpenCRun
