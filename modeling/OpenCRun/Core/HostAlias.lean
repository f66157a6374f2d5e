import OpenCRun.Core.Frame
/-!
# The host's bit and the devices that use the host memory

A CPU device uses the host memory of a `UseHostPtr` object as its storage, but
`aliasWithHostPtr` says so only from its first allocation on. An update that
only writes can set the bit of such a device before that (`Early`), and the
host's bit stays behind. Without such an update the bits agree along every run.
-/
open Lib Lib.Tiling

namespace OpenCRun.HostAlias

open OpenCRun.Partition OpenCRun.Frame

variable {obj : MainObject}

/-- What happens to the bits and the storages of an object. -/
inductive Event (obj : MainObject) where
  | openRegion (r : Region obj.size)
  | allocate (idx : Nat)
  | update (r : Region obj.size) (mode : AccessMode) (d : Fin obj.devices.length)

/-- The assertion of `splitChunk` is not counted here. -/
def step (t : Tracker) : Event obj → Checked Tracker
  | .openRegion r => pure { t with partition := (addRegion t.partition r.offset r.size).val }
  | .allocate idx => pure { t with storage := t.storage.map idx }
  | .update r mode d => updateRegion obj t r.offset r.size mode.val d

def run (t : Tracker) (evs : List (Event obj)) : Checked Tracker := evs.foldlM step t

/-- A bit of a device whose storage is the host memory comes with the host's. -/
def HostBit (obj : MainObject) (t : Tracker) : Prop :=
  ∀ c ∈ t.partition, ∀ i ∈ c.validity, t.storage.aliasWithHostPtr obj i = true → obj.getHostIndex ∈ c.validity

/-- The bits agree, and no assertion of an update failed on the way. -/
def Good (obj : MainObject) (x : Checked Tracker) : Prop := x.ok = true ∧ HostBit obj x.val

/-- A touched chunk reaches beyond the region. -/
def SticksOut (p : Partition) (r : Region obj.size) : Prop :=
  ∃ c ∈ p, touches r.offset r.size c = true ∧ (c.offset < r.offset ∨ r.stop < c.stop)

/-- The update only writes, through a device that uses the host memory and has not been allocated,
and no transfer is due that allocates it. -/
def Early (t : Tracker) : Event obj → Prop
  | .update r mode d => mode.val.read = false ∧ deviceUpdate obj mode.val = true ∧ obj.usesHostMemory d = true ∧
      (d : Nat) ∉ t.storage.allocated ∧ ¬ SticksOut t.partition r
  | _ => False

/-! ## The invariant -/

structure Inv (obj : MainObject) (t : Tracker) : Prop where
  wellFormed : WellFormed obj.size t.partition
  bounded : BitsBounded obj t.partition
  nonempty : ∀ c ∈ t.partition, c.validity ≠ ∅
  host : ∀ c ∈ t.partition, ∀ i ∈ c.validity, obj.usesHostMemory i = true →
    obj.getHostIndex ∈ c.validity ∧ i ∈ t.storage.allocated

theorem Inv.hostBit {t : Tracker} (h : Inv obj t) : HostBit obj t := by
  intro c hc i hi ha
  simp only [Storage.aliasWithHostPtr, Bool.and_eq_true] at ha
  exact (h.host c hc i hi ha.2).1

theorem initial_inv (hu : obj.useHostPtr = true) (st : Storage) : Inv obj (initializeTracker obj st) := by
  -- The host is valid, and so are the devices that alias it; a copy makes the first device valid too.
  have hbits : ∀ i, i ∈ initialValidity obj (initForDevices obj st) ↔
      i = obj.getHostIndex ∨ (i < obj.getHostIndex ∧ (initForDevices obj st).aliasWithHostPtr obj i = true) ∨
        (obj.flags.has MemFlags.CopyHostPtr = true ∧ i = 0) := by
    intro i
    unfold initialValidity
    by_cases hc : obj.flags.has MemFlags.CopyHostPtr = true
    · simp only [hu, hc, if_true, Finset.mem_insert, mem_updateHostValidity, Finset.notMem_empty, false_or, true_and]
      tauto
    · simp [hu, hc, mem_updateHostValidity]
  refine ⟨initial_wellFormed obj st, fun c hc i hi => ?_, fun c hc => ?_, fun c hc i hi hm => ?_⟩
  all_goals obtain rfl := List.mem_singleton.1 hc
  · rcases (hbits i).1 hi with h | h | h
    · exact h.le
    · exact h.1.le
    · exact h.2 ▸ Nat.zero_le _
  · exact Finset.nonempty_iff_ne_empty.1 ⟨_, (hbits obj.getHostIndex).2 (.inl rfl)⟩
  · refine ⟨(hbits _).2 (.inl rfl), ?_⟩
    rcases (hbits i).1 hi with h | h | ⟨hc, rfl⟩
    · exact absurd (usesHostMemory_lt hm) (by omega)
    · have ha : i ∈ (initForDevices obj st).allocated := by
        have := h.2
        simp only [Storage.aliasWithHostPtr, Bool.and_eq_true, decide_eq_true_eq] at this
        exact this.1
      simp only [initializeTracker]
      split
      · exact Finset.mem_insert_of_mem ha
      · exact ha
    · simp [initializeTracker, hc, Storage.memcpy, Storage.map]

/-! ## An update keeps it -/

theorem subset_transferred (cs : List MemoryChunk) {mode : SynchronizeMode} {d : Nat} (st : Storage) :
    st.allocated ⊆ (cs.foldlM (transfer obj mode d) st).val.allocated := by
  refine Checked.foldlM_inv (fun st' : Storage => st.allocated ⊆ st'.allocated) _ _ (fun st' c _ hs => ?_) _ subset_rfl
  rw [transfer_allocated]
  exact hs.trans Finset.subset_union_left

/-- A device is allocated once a chunk was transferred to it that it did not hold. -/
theorem mem_transferred {cs : List MemoryChunk} {mode : SynchronizeMode} {d : Nat} {st : Storage}
    (hu : deviceUpdate obj mode = true) {c : MemoryChunk} (hc : c ∈ cs) (hne : c.validity ≠ ∅) (hd : d ∉ c.validity) :
    d ∈ (cs.foldlM (transfer obj mode d) st).val.allocated := by
  induction cs generalizing st with
  | nil => cases hc
  | cons x cs ih =>
    simp only [List.foldlM_cons, Checked.val_bind]
    rcases List.mem_cons.1 hc with rfl | hc
    · apply subset_transferred cs
      rw [transfer_allocated]
      simp [mappedBy, selectedBit, hu, hne, hd]
    · exact ih hc

section Update
variable {t : Tracker} (h : Inv obj t) (r : Region obj.size) (mode : AccessMode) (d : Fin obj.devices.length)

/-- The chunk that a touched chunk that sticks out makes step 1 compute. -/
theorem computed_of_sticksOut (hs : SticksOut t.partition r) (wf : WellFormed obj.size t.partition) :
    ∃ c ∈ (computeChunksToTransfer t.partition r.offset r.size mode.val).val, ∃ c₀ ∈ t.partition,
      c.validity = c₀.validity := by
  obtain ⟨c, hc, ht, hout⟩ := hs
  have ht' := ht
  have hpos := r.size_pos
  simp only [touches, Bool.and_eq_true, decide_eq_true_eq] at ht'
  have hex : ∃ a, Contains offsetOf stopOf c a ∧ (a < r.offset ∨ r.stop ≤ a) := by
    unfold Contains
    rcases hout with h1 | h1
    · exact ⟨c.offset, ⟨le_rfl, by simp only [stopOf]; omega⟩, .inl h1⟩
    · exact ⟨c.stop - 1, ⟨by simp only [Region.stop, offsetOf] at *; omega, by simp only [stopOf]; omega⟩, by omega⟩
  obtain ⟨a, ha, hao⟩ := hex
  obtain ⟨c', hc', -⟩ := (computeChunksToTransfer_bytes wf r mode.val a).2 ⟨⟨c, hc, ht, ha⟩, .inr hao⟩
  obtain ⟨c₀, h₀, -, hv, -⟩ := computeChunksToTransfer_partOf wf r mode.val hc'
  exact ⟨c', hc', c₀, h₀, hv⟩

include h

/-- A device that uses the host memory is allocated when step 3 sets its bit. -/
theorem selected_allocated (he : ¬ Early t (.update r mode d)) (hu : deviceUpdate obj mode.val = true)
    (hd : obj.usesHostMemory d = true) :
    (d : Nat) ∈ (transferred obj t r.offset r.size mode.val d).val.allocated := by
  by_cases hal : (d : Nat) ∈ t.storage.allocated
  · exact subset_transferred _ _ hal
  have hex : ∃ c ∈ (computeChunksToTransfer t.partition r.offset r.size mode.val).val, ∃ c₀ ∈ t.partition,
      c.validity = c₀.validity := by
    by_cases hr : mode.val.read = true
    · obtain ⟨a, h1, h2⟩ : ∃ a, r.offset ≤ a ∧ a < r.stop :=
        ⟨r.offset, le_rfl, Nat.lt_add_of_pos_right r.size_pos⟩
      obtain ⟨c, hc, -⟩ := (computeChunksToTransfer_bytes h.wellFormed r mode.val a).2
        ⟨touchedByte_of_mem h.wellFormed r h1 h2, .inl hr⟩
      obtain ⟨c₀, h₀, -, hv, -⟩ := computeChunksToTransfer_partOf h.wellFormed r mode.val hc
      exact ⟨c, hc, c₀, h₀, hv⟩
    · refine computed_of_sticksOut r mode ?_ h.wellFormed
      by_contra hs
      exact he ⟨by simpa using hr, hu, hd, hal, hs⟩
  obtain ⟨c, hc, c₀, h₀, hv⟩ := hex
  exact mem_transferred hu hc (hv ▸ h.nonempty c₀ h₀) fun hdc => hal (h.host c₀ h₀ d (hv ▸ hdc) hd).2

theorem update_inv (he : ¬ Early t (.update r mode d)) :
    Inv obj (updateRegion obj t r.offset r.size mode.val d).val := by
  have hwf := updateRegion_wellFormed h.wellFormed r mode.val d
  have hbd := updateRegion_bounded r mode.val h.wellFormed h.bounded d.isLt
  rw [updateRegion_val h.wellFormed r] at hwf hbd ⊢
  have hsub : t.storage.allocated ⊆ (transferred obj t r.offset r.size mode.val d).val.allocated :=
    subset_transferred _ _
  have hsel := selected_allocated h r mode d he
  generalize (transferred obj t r.offset r.size mode.val d).val = st at *
  refine ⟨hwf, hbd, fun c' hc' => ?_, fun c' hc' i hi hm => ?_⟩
  all_goals
    obtain ⟨c, hc, rfl⟩ := List.mem_map.1 hc'
    simp only [newBits] at *
  · split
    · exact Finset.nonempty_iff_ne_empty.1 ⟨_, mem_updateValidity.2 (.inl (.inl rfl))⟩
    · exact h.nonempty c hc
  · split at hi
    · rename_i ht
      simp only [ht, if_true, mem_updateValidity] at hi ⊢
      have hlt := usesHostMemory_lt hm
      rcases hi with (rfl | ⟨hhost, hi⟩) | ⟨hw, hi⟩
      · -- the selected bit is a device's: it is allocated by now, and step 3 sees the alias
        by_cases hu : deviceUpdate obj mode.val = true
        · simp only [selectedBit, hu, if_true] at hm ⊢
          exact ⟨.inl (.inr ⟨.inr ⟨hsel hu hm, hm⟩, .inl rfl⟩), hsel hu hm⟩
        · simp only [selectedBit, hu, Bool.false_eq_true, if_false, Nat.lt_irrefl] at hlt
      · refine ⟨.inl (.inr ⟨hhost, .inl rfl⟩), ?_⟩
        rcases hi with rfl | hi
        · exact absurd hlt (Nat.lt_irrefl _)
        · exact hi.1
      · exact ⟨.inr ⟨hw, (h.host c hc i hi hm).1⟩, hsub (h.host c hc i hi hm).2⟩
    · rename_i ht
      simp only [ht, Bool.false_eq_true, if_false] at hi ⊢
      exact ⟨(h.host c hc i hi hm).1, hsub (h.host c hc i hi hm).2⟩

/-- No assertion fails: a copy to the host never starts from the host memory. -/
theorem update_ok (hu : obj.useHostPtr = true) : (updateRegion obj t r.offset r.size mode.val d).ok = true := by
  have hmode := mode.property
  simp only [updateRegion, Checked.ok_bind, Bool.and_eq_true, Checked.ok_check, Bool.or_eq_true]
  refine ⟨by tauto, ?_, ?_, ?_⟩
  · unfold computeChunksToTransfer
    by_cases hr : mode.val.read = true
    · simp [hr]
    · simp [hr, hmode.resolve_left hr]
  · refine Checked.foldlM_ok _ _ (fun st c hc => ?_) _
    obtain ⟨c₀, h₀, -, hv, -⟩ := computeChunksToTransfer_partOf h.wellFormed r mode.val hc
    unfold transfer
    by_cases hdu : deviceUpdate obj mode.val = true
    · simp only [hdu, if_true, transferToDevice, Checked.ok_ite, Checked.ok_bind, Checked.ok_pure, Checked.ok_check, hu]
      simp
    · simp only [hdu, Bool.false_eq_true, if_false, transferToHost]
      split
      · rfl
      split
      · rfl
      · rename_i h0 hh
        rw [hv] at h0 hh ⊢
        have hmem := findFirst_mem (h.bounded c₀ h₀) h0 hh
        have hnot : obj.usesHostMemory (findFirst obj c₀.validity) = false := by
          by_contra hm
          exact hh (h.host c₀ h₀ _ hmem.1 (by simpa using hm)).1
        simp [MainObject.devicePtr, hnot]
  · have := (findRangeFor_le h.wellFormed r.le r.size_pos).1
    simp [updateBits, this.ne]

end Update

/-! ## Runs -/

theorem step_inv {t : Tracker} (h : Inv obj t) (hu : obj.useHostPtr = true) {e : Event obj} (he : ¬ Early t e) :
    (step t e).ok = true ∧ Inv obj (step t e).val := by
  cases e with
  | openRegion r =>
    obtain ⟨wf, -, hb, -⟩ := addRegion_spec h.wellFormed r
    refine ⟨rfl, wf, fun c hc => ?_, fun c hc => ?_, fun c hc => ?_⟩
    all_goals
      obtain ⟨c₀, h₀, hv⟩ := hb c hc
      rw [hv]
    · exact h.bounded c₀ h₀
    · exact h.nonempty c₀ h₀
    · exact h.host c₀ h₀
  | allocate idx =>
    refine ⟨rfl, h.wellFormed, h.bounded, h.nonempty, fun c hc i hi hm => ?_⟩
    obtain ⟨h1, h2⟩ := h.host c hc i hi hm
    exact ⟨h1, Finset.mem_insert_of_mem h2⟩
  | update r mode d => exact ⟨update_ok h r mode d hu, update_inv h r mode d he⟩

/-- After an early update, the device's bit is the only one, and its next allocation shows the alias. -/
theorem early_breaks {t : Tracker} (h : Inv obj t) {r : Region obj.size} {mode : AccessMode}
    {d : Fin obj.devices.length} (he : Early t (.update r mode d)) :
    ¬ HostBit obj (step (step t (.update r mode d)).val (.allocate d : Event obj)).val := by
  obtain ⟨hr, hu, hd, hal, hs⟩ := he
  intro hb
  -- step 1 computes nothing, for a chunk that it takes part of sticks out
  have hst : (transferred obj t r.offset r.size mode.val d).val = t.storage := by
    have hnone : (computeChunksToTransfer t.partition r.offset r.size mode.val).val = [] := by
      apply List.eq_nil_iff_forall_not_mem.2
      intro c hc
      obtain ⟨first, last, ⟨f1, f2⟩, ⟨l1, l2⟩, -, hmem⟩ := mem_computeChunksToTransfer h.wellFormed r hr
      rcases (hmem c).1 hc with ⟨hlt, -⟩ | ⟨hlt, -⟩
      · exact hs ⟨first, f1, f2, .inl hlt⟩
      · exact hs ⟨last, l1, l2, .inr hlt⟩
    simp only [transferred, hnone, List.foldlM_nil, Checked.val_pure]
  obtain ⟨c, hc, ht, -⟩ := touchedByte_of_mem h.wellFormed r le_rfl (Nat.lt_add_of_pos_right r.size_pos)
  have hw := mode.property.resolve_left (by simp [hr])
  have hbits : ∀ i, i ∈ (newBits obj t.storage r.offset r.size mode.val d c).validity ↔ i = d := by
    intro i
    simp [newBits, ht, mem_updateValidity, Marks, selectedBit, hu, hw, hal]
  simp only [step, Checked.val_pure, updateRegion_val h.wellFormed r, hst] at hb
  have hhost := hb _ (List.mem_map_of_mem hc) d ((hbits d).2 rfl)
    (by simp [Storage.aliasWithHostPtr, Storage.map, hd])
  have hlt := usesHostMemory_lt hd
  exact absurd ((hbits _).1 hhost) (by omega)

theorem run_append (t : Tracker) (evs : List (Event obj)) (e : Event obj) :
    run t (evs ++ [e]) = run t evs >>= fun t' => step t' e := by
  unfold run
  rw [List.foldlM_append]
  simp only [List.foldlM_cons, List.foldlM_nil, bind_pure]

theorem run_inv (hu : obj.useHostPtr = true) {t : Tracker} (h : Inv obj t) (evs : List (Event obj))
    (hm : ∀ done e, done ++ [e] <+: evs → ¬ Early (run t done).val e) :
    (run t evs).ok = true ∧ Inv obj (run t evs).val := by
  induction evs using List.reverseRecOn with
  | nil => exact ⟨rfl, h⟩
  | append_singleton evs e ih =>
    obtain ⟨ok, inv⟩ := ih fun done e hp => hm done e (hp.trans (List.prefix_append _ _))
    obtain ⟨ok', inv'⟩ := step_inv inv hu (hm evs e (List.prefix_refl _))
    rw [run_append]
    exact ⟨by simp [ok, ok'], inv'⟩

/-- Along a run, at each moment and after any one allocation more, the bits agree and no assertion
has failed, exactly when no update of the run is early. -/
theorem host_bit_iff (obj : MainObject) (hu : obj.useHostPtr = true) (st : Storage) (evs : List (Event obj)) :
    (∀ done, done <+: evs → Good obj (run (initializeTracker obj st) done) ∧
      ∀ idx, Good obj (run (initializeTracker obj st) (done ++ [.allocate idx]))) ↔
    ∀ done e, done ++ [e] <+: evs → ¬ Early (run (initializeTracker obj st) done).val e := by
  have h0 := initial_inv hu st
  constructor
  · intro hgood
    induction evs using List.reverseRecOn with
    | nil => intro done e hp; simp at hp
    | append_singleton evs e ih =>
      have hbefore := ih fun done hp => hgood done (hp.trans (List.prefix_append _ _))
      intro done e' hp
      rcases List.prefix_concat_iff.1 hp with heq | hp
      · obtain ⟨rfl, heq⟩ := List.append_inj' heq rfl
        obtain rfl : e' = e := by simpa using heq
        intro he
        -- An early update breaks the bit, as the allocation of its device shows.
        cases e' with
        | update r mode d =>
          have hg := ((hgood _ (List.prefix_refl _)).2 d).2
          rw [run_append, run_append] at hg
          exact early_breaks (run_inv hu h0 done hbefore).2 he hg
        | openRegion r => exact he
        | allocate idx => exact he
      · exact hbefore done e' hp
  · intro hm done hp
    obtain ⟨ok, inv⟩ := run_inv hu h0 done fun d e hd => hm d e (hd.trans hp)
    refine ⟨⟨ok, inv.hostBit⟩, fun idx => ?_⟩
    obtain ⟨ok', inv'⟩ := step_inv inv hu (e := .allocate idx) (fun h => h)
    rw [run_append]
    exact ⟨by simp [ok, ok'], inv'.hostBit⟩

/-- Four bytes of host memory, on a context with one CPU. -/
def fourHostBytes : MainObject :=
  ⟨[.cpu], 4, MemFlags.ReadWrite ||| MemFlags.UseHostPtr, Nat.one_pos, Nat.succ_pos 3⟩

def wholeRegion : Region fourHostBytes.size := ⟨0, 4, Nat.succ_pos 3, Nat.le_refl 4⟩

/-- A read before the first allocation keeps the bits together. -/
theorem host_bit_read_first :
    let read : Event fourHostBytes := .update wholeRegion ⟨.syncRead, .inl rfl⟩ ⟨0, by decide⟩
    let t := initializeTracker fourHostBytes ⟨∅, fun _ _ => 0⟩
    Good fourHostBytes (run t [read]) ∧ Good fourHostBytes (run t [read, .allocate 0]) := by
  intro read t
  have notEarly : ∀ done e, done ++ [e] <+: [read] → ¬ Early (run t done).val e := by
    rintro done e hp he
    rcases List.prefix_concat_iff.1 (show done ++ [e] <+: [] ++ [_] from hp) with heq | hp
    · obtain ⟨rfl, heq⟩ := List.append_inj' heq rfl
      obtain rfl := List.singleton_inj.1 heq
      exact absurd he.1 (by decide)
    · simp at hp
  have good := (host_bit_iff fourHostBytes (by decide) ⟨∅, fun _ _ => 0⟩ [read]).2 notEarly [read] (List.prefix_refl _)
  exact ⟨good.1, good.2 0⟩

/-- A write-only update before the first allocation: the bit of the CPU stands alone when the kernel's
arguments are set up, and the next map of the object would copy the host memory to itself. -/
theorem host_bit_write_first :
    let write : Event fourHostBytes := .update wholeRegion ⟨.syncWrite, .inr rfl⟩ ⟨0, by decide⟩
    let mapRead : Event fourHostBytes := .update wholeRegion ⟨{ map := true, read := true }, .inl rfl⟩ ⟨0, by decide⟩
    let t := initializeTracker fourHostBytes ⟨∅, fun _ _ => 0⟩
    ¬ HostBit fourHostBytes (run t [write, .allocate 0]).val ∧ (run t [write, .allocate 0, mapRead]).ok = false := by
  refine ⟨fun h => ?_, by decide⟩
  exact absurd (h ⟨0, 4, {0}⟩ (by decide) 0 (by decide) (by decide)) (by decide)

end OpenCRun.HostAlias
