import OpenCRun.Core.UpdateRegion
/-!
# Coherency over a run

Regions are opened, storages are allocated and accessors come and go. Each
access calls `updateRegion` first; one that writes then overwrites its region
in the selected copy. `latest` remembers what was written last. Every byte
stays coherent along every run, so whoever the tracker lets read a copy reads
the latest bytes.
-/
open Lib Lib.Tiling Lib.Replica

namespace OpenCRun.Coherency

open OpenCRun.Partition

/-- The tracked object, and the byte written last to each of its bytes, if any was. -/
structure World where
  tracker : Tracker
  latest : Nat → Option UInt8

def World.replica (obj : MainObject) (w : World) : State Loc Nat UInt8 := w.tracker.replica obj w.latest

inductive Event (obj : MainObject) where
  | openRegion (r : Region obj.size)
  | allocate (idx : Nat)
  | access (r : Region obj.size) (mode : AccessMode) (d : Fin obj.devices.length) (data : Nat → UInt8)

variable {obj : MainObject}

/-- What an accessor writes that overwrites exactly its region. -/
def regionBytes (r : Region obj.size) (data : Nat → UInt8) (a : Nat) : Option UInt8 :=
  if r.offset ≤ a ∧ a < r.stop then some (data a) else none

/-- The accessor's writes go to the copy that the update selected. -/
def World.write (w : World) (dst : Loc) (bytes : Nat → Option UInt8) : World :=
  { tracker := { w.tracker with storage := w.tracker.storage.write dst bytes }
    latest := fun a => (bytes a).or (w.latest a) }

def World.update (obj : MainObject) (w : World) (r : Region obj.size) (mode : SynchronizeMode) (d : Nat) : World :=
  { w with tracker := (updateRegion obj w.tracker r.offset r.size mode d).val }

def step (w : World) : Event obj → World
  | .openRegion r =>
    { w with tracker := { w.tracker with partition := (addRegion w.tracker.partition r.offset r.size).val } }
  | .allocate idx => { w with tracker := { w.tracker with storage := w.tracker.storage.map idx } }
  | .access r mode d data =>
    let w := w.update obj r mode.val d
    if mode.val.write then w.write (obj.selected mode.val d) (regionBytes r data) else w

def run (w : World) (evs : List (Event obj)) : World := evs.foldl step w

/-- A new object. The host's bytes are its first contents if it uses or copies them. -/
def initial (obj : MainObject) (st : Storage) : World :=
  { tracker := initializeTracker obj st
    latest := fun a =>
      if (obj.useHostPtr = true ∨ obj.flags.has MemFlags.CopyHostPtr = true) ∧ a < obj.size then some (st.mem .host a)
      else none }

/-! ## The invariant -/

structure Inv (obj : MainObject) (w : World) : Prop where
  wellFormed : WellFormed obj.size w.tracker.partition
  bounded : BitsBounded obj w.tracker.partition
  coherent : ∀ a, a < obj.size → Coherent (w.replica obj) a

theorem foldl_map_mem (l : List Nat) (st : Storage) : (l.foldl Storage.map st).mem = st.mem := by
  induction l generalizing st with
  | nil => rfl
  | cons x l ih => exact ih _

/-- A new object's bytes are valid in the host memory if it is used, and in the first device's if they are copied. -/
theorem mem_copies_initial {st : Storage} {l : Loc} :
    l ∈ obj.copies (initialValidity obj st) ↔
      (obj.useHostPtr = true ∧ l = .host) ∨ (obj.flags.has MemFlags.CopyHostPtr = true ∧ l = obj.devicePtr 0) := by
  unfold initialValidity
  by_cases hu : obj.useHostPtr = true <;> by_cases hc : obj.flags.has MemFlags.CopyHostPtr = true <;>
    simp [hu, hc, copies_insert, copies_singleton, copies_updateHostValidity, copies_empty,
      copyLoc_device obj.devices_pos, or_comm]

/-- Copying the host's bytes to the first device leaves them where they were. -/
theorem initial_mem (st : Storage) {a : Nat} (ha : a < obj.size) (l : Loc) :
    (initializeTracker obj st).storage.mem l a =
      if obj.flags.has MemFlags.CopyHostPtr = true ∧ l = obj.devicePtr 0 then st.mem .host a else st.mem l a := by
  by_cases hc : obj.flags.has MemFlags.CopyHostPtr = true
  · simp [initializeTracker, initForDevices, hc, Storage.memcpy, Storage.map, foldl_map_mem, ha]
  · simp [initializeTracker, initForDevices, hc]

theorem initial_inv (st : Storage) : Inv obj (initial obj st) := by
  have wf := initial_wellFormed obj st
  refine ⟨wf, fun c hc i hi => ?_, fun a ha => ?_⟩
  · obtain rfl := List.mem_singleton.1 hc
    have h0 : 0 ≤ obj.getHostIndex := Nat.zero_le _
    simp only [initialValidity] at hi
    grind [mem_updateHostValidity]
  · have hv := wf.validityAt_eq (a := a) (List.mem_singleton.2 rfl)
      ⟨Nat.zero_le a, by simpa [MemoryChunk.stop] using ha⟩
    refine ⟨fun l hl b hb => ?_, fun hn => ?_⟩
    · simp only [World.replica, Tracker.replica, initial, hv, mem_copies_initial] at hl
      simp only [World.replica, Tracker.replica, initial, ha, and_true, Option.ite_none_right_eq_some,
        Option.some.injEq] at hb
      simp only [World.replica, Tracker.replica, initial, initial_mem st ha]
      rcases hl with ⟨-, rfl⟩ | ⟨hc, rfl⟩
      · simpa using hb.2
      · simpa [hc] using hb.2
    · simp only [World.replica, Tracker.replica, initial, ha, and_true, ne_eq, ite_eq_right_iff, reduceCtorEq,
        imp_false, not_not] at hn
      simp only [World.replica, Tracker.replica, initial, hv]
      rcases hn with hu | hc
      · exact ⟨_, mem_copies_initial.2 (.inl ⟨hu, rfl⟩)⟩
      · exact ⟨_, mem_copies_initial.2 (.inr ⟨hc, rfl⟩)⟩

/-! ## The steps keep it -/

theorem replica_congr {t t' : Tracker} {latest : Nat → Option UInt8} {a : Nat}
    (hm : t'.storage.mem = t.storage.mem) (hv : validityAt t'.partition a = validityAt t.partition a)
    (h : Coherent (t.replica obj latest) a) : Coherent (t'.replica obj latest) a := by
  refine ⟨fun l hl b hb => ?_, fun hn => ?_⟩
  · simp only [Tracker.replica, hv, hm] at hl hb ⊢
    exact h.holds l hl b hb
  · simp only [Tracker.replica, hv] at hn ⊢
    exact h.live hn

/-- After an update: the invariant holds but for the region of an access that only writes, whose
bytes only the selected copy is valid for. -/
theorem update_spec {w : World} (h : Inv obj w) (r : Region obj.size) (mode : AccessMode) {d : Nat}
    (hd : d < obj.devices.length) :
    let w' := w.update obj r mode.val d
    WellFormed obj.size w'.tracker.partition ∧ BitsBounded obj w'.tracker.partition ∧
    (∀ a, a < obj.size → (mode.val.read = true ∨ a < r.offset ∨ r.stop ≤ a) → Coherent (w'.replica obj) a) ∧
    (∀ a, a < obj.size → TouchedByte w.tracker.partition r.offset r.size a →
      (mode.val.read = true ∨ a < r.offset ∨ r.stop ≤ a) →
      HoldsLatest (w'.replica obj) (obj.selected mode.val d) a) ∧
    (mode.val.write = true → ∀ a, r.offset ≤ a → a < r.stop →
      (w'.replica obj).valid a = {obj.selected mode.val d}) := by
  have hs := updateRegion_synced r mode.val h.wellFormed h.bounded hd w.latest
  refine ⟨updateRegion_wellFormed h.wellFormed r _ _, updateRegion_bounded r _ h.wellFormed h.bounded hd,
    fun a ha ho => hs.coherent (h.coherent a ha) fun ht => .inl ⟨ht, ho⟩,
    fun a ha ht ho => hs.fresh (h.coherent a ha) ⟨ht, ho⟩,
    fun hw a h1 h2 => hs.valid_write hw (touchedByte_of_mem h.wellFormed r h1 h2)⟩

theorem step_inv {w : World} (h : Inv obj w) (e : Event obj) : Inv obj (step w e) := by
  cases e with
  | openRegion r =>
    obtain ⟨wf, -, hb, hv, -⟩ := addRegion_spec h.wellFormed r
    refine ⟨wf, fun c hc => ?_, fun a ha => replica_congr (t := w.tracker) rfl (hv a ha) (h.coherent a ha)⟩
    obtain ⟨c₀, h₀, he⟩ := hb c hc
    exact he ▸ h.bounded c₀ h₀
  | allocate idx => exact ⟨h.wellFormed, h.bounded, fun a ha => replica_congr (t := w.tracker) rfl rfl (h.coherent a ha)⟩
  | access r mode d data =>
    obtain ⟨wf, hb, hout, -, hin⟩ := update_spec h r mode d.isLt
    simp only [step]
    split
    · rename_i hw
      refine ⟨wf, hb, fun a ha => write_coherent (s := (w.update obj r mode.val d).replica obj) (fun hs => ?_)
        (fun hn => hout a ha ?_)⟩
      · simp only [regionBytes, ne_eq, ite_eq_right_iff, reduceCtorEq, imp_false, not_not] at hs
        exact hin hw a hs.1 hs.2
      · simp only [regionBytes, ite_eq_right_iff, reduceCtorEq, imp_false] at hn
        omega
    · rename_i hw
      exact ⟨wf, hb, fun a ha => hout a ha (.inl (mode.property.resolve_right hw))⟩

/-- Every state of a run is coherent. -/
theorem run_inv {w : World} (h : Inv obj w) (evs : List (Event obj)) : Inv obj (run w evs) :=
  List.foldlRecOn evs step h fun _ hw e _ => step_inv hw e

/-- After any run from a new object, every valid copy holds the byte written last; and after one more
update the selected copy holds it for the whole region if the mode reads, and for the rest of the
touched chunks in any case. -/
theorem coherency_of_run (obj : MainObject) (st : Storage) (evs : List (Event obj)) :
    let w := run (initial obj st) evs
    (∀ c ∈ w.tracker.partition, ∀ i ∈ c.validity, ∀ a, Contains offsetOf stopOf c a →
      ∀ b, w.latest a = some b → w.tracker.storage.mem (obj.copyLoc i) a = b) ∧
    (∀ (r : Region obj.size) (mode : AccessMode) (d : Fin obj.devices.length),
      let st' := (updateRegion obj w.tracker r.offset r.size mode.val d).val.storage
      (mode.val.read = true → ∀ a, r.offset ≤ a → a < r.stop →
        ∀ b, w.latest a = some b → st'.mem (obj.selected mode.val d) a = b) ∧
      (∀ a, TouchedByte w.tracker.partition r.offset r.size a → (a < r.offset ∨ r.stop ≤ a) →
        ∀ b, w.latest a = some b → st'.mem (obj.selected mode.val d) a = b)) := by
  intro w
  have h : Inv obj w := run_inv (initial_inv st) evs
  have hin : ∀ c ∈ w.tracker.partition, ∀ a, Contains offsetOf stopOf c a → a < obj.size :=
    fun c hc a ha => lt_of_lt_of_le ha.2 (h.wellFormed.tiles.mem hc).2.2
  refine ⟨fun c hc i hi a ha b hb => ?_, fun r mode d => ?_⟩
  · refine (h.coherent a (hin c hc a ha)).holds _ ?_ b hb
    simp only [World.replica, Tracker.replica, h.wellFormed.validityAt_eq hc ha]
    exact mem_copies hi
  · obtain ⟨-, -, -, hfresh, -⟩ := update_spec h r mode d.isLt
    refine ⟨fun hr a h1 h2 b hb => ?_, fun a ht ho b hb => ?_⟩
    · exact hfresh a (lt_of_lt_of_le h2 r.le) (touchedByte_of_mem h.wellFormed r h1 h2) (.inl hr) b hb
    · obtain ⟨c, hc, htc, ha⟩ := ht
      exact hfresh a (hin c hc a ha) ⟨c, hc, htc, ha⟩ (.inr ho) b hb

end OpenCRun.Coherency
