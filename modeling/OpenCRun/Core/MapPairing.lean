import Mathlib.Data.List.Perm.Basic
import OpenCRun.Core.MemMapping
/-!
# Mapping and unmapping

The calls that map and unmap through one object, and what `isValidMapping` of
that object says after them. An object that passes mappings on is asked about
records that it does not have.
-/
open Lib Lib.Runs

namespace OpenCRun.MapPairing

/-- A call on the object of the run. -/
inductive Call where
  | addMapping (ptr : Nat) (info : MemMappingInfo)
  | removeMapping (ptr choice : Nat)

/-- The records, and how often each pointer was mapped with success, and was to be unmapped. -/
structure State where
  mappings : Mappings := fun _ => []
  added : Nat → Nat := fun _ => 0
  removed : Nat → Nat := fun _ => 0

/-- One more for a pointer. -/
def count (counts : Nat → Nat) (ptr : Nat) : Nat → Nat := Function.update counts ptr (counts ptr + 1)

def run (o : MemoryObject) (s : State) : Call → State
  | .addMapping ptr info =>
    let r := o.addMapping s.mappings ptr info
    { s with mappings := r.1, added := if r.2 then count s.added ptr else s.added }
  | .removeMapping ptr choice =>
    { s with mappings := (o.removeMapping s.mappings ptr choice).1, removed := count s.removed ptr }

/-- A pointer can be unmapped exactly while it was mapped more often than unmapped. -/
def Paired (o : MemoryObject) (s : State) : Prop :=
  ∀ ptr, o.isValidMapping s.mappings ptr = true ↔ s.removed ptr < s.added ptr

/-- The object keeps the records of its mappings. -/
def KeepsOwn (o : MemoryObject) : Prop := o.main = o

/-- A mapping is added: of a pointer that was to be unmapped more often before than it was mapped, if
the object keeps its own records; of any other pointer, if it does not. -/
def AddsUnpaired (o : MemoryObject) (s : State) : Call → Prop
  | .addMapping ptr info =>
    (o.addMapping s.mappings ptr info).2 = true ∧
      (KeepsOwn o ∧ s.added ptr < s.removed ptr ∨ ¬ KeepsOwn o ∧ s.removed ptr ≤ s.added ptr)
  | .removeMapping .. => False

/-! ## Counting records -/

def records (l : List Mapping) (ptr : Nat) : Nat := l.countP (·.ptr == ptr)

theorem isValidMapping_iff {s : Mappings} {o : MemoryObject} {ptr : Nat} :
    o.isValidMapping s ptr = true ↔ 0 < records (s o) ptr := by
  rw [MemoryObject.isValidMapping, List.any_eq_true, records, List.countP_pos_iff]

theorem count_apply (counts : Nat → Nat) (ptr p : Nat) : count counts ptr p = counts p + if p = ptr then 1 else 0 := by
  unfold count
  split
  · next h => rw [h, Function.update_self]
  · next h => rw [Function.update_of_ne h, Nat.add_zero]

theorem addTo_records (l : List Mapping) (o : MemoryObject) (ptr : Nat) (info : MemMappingInfo) (p : Nat) :
    records (o.addTo l ptr info).1 p = records l p + if (o.addTo l ptr info).2 = true ∧ p = ptr then 1 else 0 := by
  unfold MemoryObject.addTo
  split
  · simp
  · rcases addOwn_cases l ptr (o.translated info) (o.mappedRegion info) with ⟨heq, -⟩ | ⟨heq, -⟩
    · rw [heq]
      simp [records, eq_comm (a := p)]
    · simp [heq]

/-- One record of the pointer is removed, if there is one. -/
theorem removeOwn_records (l : List Mapping) (ptr choice p : Nat) :
    records (removeOwn l ptr choice).1 p = records l p - if p = ptr then 1 else 0 := by
  unfold removeOwn
  split
  · next hnone =>
    split
    · next heq =>
      have hzero : records l p = 0 := by
        rw [records, List.countP_eq_zero]
        intro m hm hp
        obtain ⟨i, hi, hget⟩ := List.getElem_of_mem hm
        have := List.filter_eq_nil_iff.1 hnone i (List.mem_range.2 hi)
        simp only [List.getElem?_eq_getElem hi, Option.any_some, hget] at this
        exact this (heq ▸ hp)
      simp [hzero]
    · simp
  · next i is hsome =>
    have hmem : (i :: is).getD choice i ∈ (List.range l.length).filter fun i => (l[i]?).any (·.ptr == ptr) := by
      rw [hsome, List.getD_eq_getElem?_getD]
      cases h : (i :: is)[choice]? with
      | none => exact List.mem_cons_self
      | some j => exact List.mem_of_getElem? h
    rw [List.mem_filter, List.mem_range] at hmem
    obtain ⟨hlt, hptr⟩ := hmem
    -- Which of the records of the pointer is erased makes no difference.
    generalize (i :: is).getD choice i = j at hlt hptr ⊢
    simp only [List.getElem?_eq_getElem hlt, Option.any_some, beq_iff_eq] at hptr
    have hperm := (List.getElem_cons_eraseIdx_perm hlt).countP_eq (fun m : Mapping => m.ptr == p)
    rw [List.countP_cons, hptr] at hperm
    simp only [records, ← hperm, beq_iff_eq, eq_comm (a := p)]
    split <;> omega

/-! ## Runs -/

/-- As many records of a pointer as it was mapped more often than unmapped; none where they are
passed on, and no pointer was mapped more often. -/
def Counted (o : MemoryObject) (s : State) : Prop :=
  (KeepsOwn o → ∀ ptr, records (s.mappings o) ptr = s.added ptr - s.removed ptr) ∧
  (¬ KeepsOwn o → s.mappings o = [] ∧ ∀ ptr, s.added ptr ≤ s.removed ptr)

theorem Counted.paired {o : MemoryObject} {s : State} (h : Counted o s) : Paired o s := by
  intro ptr
  rw [isValidMapping_iff]
  by_cases hown : KeepsOwn o
  · rw [h.1 hown ptr]
    exact Nat.sub_pos_iff_lt
  · obtain ⟨hnone, hle⟩ := h.2 hown
    rw [hnone]
    exact iff_of_false (Nat.lt_irrefl 0) (Nat.not_lt_of_le (hle ptr))

/-- What a call that maps leaves, by whether it succeeds. -/
theorem run_add (o : MemoryObject) (s : State) (ptr : Nat) (info : MemMappingInfo) :
    (run o s (.addMapping ptr info)).mappings =
        Function.update s.mappings o.main (o.addTo (s.mappings o.main) ptr info).1 ∧
      ∀ p, (run o s (.addMapping ptr info)).added p =
        s.added p + if (o.addTo (s.mappings o.main) ptr info).2 = true ∧ p = ptr then 1 else 0 := by
  simp only [run, MemoryObject.addMapping_eq]
  refine ⟨trivial, fun p => ?_⟩
  cases (o.addTo (s.mappings o.main) ptr info).2 with
  | false => simp
  | true => simp [count_apply]

theorem addsUnpaired_iff {o : MemoryObject} {s : State} {ptr : Nat} {info : MemMappingInfo} :
    AddsUnpaired o s (.addMapping ptr info) ↔ (o.addTo (s.mappings o.main) ptr info).2 = true ∧
      (KeepsOwn o ∧ s.added ptr < s.removed ptr ∨ ¬ KeepsOwn o ∧ s.removed ptr ≤ s.added ptr) := by
  rw [AddsUnpaired, MemoryObject.addMapping_eq]

theorem run_good {o : MemoryObject} {s : State} {c : Call} (h : Counted o s) (hc : ¬ AddsUnpaired o s c) :
    Counted o (run o s c) := by
  cases c with
  | addMapping ptr info =>
    rw [addsUnpaired_iff] at hc
    -- A mapping that is added after more removals than additions would not be counted.
    obtain ⟨hmappings, hadded⟩ := run_add o s ptr info
    refine ⟨fun hown p => ?_, fun hown => ⟨?_, fun p => ?_⟩⟩
    · have hp := h.1 hown p
      rw [hmappings, hown, Function.update_self, addTo_records, hadded, hown, hp]
      change _ = _ - s.removed p
      split
      · next hnew =>
        obtain ⟨hsucc, rfl⟩ := hnew
        have : ¬ s.added p < s.removed p := fun hlt => hc ⟨by rw [hown]; exact hsucc, .inl ⟨hown, hlt⟩⟩
        omega
      · omega
    · rw [hmappings, Function.update_of_ne (Ne.symm hown)]
      exact (h.2 hown).1
    · have hp := (h.2 hown).2 p
      rw [hadded]
      change _ ≤ s.removed p
      split
      · next hnew =>
        obtain ⟨hsucc, rfl⟩ := hnew
        have : ¬ s.removed p ≤ s.added p := fun hle => hc ⟨hsucc, .inr ⟨hown, hle⟩⟩
        omega
      · omega
  | removeMapping ptr choice =>
    have hmappings : (run o s (.removeMapping ptr choice)).mappings =
        Function.update s.mappings o.main (removeOwn (s.mappings o.main) ptr choice).1 := by
      simp only [run, MemoryObject.removeMapping_eq]
    have hremoved : ∀ p, (run o s (.removeMapping ptr choice)).removed p = s.removed p + if p = ptr then 1 else 0 :=
      count_apply s.removed ptr
    refine ⟨fun hown p => ?_, fun hown => ⟨?_, fun p => ?_⟩⟩
    · have hp := h.1 hown p
      rw [hmappings, hown, Function.update_self, removeOwn_records, hremoved, hp]
      exact Nat.sub_sub _ _ _
    · rw [hmappings, Function.update_of_ne (Ne.symm hown)]
      exact (h.2 hown).1
    · have hp := (h.2 hown).2 p
      rw [hremoved]
      exact Nat.le_trans hp (Nat.le_add_right _ _)

/-- After a mapping that is not paired, the pointer of it is not either. -/
theorem run_bad {o : MemoryObject} {s : State} {c : Call} (h : Counted o s) (hc : AddsUnpaired o s c) :
    ¬ Paired o (run o s c) := by
  cases c with
  | addMapping ptr info =>
    rw [addsUnpaired_iff] at hc
    obtain ⟨hsucc, hcase⟩ := hc
    obtain ⟨hmappings, hadded⟩ := run_add o s ptr info
    intro hpaired
    have hptr := hpaired ptr
    rw [isValidMapping_iff, hmappings, hadded, if_pos ⟨hsucc, rfl⟩] at hptr
    change _ ↔ s.removed ptr < _ at hptr
    rcases hcase with ⟨hown, hlt⟩ | ⟨hown, hle⟩
    · rw [hown, Function.update_self, addTo_records] at hptr
      rw [hown] at hsucc
      rw [if_pos ⟨hsucc, rfl⟩] at hptr
      omega
    · rw [Function.update_of_ne (Ne.symm hown), (h.2 hown).1] at hptr
      have : records [] ptr = 0 := rfl
      omega
  | removeMapping ptr choice => exact hc.elim

/-- All along a run, a pointer can be unmapped through the object exactly while it was mapped more
often than unmapped: if no call maps a pointer that it had unmapped too often before, where the
object keeps its records, and if calls map only such pointers, where it does not. -/
theorem paired_iff (o : MemoryObject) (calls : List Call) :
    (∀ done, done <+: calls → Paired o (done.foldl (run o) {})) ↔
      ∀ done c, done ++ [c] <+: calls → ¬ AddsUnpaired o (done.foldl (run o) {}) c :=
  prefixes_iff_of_good (run o) (I := Counted o)
    ⟨fun _ _ => rfl, fun _ => ⟨rfl, fun _ => Nat.le_refl 0⟩⟩ (fun _ => Counted.paired) (fun _ _ => run_good)
    (fun _ _ => run_bad) calls

/-- A sub-buffer that is mapped does not know its mapping. -/
theorem subBuffer_mapping_unknown :
    ¬ ∀ (o : MemoryObject) (calls : List Call), ∀ done, done <+: calls → Paired o (done.foldl (run o) {}) := by
  intro hall
  have hpaired := hall (.buffer (.sub 1 (.main sixteen) 4 8 MemFlags.ReadWrite))
    [.addMapping 1 (MapOp.eight .CL_MAP_READ)] _ (List.prefix_refl _) 1
  revert hpaired
  decide

end OpenCRun.MapPairing
