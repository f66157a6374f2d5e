import OpenCRun.Core.SubObject
import OpenCRun.Lib.Runs
/-!
# Storage on a CPU device

`CPUMemoryDescriptor` and `CPUImageDescriptor` of `CPUDevice.cpp`. A descriptor
allocates when its object is first mapped; the one of a sub-object asks its
parent's descriptor for a storage. Objects are mapped in any order.
-/
open Lib Lib.Runs Lib.Checked

namespace OpenCRun.MemoryDescriptor

/-- The fields of a descriptor, `Ptr` without the null pointer. -/
structure Descriptor where
  allocated : Bool := false
  ptr : Option Nat := none

/-- The descriptors on one device, and the storages that `CacheAlignedAlloc` has allocated. -/
structure State where
  desc : MemoryObject → Descriptor
  storages : List Nat

def initial : State := { desc := fun _ => {}, storages := [] }

/-- `sys::CacheAlignedAlloc`, which gives `storage`. -/
def cacheAlignedAlloc (storage : Option Nat) (st : State) : Option Nat × State :=
  (storage, { st with storages := st.storages ++ storage.toList })

/-- `allocateStorage` of an object without a parent. -/
def allocateRoot (storage : Option Nat) (o : MemoryObject) (m : Main) (st : State) : Checked (Option Nat × State) := do
  Checked.check (!(st.desc o).allocated)
  -- If UseHostPtr is set, do not duplicate the storage.
  if m.flags.has MemFlags.UseHostPtr then
    return (m.hostPtr, st)
  return cacheAlignedAlloc storage st

def allocateBuffer (storage : Option Nat) (st : State) : Buffer → Checked (Option Nat × State)
  | .main m => allocateRoot storage (.buffer (.main m)) m st
  -- the parent's descriptor keeps no pointer of its own here
  | .sub _ parent _ _ _ => do
    let (base, st) ← allocateBuffer storage st parent
    return (base.map (· + parent.getParentOffset), st)

def allocateStorage (storage : Option Nat) (o : MemoryObject) (st : State) : Checked (Option Nat × State) :=
  match o with
  | .buffer b => allocateBuffer storage st b
  | .image m => allocateRoot storage o m st
  | .image1DBuffer _ buf _ _ => do
    let (base, st) ← allocateBuffer storage st buf
    return (base.map (· + buf.getParentOffset), st)

/-- The object is the main buffer `r`, or over it. -/
def Over (r : Main) : MemoryObject → Prop
  | .buffer b => b.root = r
  | .image _ => False
  | .image1DBuffer _ buf _ _ => buf.root = r

/-- An object that is mapped, and what the allocations give if they are made. -/
structure Mapping (r : Main) where
  obj : MemoryObject
  isOver : Over r obj
  storage : Option Nat
  header : Bool

variable {r : Main}

/-- `allocate`, of an image with its header. -/
def allocate (e : Mapping r) (st : State) : Checked State := do
  let (ptr, st) ← allocateStorage e.storage e.obj st
  let allocated := match e.obj with
    | .buffer _ => ptr.isSome
    | _ => ptr.isSome && e.header
  return { st with desc := Function.update st.desc e.obj { allocated, ptr } }

/-- `map`, up to the pointer it returns. -/
def map (e : Mapping r) (st : State) : Checked State :=
  -- tryAllocate
  if (st.desc e.obj).allocated then pure st else allocate e st

/-- The objects are mapped one after the other. -/
def run (c : Checked State) (e : Mapping r) : Checked State := c >>= map e

/-- Where the memory of the main object is. -/
def rootAddress (r : Main) (st : State) : Option Nat :=
  if r.flags.has MemFlags.UseHostPtr then r.hostPtr else st.storages.head?

/-- No assertion has failed, there is at most one storage, and every object is at its place in it. -/
structure Placed (r : Main) (c : Checked State) : Prop where
  asserted : c.ok = true
  once : c.val.storages.length ≤ 1
  address : ∀ o a, (c.val.desc o).ptr = some a → ∃ base, rootAddress r c.val = some base ∧ a = base + o.absoluteOrigin

/-- A mapping that allocates, and goes wrong. -/
def Misplaces (r : Main) (st : State) (e : Mapping r) : Prop :=
  (st.desc e.obj).allocated = false ∧
    -- the main buffer itself has been mapped before
    ((st.desc (.buffer (.main r))).allocated = true ∨
      if r.flags.has MemFlags.UseHostPtr then e.obj.getParentOffset ≠ 0
      else e.storage ≠ none ∧ (st.storages ≠ [] ∨ e.obj.getParentOffset ≠ 0))

/-! ## One allocation -/

/-- What the descriptor of the main buffer gives, without its assertion. -/
def rootStorage (r : Main) (storage : Option Nat) (st : State) : Option Nat × State :=
  if r.flags.has MemFlags.UseHostPtr then (r.hostPtr, st) else cacheAlignedAlloc storage st

theorem allocateRoot_eq (storage : Option Nat) (o : MemoryObject) (m : Main) (st : State) :
    allocateRoot storage o m st = ⟨rootStorage m storage st, !(st.desc o).allocated⟩ := by
  simp only [allocateRoot, rootStorage]
  split <;> apply Checked.ext <;> simp

/-- A storage of the parent, and the offset that the parent has in its own parent. -/
theorem shift_storage (x : Option Nat × State) (n : Nat) (ok : Bool) (b : Buffer) (hn : n = b.parentOrigin) :
    (do
      let (base, st) ← (⟨(x.1.map (· + n), x.2), ok⟩ : Checked (Option Nat × State))
      return (base.map (· + b.getParentOffset), st)) = ⟨(x.1.map (· + b.absoluteOrigin), x.2), ok⟩ := by
  subst hn
  apply Checked.ext
  · simp [Option.map_map, Function.comp_def, Nat.add_assoc, b.absoluteOrigin_eq]
  · simp

theorem allocateBuffer_eq (storage : Option Nat) (st : State) (b : Buffer) :
    allocateBuffer storage st b =
      ⟨((rootStorage b.root storage st).1.map (· + b.parentOrigin), (rootStorage b.root storage st).2),
        !(st.desc (.buffer (.main b.root))).allocated⟩ := by
  induction b with
  | main m =>
    rw [allocateBuffer, allocateRoot_eq]
    simp [Buffer.root, Buffer.parentOrigin]
  | sub id parent origin size flags ih =>
    rw [allocateBuffer, ih]
    exact shift_storage _ _ _ parent rfl

/-- An object gets the place where its parent begins, whatever its own offset is. -/
theorem allocateStorage_eq (storage : Option Nat) (st : State) (o : MemoryObject) :
    allocateStorage storage o st =
      ⟨((rootStorage o.root storage st).1.map (· + o.parentOrigin), (rootStorage o.root storage st).2),
        !(st.desc o.main).allocated⟩ := by
  cases o with
  | buffer b => exact allocateBuffer_eq storage st b
  | image m =>
    rw [allocateStorage, allocateRoot_eq]
    simp [MemoryObject.root, MemoryObject.parentOrigin, MemoryObject.main]
  | image1DBuffer id buf size flags =>
    rw [allocateStorage, allocateBuffer_eq]
    exact shift_storage _ _ _ buf rfl

theorem over_root {o : MemoryObject} (h : Over r o) : o.root = r ∧ o.main = .buffer (.main r) := by
  cases o with
  | buffer b =>
    obtain rfl : b.root = r := h
    exact ⟨rfl, rfl⟩
  | image m => exact h.elim
  | image1DBuffer id buf size flags =>
    obtain rfl : buf.root = r := h
    exact ⟨rfl, rfl⟩

section Mapped
variable (e : Mapping r) (st : State)

theorem map_allocated (h : (st.desc e.obj).allocated = true) : map e st = pure st := if_pos h

variable (h : (st.desc e.obj).allocated = false)
include h

theorem map_ok : (map e st).ok = !(st.desc (.buffer (.main r))).allocated := by
  rw [map, if_neg (by simp [h]), allocate, allocateStorage_eq, (over_root e.isOver).2]
  simp

theorem map_storages : (map e st).val.storages = (rootStorage r e.storage st).2.storages := by
  rw [map, if_neg (by simp [h]), allocate, allocateStorage_eq, (over_root e.isOver).1]
  rfl

/-- The pointer is where the object's parent begins. -/
theorem map_ptr (o : MemoryObject) : ((map e st).val.desc o).ptr =
    if o = e.obj then (rootStorage r e.storage st).1.map (· + e.obj.parentOrigin) else (st.desc o).ptr := by
  have hdesc : (rootStorage r e.storage st).2.desc = st.desc := by
    unfold rootStorage
    split <;> rfl
  rw [map, if_neg (by simp [h]), allocate, allocateStorage_eq, (over_root e.isOver).1]
  simp only [val_bind, val_pure, hdesc, Function.update_apply]
  split <;> rfl

end Mapped

/-! ## Mapping in any order -/

section Step
variable {c : Checked State} {e : Mapping r}

/-- With the host's memory, an object is misplaced by its own offset. -/
theorem placed_host (h : Placed r c) (ha : (c.val.desc e.obj).allocated = false)
    (hroot : (c.val.desc (.buffer (.main r))).allocated = false) (hhost : r.flags.has MemFlags.UseHostPtr = true) :
    Placed r (run c e) ↔ e.obj.getParentOffset = 0 := by
  obtain ⟨p, hp⟩ := Option.isSome_iff_exists.1 (r.hostPtr_isSome hhost)
  have hstorage : rootStorage r e.storage c.val = (some p, c.val) := by rw [rootStorage, if_pos hhost, hp]
  have haddr : ∀ st, rootAddress r st = some p := fun st => by rw [rootAddress, if_pos hhost, hp]
  have hptr := map_ptr e c.val ha
  rw [hstorage] at hptr
  constructor
  · intro hr
    obtain ⟨base, hbase, heq⟩ := hr.address e.obj (p + e.obj.parentOrigin) ((hptr e.obj).trans (if_pos rfl))
    rw [haddr] at hbase
    obtain rfl := Option.some.inj hbase
    rw [e.obj.absoluteOrigin_eq] at heq
    omega
  · intro hzero
    refine ⟨?_, ?_, fun o a ho => ?_⟩
    · simp [run, h.asserted, map_ok e c.val ha, hroot]
    · simp only [run, val_bind, map_storages e c.val ha, hstorage]
      exact h.once
    · refine ⟨p, haddr _, ?_⟩
      rw [run, val_bind, hptr] at ho
      split at ho
      · subst o
        rw [e.obj.absoluteOrigin_eq, hzero]
        exact (Option.some.inj ho).symm
      · obtain ⟨base, hbase, heq⟩ := h.address o a ho
        rw [haddr] at hbase
        rw [Option.some.inj hbase]
        exact heq

/-- An allocation that fails changes nothing but the object's pointer. -/
theorem placed_failed (h : Placed r c) (ha : (c.val.desc e.obj).allocated = false)
    (hroot : (c.val.desc (.buffer (.main r))).allocated = false) (hhost : ¬ r.flags.has MemFlags.UseHostPtr = true)
    (he : e.storage = none) : Placed r (run c e) := by
  have hstorage : rootStorage r e.storage c.val = (none, c.val) := by
    rw [rootStorage, if_neg hhost, he]
    simp [cacheAlignedAlloc]
  have hsame : (run c e).val.storages = c.val.storages := by
    rw [run, val_bind, map_storages e c.val ha, hstorage]
  refine ⟨?_, ?_, fun o a ho => ?_⟩
  · simp [run, h.asserted, map_ok e c.val ha, hroot]
  · rw [hsame]
    exact h.once
  · rw [run, val_bind, map_ptr e c.val ha, hstorage] at ho
    split at ho
    · exact absurd ho (by simp)
    · rw [rootAddress, hsame]
      exact h.address o a ho

/-- A storage is right if it is the first, and the object is at its beginning. -/
theorem placed_allocated (h : Placed r c) (ha : (c.val.desc e.obj).allocated = false)
    (hroot : (c.val.desc (.buffer (.main r))).allocated = false) (hhost : ¬ r.flags.has MemFlags.UseHostPtr = true)
    {base : Nat} (he : e.storage = some base) :
    Placed r (run c e) ↔ c.val.storages = [] ∧ e.obj.getParentOffset = 0 := by
  have hstorage : rootStorage r e.storage c.val = (some base, { c.val with storages := c.val.storages ++ [base] }) := by
    rw [rootStorage, if_neg hhost, he]
    rfl
  have hnew : (run c e).val.storages = c.val.storages ++ [base] := by
    rw [run, val_bind, map_storages e c.val ha, hstorage]
  have hptr := map_ptr e c.val ha
  rw [hstorage] at hptr
  have haddr : c.val.storages = [] → rootAddress r (run c e).val = some base := by
    intro hnil
    rw [rootAddress, if_neg hhost, hnew, hnil]
    rfl
  constructor
  · intro hr
    have hnil : c.val.storages = [] := by
      have := hr.once
      rw [hnew, List.length_append, List.length_singleton] at this
      exact List.length_eq_zero_iff.1 (by omega)
    obtain ⟨base', hbase, heq⟩ := hr.address e.obj (base + e.obj.parentOrigin) ((hptr e.obj).trans (if_pos rfl))
    rw [haddr hnil] at hbase
    obtain rfl := Option.some.inj hbase
    rw [e.obj.absoluteOrigin_eq] at heq
    exact ⟨hnil, by omega⟩
  · rintro ⟨hnil, hzero⟩
    refine ⟨?_, ?_, fun o a ho => ?_⟩
    · simp [run, h.asserted, map_ok e c.val ha, hroot]
    · rw [hnew, hnil]
      exact Nat.le_refl 1
    · refine ⟨base, haddr hnil, ?_⟩
      rw [run, val_bind, hptr] at ho
      split at ho
      · subst o
        rw [e.obj.absoluteOrigin_eq, hzero]
        exact (Option.some.inj ho).symm
      · -- nothing can have been placed before
        obtain ⟨_, hbase, -⟩ := h.address o a ho
        rw [rootAddress, if_neg hhost, hnil] at hbase
        exact absurd hbase (by simp)

theorem run_placed_iff (h : Placed r c) (e : Mapping r) : Placed r (run c e) ↔ ¬ Misplaces r c.val e := by
  by_cases ha : (c.val.desc e.obj).allocated = true
  · have hrun : run c e = c := by
      have hmap := map_allocated e c.val ha
      apply Checked.ext
      · rw [run, val_bind, hmap, val_pure]
      · rw [run, ok_bind, hmap, ok_pure, Bool.and_true]
    rw [hrun]
    exact iff_of_true h fun hm => by simp [hm.1] at ha
  rw [Bool.not_eq_true] at ha
  by_cases hroot : (c.val.desc (.buffer (.main r))).allocated = true
  · apply iff_of_false
    · intro hr
      have := hr.asserted
      simp [run, map_ok e c.val ha, hroot] at this
    · exact not_not.2 ⟨ha, .inl hroot⟩
  have hroot' := Bool.not_eq_true _ ▸ hroot
  by_cases hhost : r.flags.has MemFlags.UseHostPtr = true
  · rw [placed_host h ha hroot' hhost]
    simp [Misplaces, ha, hroot', hhost]
  · cases he : e.storage with
    | none =>
      apply iff_of_true (placed_failed h ha hroot' hhost he)
      simp [Misplaces, hroot', hhost, he]
    | some base =>
      rw [placed_allocated h ha hroot' hhost he]
      simp [Misplaces, ha, hroot', hhost, he]

end Step

theorem initial_placed : Placed r (pure initial) := ⟨rfl, Nat.zero_le 1, fun o a h => by cases h⟩

/-- At most one storage is allocated, without a failed assertion, and every object is at its origin in it,
if and only if no mapping goes wrong: the one that allocates comes before one of the main buffer, it is
the first for which memory is allocated or uses the host's, and its object has no offset of its own. -/
theorem storage_iff (r : Main) (order : List (Mapping r)) :
    (∀ done, done <+: order → Placed r (done.foldl run (pure initial))) ↔
      ∀ done e, done ++ [e] <+: order → ¬ Misplaces r (done.foldl run (pure initial)).val e := by
  have hstep : ∀ (c : Checked State) (e : Mapping r), True → Placed r c →
      (Placed r (run c e) ↔ ¬ Misplaces r c.val e) := fun _ e _ h => run_placed_iff h e
  exact prefixes_iff run trivial initial_placed (fun _ _ _ => trivial) hstep order

/-- The image over all of a buffer. -/
def wholeImage : MemoryObject := .image1DBuffer 1 (.main sixteen) 16 MemFlags.ReadWrite

/-- The buffer is mapped and then the image. An assertion fails; without assertions, the image gets a
storage of its own. -/
theorem image_detached : ∃ order : List (Mapping sixteen),
    order.map Mapping.obj = [.buffer (.main sixteen), wholeImage] ∧ (order.foldl run (pure initial)).ok = false ∧
    ((order.foldl run (pure initial)).val.desc (.buffer (.main sixteen))).ptr = some 64 ∧
    ((order.foldl run (pure initial)).val.desc wholeImage).ptr = some 128 ∧
    ¬ ∀ done, done <+: order → Placed sixteen (done.foldl run (pure initial)) := by
  refine ⟨[⟨.buffer (.main sixteen), rfl, some 64, true⟩, ⟨wholeImage, rfl, some 128, true⟩], rfl, rfl, rfl, rfl, fun h => ?_⟩
  exact absurd (h _ (List.prefix_refl _)).once (Nat.not_succ_le_self 1)

end OpenCRun.MemoryDescriptor
