import Mathlib.Algebra.Group.Nat.Defs
import Mathlib.Logic.Function.Basic
import OpenCRun.Core.SubObject
import OpenCRun.Lib.Box
import OpenCRun.Lib.Runs
/-!
# Mappings

`MemoryObject.cpp`: what an object records of the regions that the host has
mapped. A sub-buffer and an `Image1D_Buffer` pass a mapping on to their parent.
Next to what the code stores, a record has the region that was really mapped.
-/
open Lib Lib.Runs

namespace OpenCRun

abbrev SizeT := BitVec 64

/-- `cl_map_flags`. -/
abbrev CLMapFlags := BitVec 64

namespace CLMapFlags

def CL_MAP_READ : CLMapFlags := 1#64 <<< 0
def CL_MAP_WRITE : CLMapFlags := 1#64 <<< 1
def CL_MAP_WRITE_INVALIDATE_REGION : CLMapFlags := 1#64 <<< 2

def has (flags mask : CLMapFlags) : Bool := flags &&& mask != 0

/-- Taken with one of the flags for writing. -/
def writes (flags : CLMapFlags) : Bool := has flags (CL_MAP_WRITE ||| CL_MAP_WRITE_INVALIDATE_REGION)

end CLMapFlags

/-- For the numerals of `Fin 3`. -/
instance neZeroThree : @NeZero Nat Zero.ofOfNat0 3 := ⟨Nat.succ_ne_zero 2⟩

/-- For a buffer only the dimension 0 is ever set. -/
structure MemMappingInfo where
  offset : Fin 3 → SizeT
  size : Fin 3 → SizeT
  flags : CLMapFlags

namespace MemMappingInfo

def checkIntersection (x₁ l₁ x₂ l₂ : SizeT) : Bool := decide (x₂ < x₁ + l₁) && decide (x₁ < x₂ + l₂)

def isOverlappedWith (i j : MemMappingInfo) : Bool :=
  (List.finRange 3).all fun d => checkIntersection (i.offset d) (i.size d) (j.offset d) (j.size d)

/-- `NewInfo.Offset[0] += …`. -/
def shift (i : MemMappingInfo) (origin : Nat) : MemMappingInfo :=
  { i with offset := Function.update i.offset 0 (i.offset 0 + BitVec.ofNat 64 origin) }

end MemMappingInfo

/-- A record of `MemMappings`, and the region that it stands for. -/
structure Mapping where
  ptr : Nat
  info : MemMappingInfo
  region : Box (Fin 3) Nat

/-- The `MemMappings` of all objects. -/
abbrev Mappings := MemoryObject → List Mapping

/-! ## Adding and removing -/

/-- `addMapping` of an object that keeps its own records. -/
def addOwn (records : List Mapping) (ptr : Nat) (info : MemMappingInfo) (region : Box (Fin 3) Nat) :
    List Mapping × Bool :=
  if info.flags.writes then
    if records.any (·.ptr == ptr) then (records, false)
    else if records.any (fun m => m.info.isOverlappedWith info) then (records, false)
    else (records ++ [⟨ptr, info, region⟩], true)
  else (records ++ [⟨ptr, info, region⟩], true)

/-- `MemMappings.find` may give any of the records with the pointer: the choice is the hash table's. -/
def removeOwn (records : List Mapping) (ptr choice : Nat) : List Mapping × Bool :=
  match (List.range records.length).filter (fun i => (records[i]?).any (·.ptr == ptr)) with
  | [] => (records, false)
  | i :: is => (records.eraseIdx ((i :: is).getD choice i), true)

namespace Buffer

def addMapping (s : Mappings) (ptr : Nat) (region : Box (Fin 3) Nat) : Buffer → MemMappingInfo → Mappings × Bool
  | main m, info =>
    if ptr = 0 ∨ info.flags = 0 then (s, false)
    else
      let r := addOwn (s (.buffer (main m))) ptr info region
      (Function.update s (.buffer (main m)) r.1, r.2)
  | sub _ parent origin _ _, info =>
    if ptr = 0 ∨ info.flags = 0 then (s, false)
    else parent.addMapping s ptr region (info.shift origin)

def removeMapping (s : Mappings) (ptr choice : Nat) : Buffer → Mappings × Bool
  | main m =>
    let r := removeOwn (s (.buffer (main m))) ptr choice
    (Function.update s (.buffer (main m)) r.1, r.2)
  | sub _ parent _ _ _ => parent.removeMapping s ptr choice

end Buffer

namespace MemoryObject

/-- The bytes of the root that a mapping of a buffer covers, or the pixels of an image. -/
def mappedRegion (o : MemoryObject) (info : MemMappingInfo) : Box (Fin 3) Nat :=
  match o with
  | image _ => ⟨fun d => (info.offset d).toNat, fun d => (info.offset d).toNat + (info.size d).toNat⟩
  | o =>
    let first := o.absoluteOrigin + (info.offset 0).toNat
    ⟨fun d => if d = 0 then first else 0, fun d => if d = 0 then first + (info.size 0).toNat else 1⟩

def addMapping (s : Mappings) (o : MemoryObject) (ptr : Nat) (info : MemMappingInfo) : Mappings × Bool :=
  match o with
  | buffer b => b.addMapping s ptr (o.mappedRegion info) info
  | image m =>
    if ptr = 0 ∨ info.flags = 0 then (s, false)
    else
      let r := addOwn (s (.image m)) ptr info (o.mappedRegion info)
      (Function.update s (.image m) r.1, r.2)
  | image1DBuffer _ buf _ _ =>
    if ptr = 0 ∨ info.flags = 0 then (s, false) else buf.addMapping s ptr (o.mappedRegion info) info

def removeMapping (s : Mappings) (o : MemoryObject) (ptr choice : Nat) : Mappings × Bool :=
  match o with
  | buffer b => b.removeMapping s ptr choice
  | image m =>
    let r := removeOwn (s (.image m)) ptr choice
    (Function.update s (.image m) r.1, r.2)
  | image1DBuffer _ buf _ _ => buf.removeMapping s ptr choice

/-- Of the object's own records, also where mappings are passed on. -/
def isValidMapping (s : Mappings) (o : MemoryObject) (ptr : Nat) : Bool := (s o).any (·.ptr == ptr)

end MemoryObject

/-! ## Where a mapping is recorded -/

namespace MemMappingInfo

@[simp] theorem shift_flags (i : MemMappingInfo) (origin : Nat) : (i.shift origin).flags = i.flags := rfl

theorem shift_zero (i : MemMappingInfo) : i.shift 0 = i := by
  simp [shift]

theorem shift_shift (i : MemMappingInfo) (a b : Nat) : (i.shift a).shift b = i.shift (b + a) := by
  simp only [shift, Function.update_self, Function.update_idem, BitVec.ofNat_add]
  congr 2
  ac_rfl

end MemMappingInfo

namespace MemoryObject

/-- What is recorded for the object's main object. -/
def translated (o : MemoryObject) (info : MemMappingInfo) : MemMappingInfo := info.shift o.absoluteOrigin

/-- Adding to a list of records, with the tests of the object. -/
def addTo (records : List Mapping) (o : MemoryObject) (ptr : Nat) (info : MemMappingInfo) : List Mapping × Bool :=
  if ptr = 0 ∨ info.flags = 0 then (records, false) else addOwn records ptr (o.translated info) (o.mappedRegion info)

end MemoryObject

theorem Buffer.addMapping_eq (s : Mappings) (ptr : Nat) (region : Box (Fin 3) Nat) (b : Buffer) (info : MemMappingInfo) :
    b.addMapping s ptr region info =
      if ptr = 0 ∨ info.flags = 0 then (s, false)
      else
        let r := addOwn (s (.buffer (.main b.root))) ptr (info.shift b.absoluteOrigin) region
        (Function.update s (.buffer (.main b.root)) r.1, r.2) := by
  induction b generalizing info with
  | main m => rw [addMapping, absoluteOrigin, info.shift_zero]; rfl
  | sub id parent origin size flags ih =>
    rw [addMapping, ih, MemMappingInfo.shift_flags]
    split
    · rfl
    · rw [MemMappingInfo.shift_shift]; rfl

theorem Buffer.removeMapping_eq (s : Mappings) (ptr choice : Nat) (b : Buffer) :
    b.removeMapping s ptr choice =
      let r := removeOwn (s (.buffer (.main b.root))) ptr choice
      (Function.update s (.buffer (.main b.root)) r.1, r.2) := by
  induction b with
  | main m => rfl
  | sub id parent origin size flags ih => exact ih

namespace MemoryObject

/-- A mapping is recorded by the main object, whichever object it was taken through. -/
theorem addMapping_eq (s : Mappings) (o : MemoryObject) (ptr : Nat) (info : MemMappingInfo) :
    o.addMapping s ptr info =
      (Function.update s o.main (o.addTo (s o.main) ptr info).1, (o.addTo (s o.main) ptr info).2) := by
  unfold addTo
  cases o with
  | buffer b =>
    rw [addMapping, Buffer.addMapping_eq]
    split <;> simp [translated, absoluteOrigin, main]
  | image m =>
    rw [addMapping, translated, absoluteOrigin, info.shift_zero]
    split <;> simp [main]
  | image1DBuffer id buf size flags =>
    rw [addMapping, Buffer.addMapping_eq]
    split <;> simp [translated, absoluteOrigin, main]

theorem removeMapping_eq (s : Mappings) (o : MemoryObject) (ptr choice : Nat) :
    o.removeMapping s ptr choice =
      (Function.update s o.main (removeOwn (s o.main) ptr choice).1, (removeOwn (s o.main) ptr choice).2) := by
  cases o with
  | buffer b => exact Buffer.removeMapping_eq s ptr choice b
  | image m => rfl
  | image1DBuffer id buf size flags => exact Buffer.removeMapping_eq s ptr choice buf

end MemoryObject

/-! ## Exclusion -/

/-- One of two mappings is for writing, and they have a byte or pixel in common. -/
def Conflict (a b : Mapping) : Prop :=
  (a.info.flags.writes = true ∨ b.info.flags.writes = true) ∧ a.region.Overlap b.region

def Exclusive (records : List Mapping) : Prop := records.Pairwise fun a b => ¬ Conflict a b

/-- The mapping conflicts with a live one and the tests do not see it: for a mapping to read there are
none, and for one to write no live mapping has its pointer or is found to overlap. -/
def Unseen (records : List Mapping) (ptr : Nat) (info : MemMappingInfo) (region : Box (Fin 3) Nat) : Prop :=
  (∃ m ∈ records, Conflict m ⟨ptr, info, region⟩) ∧
    (info.flags.writes = true → ∀ m ∈ records, m.ptr ≠ ptr ∧ m.info.isOverlappedWith info = false)

/-- A mapping is refused, and nothing changes, or it is added to the records. -/
theorem addOwn_cases (records : List Mapping) (ptr : Nat) (info : MemMappingInfo) (region : Box (Fin 3) Nat) :
    (addOwn records ptr info region = (records ++ [⟨ptr, info, region⟩], true) ∧
      (info.flags.writes = true → ∀ m ∈ records, m.ptr ≠ ptr ∧ m.info.isOverlappedWith info = false)) ∨
    (addOwn records ptr info region = (records, false) ∧
      ¬ (info.flags.writes = true → ∀ m ∈ records, m.ptr ≠ ptr ∧ m.info.isOverlappedWith info = false)) := by
  unfold addOwn
  by_cases hw : info.flags.writes = true
  · rw [if_pos hw]
    by_cases hp : records.any (·.ptr == ptr) = true
    · refine .inr ⟨if_pos hp, fun h => ?_⟩
      obtain ⟨m, hm, heq⟩ := List.any_eq_true.1 hp
      exact (h hw m hm).1 (beq_iff_eq.1 heq)
    · by_cases ho : records.any (fun m => m.info.isOverlappedWith info) = true
      · refine .inr ⟨by rw [if_neg hp, if_pos ho], fun h => ?_⟩
        obtain ⟨m, hm, heq⟩ := List.any_eq_true.1 ho
        rw [(h hw m hm).2] at heq
        cases heq
      · refine .inl ⟨by rw [if_neg hp, if_neg ho], fun _ m hm => ⟨fun heq => hp ?_, ?_⟩⟩
        · exact List.any_eq_true.2 ⟨m, hm, beq_iff_eq.2 heq⟩
        · cases h : m.info.isOverlappedWith info with
          | false => rfl
          | true => exact absurd (List.any_eq_true.2 ⟨m, hm, h⟩) ho
  · rw [if_neg hw]
    exact .inl ⟨rfl, fun h => absurd h hw⟩

theorem addOwn_exclusive {records : List Mapping} (h : Exclusive records) (ptr : Nat) (info : MemMappingInfo)
    (region : Box (Fin 3) Nat) :
    Exclusive (addOwn records ptr info region).1 ↔ ¬ Unseen records ptr info region := by
  rcases addOwn_cases records ptr info region with ⟨heq, hunseen⟩ | ⟨heq, hseen⟩
  · rw [heq]
    constructor
    · rintro hex ⟨⟨m, hm, hc⟩, -⟩
      exact (List.pairwise_append.1 hex).2.2 m hm _ (List.mem_singleton_self _) hc
    · intro hno
      refine List.pairwise_append.2 ⟨h, List.pairwise_singleton _ _, fun m hm n hn hc => ?_⟩
      rw [List.mem_singleton.1 hn] at hc
      exact hno ⟨⟨m, hm, hc⟩, hunseen⟩
  · rw [heq]
    exact iff_of_true h fun hu => hseen hu.2

theorem removeOwn_sublist (records : List Mapping) (ptr choice : Nat) :
    (removeOwn records ptr choice).1.Sublist records := by
  unfold removeOwn
  split
  · exact List.Sublist.refl _
  · exact List.eraseIdx_sublist _ _

/-- The record says which region it stands for, and none of its sums wraps around. -/
def Represents (info : MemMappingInfo) (region : Box (Fin 3) Nat) : Prop :=
  ∀ d, (info.offset d).toNat = region.lower d ∧ (info.offset d).toNat + (info.size d).toNat = region.upper d ∧
    region.upper d < 2 ^ 64

/-- The test finds the overlap of regions that the records represent. -/
theorem isOverlappedWith_of_overlap {i j : MemMappingInfo} {r r' : Box (Fin 3) Nat} (hi : Represents i r)
    (hj : Represents j r') (h : r.Overlap r') : i.isOverlappedWith j = true := by
  rw [Box.overlap_iff] at h
  refine List.all_eq_true.2 fun d _ => ?_
  obtain ⟨hlow, hup, hlt⟩ := hi d
  obtain ⟨hlow', hup', hlt'⟩ := hj d
  have hd := h d
  simp only [MemMappingInfo.checkIntersection, Bool.and_eq_true, decide_eq_true_eq, BitVec.lt_def, BitVec.toNat_add]
  omega

/-- Such conflicts are only missed by mappings to read. -/
theorem Unseen.reads {records : List Mapping} {ptr : Nat} {info : MemMappingInfo} {region : Box (Fin 3) Nat}
    (h : Unseen records ptr info region) (hrep : Represents info region)
    (hall : ∀ m ∈ records, Represents m.info m.region) : info.flags.writes = false := by
  obtain ⟨⟨m, hm, -, hover⟩, hseen⟩ := h
  cases hw : info.flags.writes with
  | false => rfl
  | true =>
    have hfound := isOverlappedWith_of_overlap (hall m hm) hrep hover
    rw [(hseen hw m hm).2] at hfound
    cases hfound

/-! ## Runs -/

inductive MapOp where
  | add (o : MemoryObject) (ptr : Nat) (info : MemMappingInfo)
  | remove (o : MemoryObject) (ptr choice : Nat)

namespace MapOp

def run (s : Mappings) : MapOp → Mappings
  | add o ptr info => (o.addMapping s ptr info).1
  | remove o ptr choice => (o.removeMapping s ptr choice).1

/-- A mapping that passes the first tests of `addMapping`, and conflicts without being seen. -/
def AddsUnseen (s : Mappings) : MapOp → Prop
  | add o ptr info =>
    ptr ≠ 0 ∧ info.flags ≠ 0 ∧ Unseen (s o.main) ptr (o.translated info) (o.mappedRegion info)
  | remove _ _ _ => False

def AllExclusive (s : Mappings) : Prop := ∀ o, Exclusive (s o)

theorem update_exclusive {s : Mappings} (hs : AllExclusive s) (o : MemoryObject) (records : List Mapping) :
    AllExclusive (Function.update s o records) ↔ Exclusive records := by
  constructor
  · intro h
    simpa using h o
  · intro h o'
    by_cases heq : o' = o
    · rw [heq, Function.update_self]
      exact h
    · rw [Function.update_of_ne heq]
      exact hs o'

theorem run_exclusive {s : Mappings} (op : MapOp) (hs : AllExclusive s) :
    AllExclusive (run s op) ↔ ¬ AddsUnseen s op := by
  cases op with
  | add o ptr info =>
    rw [run, MemoryObject.addMapping_eq, update_exclusive hs, MemoryObject.addTo, AddsUnseen]
    split
    · next hzero =>
      refine iff_of_true (hs o.main) ?_
      rintro ⟨hp, hf, -⟩
      exact hzero.elim hp hf
    · next hzero =>
      rw [addOwn_exclusive (hs o.main)]
      rw [not_or] at hzero
      exact not_congr ⟨fun h => ⟨hzero.1, hzero.2, h⟩, fun h => h.2.2⟩
  | remove o ptr choice =>
    rw [run, MemoryObject.removeMapping_eq, update_exclusive hs]
    exact iff_of_true ((hs o.main).sublist (removeOwn_sublist _ _ _)) not_false

/-- Live mappings with one for writing have nothing in common, all along a run in which no mapping
is added that conflicts with a live one unseen by the tests. -/
theorem mappings_exclusive_iff (ops : List MapOp) :
    (∀ done, done <+: ops → AllExclusive (done.foldl run fun _ => [])) ↔
      ∀ done op, done ++ [op] <+: ops → ¬ AddsUnseen (done.foldl run fun _ => []) op :=
  prefixes_iff run (I := fun _ => True) trivial (fun _ => List.Pairwise.nil) (fun _ _ _ => trivial)
    (fun _ op _ hs => run_exclusive op hs) ops

/-- Bytes 0 to 8 of a buffer. -/
def eight (flags : CLMapFlags) : MemMappingInfo := ⟨fun _ => 0, fun d => if d = 0 then 8 else 1, flags⟩

/-- A mapping to read over a mapping to write. -/
theorem read_over_write :
    ¬ ∀ ops : List MapOp, ∀ done, done <+: ops → AllExclusive (done.foldl run fun _ => []) := by
  intro hall
  have hex := hall [.add (.buffer (.main sixteen)) 1 (eight .CL_MAP_WRITE),
    .add (.buffer (.main sixteen)) 1 (eight .CL_MAP_READ)] _ (List.prefix_refl _) (.buffer (.main sixteen))
  revert hex
  unfold Exclusive Conflict
  decide

end MapOp

end OpenCRun
