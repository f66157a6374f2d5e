import OpenCRun.Device.KernelArguments
/-!
# The layout of local memory

A thread hands its local memory out for each work-group anew: to the automatic
locals first, then to the local buffers in turn. Nothing is left between two
areas, and only assertions look at the size.
-/
open Lib

namespace OpenCRun.KernelArgs.Stub

/-- The alignment of an OpenCL type: scalars and vectors have their size, up to that of a `long16`, and a
record has that of one of its members. -/
structure Alignment where
  log : Fin 8
  deriving DecidableEq, Repr

def Alignment.bytes (a : Alignment) : Nat := 2 ^ a.log.val

theorem Alignment.bytes_dvd (a : Alignment) : a.bytes ∣ 128 :=
  Nat.pow_dvd_pow 2 (Nat.le_of_lt_succ a.log.isLt)

/-- The local memory of a thread and the address where it begins, which is that of a page. -/
structure ThreadMemory extends LocalMemory where
  base : Nat
  page : 4096 ∣ base

/-- An area of the local memory, for the parameter of a kernel. -/
structure Area where
  index : Nat
  offset : Nat
  size : Nat
  deriving DecidableEq, Repr

def Pointer.offset : Pointer → Nat
  | localMemory offset => offset
  | _ => 0

/-- What `Alloc` gives, one after the other. -/
def handOut : List (Nat × Nat) → LocalMemory → Checked (List Area)
  | [], _ => pure []
  | p :: locals, lm => do
    let (addr, lm) ← lm.alloc p.2
    let areas ← handOut locals lm
    pure (⟨p.1, addr.offset, p.2⟩ :: areas)

namespace CPUKernelArguments

/-- The areas of the local buffers of one work-group. -/
def areas (a : CPUKernelArguments) (m : ThreadMemory) : List Area :=
  (handOut a.localBuffers (m.reset a.autoLocalsSize).val).val

/-- No assertion fails; the automatic locals and the areas are apart and inside the memory, and each area is
aligned for what its parameter points to. -/
structure LaidOut (alignOf : Nat → Alignment) (a : CPUKernelArguments) (m : ThreadMemory) : Prop where
  asserts : (a.prepareArgumentsBuffer m.toLocalMemory).ok = true
  automatic : a.autoLocalsSize ≤ m.size
  inside : ∀ area ∈ a.areas m, area.offset + area.size ≤ m.size
  after : ∀ area ∈ a.areas m, a.autoLocalsSize ≤ area.offset
  disjoint : (a.areas m).Pairwise fun area area' =>
    area.offset + area.size ≤ area'.offset ∨ area'.offset + area'.size ≤ area.offset
  aligned : ∀ area ∈ a.areas m, (alignOf area.index).bytes ∣ m.base + area.offset

/-- The sizes fit the memory together, and what comes before a local buffer ends where its type is aligned. -/
structure Fits (alignOf : Nat → Alignment) (a : CPUKernelArguments) (m : ThreadMemory) : Prop where
  room : a.autoLocalsSize + (a.localBuffers.map Prod.snd).sum ≤ m.size
  aligned : ∀ before p after, a.localBuffers = before ++ p :: after →
    (alignOf p.1).bytes ∣ a.autoLocalsSize + (before.map Prod.snd).sum

end CPUKernelArguments

/-! ## Areas one after the other -/

/-- Areas without a gap. -/
def areasFrom : Nat → List (Nat × Nat) → List Area
  | _, [] => []
  | next, p :: locals => ⟨p.1, next, p.2⟩ :: areasFrom (next + p.2) locals

theorem mem_areasFrom {next : Nat} {locals : List (Nat × Nat)} {area : Area} :
    area ∈ areasFrom next locals ↔ ∃ before p after, locals = before ++ p :: after ∧
      area = ⟨p.1, next + (before.map Prod.snd).sum, p.2⟩ := by
  induction locals generalizing next with
  | nil =>
    refine iff_of_false List.not_mem_nil ?_
    rintro ⟨before, p, after, h, -⟩
    cases before <;> cases h
  | cons q locals ih =>
    unfold areasFrom
    rw [List.mem_cons, ih]
    constructor
    · rintro (rfl | ⟨before, p, after, rfl, rfl⟩)
      · exact ⟨[], q, locals, rfl, rfl⟩
      · refine ⟨q :: before, p, after, rfl, ?_⟩
        rw [List.map_cons, List.sum_cons, Nat.add_assoc]
    · rintro ⟨before, p, after, h, rfl⟩
      cases before with
      | nil =>
        cases h
        exact .inl rfl
      | cons r before =>
        cases h
        refine .inr ⟨before, p, after, rfl, ?_⟩
        rw [List.map_cons, List.sum_cons, Nat.add_assoc]

/-- An area ends before the sizes of all do. -/
theorem areasFrom_bounds {next : Nat} {locals : List (Nat × Nat)} {area : Area} (h : area ∈ areasFrom next locals) :
    next ≤ area.offset ∧ area.offset + area.size ≤ next + (locals.map Prod.snd).sum := by
  obtain ⟨before, p, after, rfl, rfl⟩ := mem_areasFrom.1 h
  simp only [List.map_append, List.map_cons, List.sum_append, List.sum_cons]
  omega

theorem areasFrom_disjoint (next : Nat) (locals : List (Nat × Nat)) :
    (areasFrom next locals).Pairwise fun area area' =>
      area.offset + area.size ≤ area'.offset ∨ area'.offset + area'.size ≤ area.offset := by
  induction locals generalizing next with
  | nil => exact List.Pairwise.nil
  | cons p locals ih =>
    unfold areasFrom
    refine List.Pairwise.cons ?_ (ih _)
    intro area harea
    exact .inl (areasFrom_bounds harea).1

section HandOut
variable {lm : LocalMemory} {locals : List (Nat × Nat)}

/-- The sum does not wrap around where the area fits. -/
theorem alloc_next {size : Nat} (h : lm.next + size ≤ lm.size) : (lm.alloc size).val.2.next = lm.next + size :=
  Nat.mod_eq_of_lt (h.trans_lt lm.size_lt)

theorem handOut_cons_val (p : Nat × Nat) (locals : List (Nat × Nat)) (lm : LocalMemory) :
    (handOut (p :: locals) lm).val = ⟨p.1, lm.next, p.2⟩ :: (handOut locals (lm.alloc p.2).val.2).val := rfl

theorem handOut_cons_ok (p : Nat × Nat) (locals : List (Nat × Nat)) (lm : LocalMemory) :
    (handOut (p :: locals) lm).ok = ((lm.alloc p.2).ok && (handOut locals (lm.alloc p.2).val.2).ok) := by
  change ((lm.alloc p.2).ok && ((handOut locals (lm.alloc p.2).val.2).ok && true)) = _
  rw [Bool.and_true]

theorem handOut_eq (h : lm.next + (locals.map Prod.snd).sum ≤ lm.size) :
    handOut locals lm = pure (areasFrom lm.next locals) := by
  induction locals generalizing lm with
  | nil => rfl
  | cons p locals ih =>
    rw [List.map_cons, List.sum_cons] at h
    have hnext : (lm.alloc p.2).val.2.next = lm.next + p.2 := alloc_next (by omega)
    have hok : (lm.alloc p.2).ok = true := by
      unfold LocalMemory.alloc
      rw [Checked.ok_bind, Checked.ok_check, Checked.ok_pure, Bool.and_true, decide_eq_true_eq]
      rw [Nat.mod_eq_of_lt (Nat.lt_of_le_of_lt (by omega) lm.size_lt)]
      omega
    have hrest := ih (by rw [hnext]; exact le_of_eq_of_le (by omega) h)
    rw [hnext] at hrest
    refine Checked.ext ?_ ?_
    · rw [handOut_cons_val, hrest]
      rfl
    · rw [handOut_cons_ok, hok, hrest]
      rfl

/-- Areas that are inside the memory leave room for each other. -/
theorem room_of_inside (hnext : lm.next ≤ lm.size)
    (h : ∀ area ∈ (handOut locals lm).val, area.offset + area.size ≤ lm.size) :
    lm.next + (locals.map Prod.snd).sum ≤ lm.size := by
  induction locals generalizing lm with
  | nil => exact hnext
  | cons p locals ih =>
    have hhead : lm.next + p.2 ≤ lm.size := h ⟨p.1, lm.next, p.2⟩ (List.mem_cons_self ..)
    have hnext' := alloc_next hhead
    have htail := ih (hnext'.le.trans hhead) fun area harea =>
      h area (List.mem_cons_of_mem _ harea)
    rw [hnext'] at htail
    rw [List.map_cons, List.sum_cons, ← Nat.add_assoc]
    exact htail

end HandOut

/-! ## The areas in the arguments buffer -/

/-- The loop over the local buffers fails where the areas do not fit. -/
theorem placeLocals_ok (locals : List (Nat × Nat)) (s : List Pointer × LocalMemory) :
    (placeLocals locals s).ok = (handOut locals s.2).ok := by
  induction locals generalizing s with
  | nil => rfl
  | cons p locals ih =>
    rw [placeLocals_cons, Checked.ok_bind, ih, handOut_cons_ok]
    unfold placeLocal
    rw [Checked.ok_bind, Checked.ok_pure, Bool.and_true]
    rfl

/-- The loop puts each area in its place. -/
theorem placeLocals_area {locals : List (Nat × Nat)} (hnodup : (locals.map Prod.fst).Nodup)
    {s : List Pointer × LocalMemory} (hlt : ∀ p ∈ locals, p.1 < s.1.length) {area : Area}
    (h : area ∈ (handOut locals s.2).val) :
    (placeLocals locals s).val.1[area.index]? = some (.localMemory area.offset) := by
  induction locals generalizing s with
  | nil => cases h
  | cons p locals ih =>
    rw [List.map_cons, List.nodup_cons] at hnodup
    rw [handOut_cons_val] at h
    rw [placeLocals_cons, Checked.val_bind]
    rcases List.mem_cons.1 h with rfl | h
    · exact placeLocals_head hnodup.1 (hlt p (List.mem_cons_self ..))
    · refine ih hnodup.2 ?_ h
      intro q hq
      exact (hlt q (List.mem_cons_of_mem _ hq)).trans_eq (List.length_set ..).symm

theorem prepareArgumentsBuffer_ok (a : CPUKernelArguments) (lm : LocalMemory) :
    (a.prepareArgumentsBuffer lm).ok =
      (decide (a.autoLocalsSize ≤ lm.size) && (handOut a.localBuffers (lm.reset a.autoLocalsSize).val).ok) := by
  unfold CPUKernelArguments.prepareArgumentsBuffer
  simp only [Checked.ok_bind, Checked.ok_pure, Bool.and_true, LocalMemory.reset_ok]
  rw [← placeLocals_ok _ (_, (lm.reset a.autoLocalsSize).val)]
  rfl

theorem handOut_mem {locals : List (Nat × Nat)} {lm : LocalMemory} {area : Area} (h : area ∈ (handOut locals lm).val) :
    (area.index, area.size) ∈ locals := by
  induction locals generalizing lm with
  | nil => cases h
  | cons p locals ih =>
    rw [handOut_cons_val] at h
    rcases List.mem_cons.1 h with rfl | h
    · exact List.mem_cons_self ..
    · exact List.mem_cons_of_mem _ (ih h)

/-- What a kernel is called with for its local buffers are the areas that its work-group is handed out. -/
theorem areas_passed {samplerOf : Nat → Sampler} {kern : Kernel} {fn : Function} (h : Complete kern fn)
    (m : ThreadMemory) {area : Area}
    (harea : area ∈ (createKernelArguments samplerOf kern fn.automaticLocalsSize).areas m) :
    (callKernel samplerOf kern fn m.toLocalMemory).val[area.index]? = some (some (.pointer (.localMemory area.offset))) := by
  obtain ⟨-, hals, hlocals, -⟩ := createKernelArguments_spec samplerOf h fn.automaticLocalsSize
  unfold CPUKernelArguments.areas at harea
  rw [hals, hlocals] at harea
  have hplaced := placeLocals_area (s := placing samplerOf kern fn m.toLocalMemory) (localBuffers_nodup h.indexed)
    (local_lt samplerOf m.toLocalMemory h) harea
  have hmem : (area.index, area.size) ∈ kern.arguments.filterMap localBuffer := handOut_mem harea
  rw [call_local h ((mem_localBuffers h.indexed).1 hmem), placed, offsetAt_of hplaced]

/-! ## When the layout is right -/

section

variable {alignOf : Nat → Alignment} {a : CPUKernelArguments} {m : ThreadMemory}

/-- The memory begins where every type is aligned. -/
theorem ThreadMemory.aligned_iff (al : Alignment) (m : ThreadMemory) (offset : Nat) :
    al.bytes ∣ m.base + offset ↔ al.bytes ∣ offset :=
  Nat.dvd_add_right (al.bytes_dvd.trans ((by decide : 128 ∣ 4096).trans m.page))

theorem ThreadMemory.reset_next (h : a.autoLocalsSize ≤ m.size) :
    (m.reset a.autoLocalsSize).val.next = a.autoLocalsSize :=
  Nat.mod_eq_of_lt (h.trans_lt m.size_lt)

/-- With room for all of them, the areas follow each other. -/
theorem CPUKernelArguments.handOut_room (hroom : a.autoLocalsSize + (a.localBuffers.map Prod.snd).sum ≤ m.size) :
    handOut a.localBuffers (m.reset a.autoLocalsSize).val = pure (areasFrom a.autoLocalsSize a.localBuffers) := by
  have hnext := ThreadMemory.reset_next ((Nat.le_add_right _ _).trans hroom)
  have hfit : (m.reset a.autoLocalsSize).val.next + (a.localBuffers.map Prod.snd).sum ≤ m.size := by
    rw [hnext]
    exact hroom
  have heq := handOut_eq hfit
  rw [hnext] at heq
  exact heq

theorem CPUKernelArguments.areas_eq (hroom : a.autoLocalsSize + (a.localBuffers.map Prod.snd).sum ≤ m.size) :
    a.areas m = areasFrom a.autoLocalsSize a.localBuffers := by
  unfold areas
  rw [handOut_room hroom]
  rfl

theorem CPUKernelArguments.LaidOut.room (h : a.LaidOut alignOf m) :
    a.autoLocalsSize + (a.localBuffers.map Prod.snd).sum ≤ m.size := by
  have hnext := ThreadMemory.reset_next h.automatic
  have hroom := room_of_inside (hnext.le.trans h.automatic) h.inside
  rwa [hnext] at hroom

end

/-- The layout is right if and only if the sizes fit the memory together, and each local buffer begins where
its type is aligned: nothing makes it so. -/
theorem CPUKernelArguments.laidOut_iff (alignOf : Nat → Alignment) (a : CPUKernelArguments) (m : ThreadMemory) :
    a.LaidOut alignOf m ↔ a.Fits alignOf m := by
  constructor
  · intro h
    refine ⟨h.room, ?_⟩
    intro before p after hsplit
    have hmem : ⟨p.1, a.autoLocalsSize + (before.map Prod.snd).sum, p.2⟩ ∈ a.areas m := by
      rw [areas_eq h.room]
      exact mem_areasFrom.2 ⟨before, p, after, hsplit, rfl⟩
    exact (m.aligned_iff _ _).1 (h.aligned _ hmem)
  · rintro ⟨hroom, haligned⟩
    have hautomatic : a.autoLocalsSize ≤ m.size := (Nat.le_add_right _ _).trans hroom
    have hareas := areas_eq hroom
    refine ⟨?_, hautomatic, ?_, ?_, ?_, ?_⟩
    · rw [prepareArgumentsBuffer_ok, handOut_room hroom, decide_eq_true hautomatic]
      rfl
    · intro area harea
      rw [hareas] at harea
      exact (areasFrom_bounds harea).2.trans hroom
    · intro area harea
      rw [hareas] at harea
      exact (areasFrom_bounds harea).1
    · rw [hareas]
      exact areasFrom_disjoint _ _
    · intro area harea
      rw [hareas] at harea
      obtain ⟨before, p, after, hsplit, rfl⟩ := mem_areasFrom.1 harea
      exact (m.aligned_iff _ _).2 (haligned before p after hsplit)

/-- `mark(local char *c, local int *n)`, with one byte and four. -/
def mark : Kernel where
  isBuiltForDevice := true
  context := 0
  requiredWorkGroupSizes := none
  signature := [.pointer .localSpace, .pointer .localSpace]
  paramTypes := [.other 8, .other 8]
  arguments := [.localBufferArg 0 1, .localBufferArg 1 4]

/-- The `int` begins one byte after the page. -/
theorem mark_unaligned :
    ¬ (createKernelArguments (fun _ => ⟨false, .addressNone, .filterNearest⟩) mark 0).LaidOut
      (fun i => if i = 0 then ⟨0⟩ else ⟨2⟩) ⟨memory, 4096, dvd_refl _⟩ := by
  intro h
  have hint := h.aligned ⟨1, 1, 4⟩ (by decide)
  revert hint
  decide

end OpenCRun.KernelArgs.Stub
