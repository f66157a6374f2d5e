import OpenCRun.Device.BlockParallel
/-!
# The global ids of a launch

What the work-item functions of `WorkItemInternalCalls.cpp` return over all the
work-items of a launch, which may start at other offsets than zero.
-/
open Lib Lib.MixedRadix Lib.Loop

namespace OpenCRun.GlobalIds

open DimensionInfo CPUDevice EnqueueNDRangeKernelBuilder

variable {di : DimensionInfo}

/-- All the work-items of the blocks of a launch. -/
def Executed (di : DimensionInfo) (its : List DimensionInfoIterator) : Prop :=
  ∃ (groups : List DimensionInfoIterator) (blocks : List (List DimensionInfoIterator)),
    (∀ fuel > groups.length, di.workGroupLoop fuel = some (groups, true)) ∧
    List.Forall₂ (fun g items => ∀ fuel > items.length, di.workItemLoop g fuel = some (items, true)) groups blocks ∧
    its = blocks.flatten

/-- The points that a launch should have. -/
def InBox (di : DimensionInfo) (ids : List Nat) : Prop :=
  List.Forall₂ (fun id w => w.offset ≤ id ∧ id < w.offset + w.globalSize) ids di.info

/-- The work-items have the points of the box for their global ids, each once, and the functions agree. -/
structure Right (di : DimensionInfo) (its : List DimensionInfoIterator) : Prop where
  nodup : (its.map di.globalIds).Nodup
  box : ∀ ids, ids ∈ its.map di.globalIds ↔ InBox di ids
  sum : ∀ it ∈ its, ∀ i < di.getDimensions, di.getGlobalId it i =
    di.getGlobalOffsetAt i + di.getWorkGroupAt it i * di.getLocalWorkItemsAt i + di.getLocalId it i

/-- The work-items are the positions, in order. -/
theorem executed_iff (h : di.Divided) {its : List DimensionInfoIterator} :
    Executed di its ↔ its = (List.range di.globalSizes.prod).map di.iterAt := by
  constructor
  · rintro ⟨groups, blocks, hloop, hblocks, rfl⟩
    -- With more fuel than the loop needs, the groups are the ones it makes.
    have hgroups : di.groupCounts.prod < max groups.length di.groupCounts.prod + 1 := by omega
    have hrun := h.workGroupLoop_eq hgroups
    rw [hloop _ (by omega)] at hrun
    obtain rfl : groups = di.groups := (Prod.mk.inj (Option.some.inj hrun)).1
    rw [DimensionInfo.groups, List.forall₂_map_left_iff] at hblocks
    have hbelow := (List.forall₂_and_left _ _).2 ⟨fun g hg => List.mem_range.1 hg, hblocks⟩
    have hitems : List.Forall₂ (fun g items => di.items g = items) (List.range di.groupCounts.prod) blocks := by
      refine hbelow.imp fun g items hboth => ?_
      obtain ⟨hg, hinner⟩ := hboth
      have hitems : di.localSizes.prod < max items.length di.localSizes.prod + 1 := by omega
      have hrun := h.workItemLoop_eq hg hitems
      rw [hinner _ (by omega)] at hrun
      exact (Prod.mk.inj (Option.some.inj hrun)).1.symm
    have hmap : (List.range di.groupCounts.prod).map di.items = blocks :=
      List.forall₂_eq_eq_eq ▸ List.forall₂_map_left_iff.2 hitems
    rw [← h.flatMap_items, List.flatMap_def, hmap]
  · rintro rfl
    refine ⟨di.groups, (List.range di.groupCounts.prod).map di.items, fun fuel hf => ?_, ?_, ?_⟩
    · apply h.workGroupLoop_eq
      simpa [DimensionInfo.groups] using hf
    · rw [DimensionInfo.groups, List.forall₂_map_left_iff, List.forall₂_map_right_iff, List.forall₂_same]
      intro g hg fuel hf
      apply h.workItemLoop_eq (List.mem_range.1 hg)
      simpa [items] using hf
    · rw [← h.flatMap_items, List.flatMap_def]

theorem box_of_zero {l : List InfoWrapper} (hzero : ∀ w ∈ l, w.offset = 0) {ids : List Nat} :
    List.Forall₂ (fun id w => w.offset ≤ id ∧ id < w.offset + w.globalSize) ids l ↔
      List.Forall₂ (fun id w => id < w.globalSize) ids l := by
  induction l generalizing ids with
  | nil => rw [List.forall₂_nil_right_iff, List.forall₂_nil_right_iff]
  | cons w l ih =>
    rw [List.forall_mem_cons] at hzero
    cases ids with
    | nil => exact iff_of_false nofun nofun
    | cons id ids =>
      rw [List.forall₂_cons, List.forall₂_cons, ih hzero.2, hzero.1, Nat.zero_add]
      exact and_congr_left fun _ => and_iff_right (Nat.zero_le id)

theorem inBox_iff (hzero : ∀ w ∈ di.info, w.offset = 0) {ids : List Nat} : InBox di ids ↔ Valid di.globalSizes ids := by
  rw [InBox, Valid, globalSizes, List.forall₂_map_right_iff]
  exact box_of_zero hzero

/-- The first work-item of all has the global id zero in each dimension. -/
theorem globalIds_first (h : di.Divided) : di.globalIds (di.iterAt 0) = List.replicate di.info.length 0 := by
  refine List.eq_replicate_iff.2 ⟨by simp [globalIds, getDimensions], fun id hid => ?_⟩
  obtain ⟨i, hi, rfl⟩ := List.mem_map.1 hid
  have hi' : i < di.info.length := List.mem_range.1 hi
  rw [h.getGlobalId_eq hi' (h.iterAt_valid 0)]
  simp [iterAt, hi']

theorem total_pos (h : di.Divided) : 0 < di.globalSizes.prod := by
  rw [← prod_groupCounts h.dvd]
  exact Nat.mul_pos h.localProd_pos h.groupProd_pos

theorem right_iff (h : di.Divided) : (∃ its, Executed di its ∧ Right di its) ↔ ∀ w ∈ di.info, w.offset = 0 := by
  constructor
  · rintro ⟨its, hexecuted, hright⟩ w hw
    obtain rfl := (executed_iff h).1 hexecuted
    have hfirst : di.iterAt 0 ∈ (List.range di.globalSizes.prod).map di.iterAt :=
      List.mem_map_of_mem (List.mem_range.2 (total_pos h))
    have hbox := (hright.box _).1 (List.mem_map_of_mem hfirst)
    rw [globalIds_first h] at hbox
    -- zero is in the box, so no offset is above it
    obtain ⟨i, hi, rfl⟩ := List.mem_iff_getElem.1 hw
    have hle := ((List.forall₂_iff_get.1 hbox).2 i (by simpa using hi) hi).1
    simpa using hle
  · intro hzero
    refine ⟨_, (executed_iff h).2 rfl, h.globalIds_nodup, fun ids => ?_, fun it hit i hi => ?_⟩
    · rw [h.mem_globalIds, inBox_iff hzero]
    · have hoffset : di.getGlobalOffsetAt i = 0 := by
        have hlt : i < di.info.length := hi
        rw [getGlobalOffsetAt, List.getElem?_eq_getElem hlt]
        exact congrArg toUnsigned (hzero _ (List.getElem_mem hlt))
      rw [hoffset, Nat.zero_add]
      exact h.getGlobalId_ids hi (h.mem_positions.1 hit)

theorem offsets_zero_iff {workDim : Nat} {globalWorkOffset : Option (Nat → Nat)} :
    (∀ o ∈ givenOffsets workDim globalWorkOffset, o = 0) ↔ ∀ os, globalWorkOffset = some os → ∀ i < workDim, os i = 0 := by
  cases globalWorkOffset with
  | none => exact iff_of_true (fun o ho => (List.mem_replicate.1 ho).2) nofun
  | some os => simp [givenOffsets]

/-- The global ids of an accepted launch leave its offsets out. -/
theorem global_ids_right_iff {ctx : Nat} {kern : Option Kernel} {workDim : Nat}
    {globalWorkOffset globalWorkSize localWorkSize : Option (Nat → Nat)} {numEvents : Nat}
    {eventWaitList : Option (Nat → Option Nat)} {cmd : EnqueueNDRangeKernel}
    (hok : (clEnqueueNDRangeKernel ctx cpuDevice kern workDim globalWorkOffset globalWorkSize localWorkSize numEvents
      eventWaitList).ok = true)
    (h : (clEnqueueNDRangeKernel ctx cpuDevice kern workDim globalWorkOffset globalWorkSize localWorkSize numEvents
      eventWaitList).val = .ok cmd) :
    (∃ its, Executed cmd.dimInfo its ∧ Right cmd.dimInfo its) ↔
      ∀ os, globalWorkOffset = some os → ∀ i < workDim, os i = 0 := by
  obtain ⟨b, gs, hbuilt, hcmd⟩ := accepted_built hok h
  have hsizes : (∀ g ∈ b.globalWorkSizes, 0 < g) := by
    intro g hg
    rw [hbuilt.sizes] at hg
    obtain ⟨i, hi, rfl⟩ := List.mem_map.1 hg
    exact (hbuilt.fit i (List.mem_range.1 hi)).1
  have hlocals : b.localWorkSizes.length = b.globalWorkSizes.length :=
    (partitioned_spec hsizes (hbuilt.sizes ▸ hbuilt.partitioned)).1
  have hoffsets : b.globalWorkOffsets.length = b.globalWorkSizes.length := by
    rw [hbuilt.offsets, hbuilt.sizes]
    cases globalWorkOffset <;> simp [givenOffsets]
  rw [right_iff (accepted_divided hok h), ← offsets_zero_iff, ← hbuilt.offsets, ← new_offsets hoffsets hlocals, ← hcmd]
  rw [List.forall_mem_map]

/-- A launch of eight work-items in two work-groups, without and with an offset. -/
def line (globalWorkOffset : Option (Nat → Nat)) : Checked (Except ErrCode EnqueueNDRangeKernel) :=
  clEnqueueNDRangeKernel 0 cpuDevice (some BlockParallel.kernel) 1 globalWorkOffset (some fun _ => 8) (some fun _ => 4) 0 none

theorem line_right : ∃ cmd its, (line none).val = .ok cmd ∧ Executed cmd.dimInfo its ∧ Right cmd.dimInfo its := by
  have hok : (line none).ok = true := by decide
  obtain ⟨its, hright⟩ := (global_ids_right_iff hok rfl).2 nofun
  exact ⟨_, its, rfl, hright⟩

/-- From 100 on, the first work-item still has the global id 0. -/
theorem line_with_offset : ∃ cmd, (line (some fun _ => 100)).ok = true ∧ (line (some fun _ => 100)).val = .ok cmd ∧
    cmd.dimInfo.getGlobalOffsetAt 0 = 100 ∧ cmd.dimInfo.getGlobalId cmd.dimInfo.beginIter 0 = 0 ∧
    ¬ ∃ its, Executed cmd.dimInfo its ∧ Right cmd.dimInfo its := by
  have hok : (line (some fun _ => 100)).ok = true := by decide
  refine ⟨_, hok, rfl, by decide, by decide, fun hright => ?_⟩
  exact absurd ((right_iff (accepted_divided hok rfl)).1 hright _ List.mem_cons_self) (by decide)

end OpenCRun.GlobalIds
