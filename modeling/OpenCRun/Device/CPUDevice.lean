import Mathlib.Algebra.Order.BigOperators.Group.List
import OpenCRun.Core.NDRangeBuilder
import OpenCRun.Util.Iteration
/-!
# The CPU device and launches on it

The sizes of `CPUDevice.cpp`, and its choice of local sizes. Whatever launch
is accepted on the device has sizes that its iteration can count with.
-/
open Lib

namespace OpenCRun.CPUDevice

def presets : List (List Nat) := [[1024, 0, 0], [32, 32, 0], [16, 8, 8]]

/-- The local size of a dimension. -/
def localSize (preset dim : Nat) : Nat := if preset < dim then Nat.gcd dim preset else dim

/-- The loop of `ComputeGlobalWorkPartition`; the table has three rows of three. -/
def partitionLoop (gw : List Nat) : List Nat → List Nat → Checked (List Nat)
  | [], lw => pure lw
  | i :: is, lw => do
    Checked.check (decide (gw.length < 3) && decide (i < 3))
    partitionLoop gw is (lw ++ [localSize ((presets.getD gw.length []).getD i 0) (gw.getD i 0)])

def computeGlobalWorkPartition (gw lw : List Nat) : Checked (List Nat × Bool) := do
  let lw ← partitionLoop gw (List.range gw.length) lw
  pure (lw, true)

def cpuDevice : Device where
  maxWorkItemDimensions := 3
  maxWorkItemSizes := [1024, 1024, 1024]
  maxWorkGroupSize := 1024
  sizeTypeMax := 2 ^ 32 - 1
  computeGlobalWorkPartition := computeGlobalWorkPartition

/-! ## Its choice of local sizes -/

theorem localSize_pos {preset dim : Nat} (h : 0 < dim) : 0 < localSize preset dim := by
  unfold localSize
  split
  · exact Nat.gcd_pos_of_pos_left _ h
  · exact h

theorem localSize_dvd (preset dim : Nat) : localSize preset dim ∣ dim := by
  unfold localSize
  split
  · exact Nat.gcd_dvd_left dim preset
  · exact dvd_rfl

theorem localSize_le {preset dim : Nat} (h : 0 < preset) : localSize preset dim ≤ preset := by
  unfold localSize
  split
  · exact Nat.gcd_le_right dim h
  · omega

theorem partitionLoop_val (gw is lw : List Nat) : (partitionLoop gw is lw).val =
    lw ++ is.map fun i => localSize ((presets.getD gw.length []).getD i 0) (gw.getD i 0) := by
  induction is generalizing lw with
  | nil => simp [partitionLoop]
  | cons i is ih => simp [partitionLoop, ih]

theorem partitionLoop_ok {gw is lw : List Nat} (h : (partitionLoop gw is lw).ok = true) (hne : is ≠ []) :
    gw.length < 3 := by
  cases is with
  | nil => exact absurd rfl hne
  | cons i is =>
    simp only [partitionLoop, Checked.ok_bind, Checked.ok_check, Bool.and_eq_true, decide_eq_true_eq] at h
    exact h.1.1

/-- Within the table, and below its diagonal, the sizes are positive and at most 1024. -/
theorem preset_le {n i : Nat} (hn : n = 1 ∨ n = 2) (hi : i < n) :
    0 < (presets.getD n []).getD i 0 ∧ (presets.getD n []).getD i 0 ≤ 1024 := by
  rcases hn with rfl | rfl
  · obtain rfl : i = 0 := by omega
    decide
  · obtain rfl | rfl : i = 0 ∨ i = 1 := by omega
    · decide
    · decide

/-- Local sizes for all dimensions, within the limits of the device. -/
structure IsPartition (sizes ls : List Nat) : Prop where
  length : ls.length = sizes.length
  dvd : ∀ i < sizes.length, ls.getD i 0 ∣ sizes.getD i 0
  pos : ∀ i < sizes.length, 1 ≤ ls.getD i 0
  le : ∀ i < sizes.length, ls.getD i 0 ≤ cpuDevice.maxWorkItemSizes.getD i 0
  prod_le : ls.prod ≤ cpuDevice.maxWorkGroupSize

/-- The table is read within its bounds, and what comes of it is a partition. -/
def PartitionsRightly (sizes : List Nat) : Prop :=
  (computeGlobalWorkPartition sizes []).ok = true ∧
    ∃ ls, (computeGlobalWorkPartition sizes []).val = (ls, true) ∧ IsPartition sizes ls

theorem isPartition_one {a : Nat} (ha : 0 < a) : IsPartition [a] [localSize 32 a] := by
  have hle : localSize 32 a ≤ 32 := localSize_le (by decide)
  refine ⟨rfl, fun i hi => ?_, fun i hi => ?_, fun i hi => ?_, ?_⟩
  · obtain rfl : i = 0 := Nat.lt_one_iff.1 hi
    exact localSize_dvd 32 a
  · obtain rfl : i = 0 := Nat.lt_one_iff.1 hi
    exact localSize_pos ha
  · obtain rfl : i = 0 := Nat.lt_one_iff.1 hi
    exact hle.trans (by decide)
  · rw [List.prod_singleton]
    exact hle.trans (by decide)

theorem isPartition_two {a b : Nat} (ha : 0 < a) (hb : 0 < b) : IsPartition [a, b] [localSize 16 a, localSize 8 b] := by
  have hle16 : localSize 16 a ≤ 16 := localSize_le (by decide)
  have hle8 : localSize 8 b ≤ 8 := localSize_le (by decide)
  have hcases : ∀ i < [a, b].length, i = 0 ∨ i = 1 := fun i hi => by
    have hlt : i < 2 := hi
    omega
  refine ⟨rfl, fun i hi => ?_, fun i hi => ?_, fun i hi => ?_, ?_⟩
  · rcases hcases i hi with rfl | rfl
    · exact localSize_dvd 16 a
    · exact localSize_dvd 8 b
  · rcases hcases i hi with rfl | rfl
    · exact localSize_pos ha
    · exact localSize_pos hb
  · rcases hcases i hi with rfl | rfl
    · exact hle16.trans (by decide)
    · exact hle8.trans (by decide)
  · calc [localSize 16 a, localSize 8 b].prod = localSize 16 a * localSize 8 b := by simp
      _ ≤ 16 * 8 := Nat.mul_le_mul hle16 hle8
      _ ≤ cpuDevice.maxWorkGroupSize := by decide

theorem isPartition_of_lt {sizes : List Nat} (hdims : sizes.length < 3) (hne : sizes ≠ []) (hpos : ∀ g ∈ sizes, 0 < g) :
    PartitionsRightly sizes := by
  match sizes with
  | [] => exact absurd rfl hne
  | [a] => exact ⟨rfl, _, rfl, isPartition_one (hpos a (by simp))⟩
  | [a, b] => exact ⟨rfl, _, rfl, isPartition_two (hpos a (by simp)) (hpos b (by simp))⟩
  | _ :: _ :: _ :: _ =>
    simp only [List.length_cons] at hdims
    omega

/-- The table has a row for each number of dimensions up to three, but the row is picked by the number itself, and so
there is none for three. -/
theorem partition_table_iff {sizes : List Nat} (hdims : 1 ≤ sizes.length ∧ sizes.length ≤ 3)
    (hpos : ∀ g ∈ sizes, 0 < g) : PartitionsRightly sizes ↔ sizes.length ≠ 3 := by
  constructor
  · rintro ⟨hok, -⟩ hthree
    simp only [computeGlobalWorkPartition, Checked.ok_bind, Checked.ok_pure, Bool.and_true] at hok
    have hlt := partitionLoop_ok hok (by rw [ne_eq, List.range_eq_nil]; omega)
    omega
  · intro hne
    exact isPartition_of_lt (by omega) (List.ne_nil_of_length_pos hdims.1) hpos

theorem partitions_rightly_plane : PartitionsRightly [100, 7] :=
  (partition_table_iff (by decide) (by decide)).2 (by decide)

/-- The row for three dimensions would be the fourth. -/
theorem partition_of_cube : ¬ PartitionsRightly [64, 64, 64] := by
  rintro ⟨hok, -⟩
  cases hok

/-! ## Accepted launches -/

theorem maxWorkItemSizes_le (i : Nat) : cpuDevice.maxWorkItemSizes.getD i 0 ≤ 1024 := by
  match i with
  | 0 | 1 | 2 => exact le_rfl
  | i + 3 => exact Nat.zero_le _

open EnqueueNDRangeKernelBuilder in
/-- However they were chosen, the local sizes divide the global ones and are at most 1024. -/
theorem partitioned_spec {sizes ls : List Nat} (hpos : ∀ g ∈ sizes, 0 < g) (h : Partitioned cpuDevice sizes ls) :
    ls.length = sizes.length ∧ ∀ i < sizes.length,
      0 < ls.getD i 0 ∧ ls.getD i 0 ∣ sizes.getD i 0 ∧ ls.getD i 0 ≤ 1024 := by
  rcases h with ⟨hl, h⟩ | ⟨hok, hval⟩
  · refine ⟨hl, fun i hi => ?_⟩
    obtain ⟨h1, h2, h3⟩ := h i hi
    exact ⟨h1, h2, h3.trans (maxWorkItemSizes_le i)⟩
  · simp only [cpuDevice, computeGlobalWorkPartition, Checked.ok_bind, Checked.ok_pure, Bool.and_true,
      Checked.val_bind, Checked.val_pure, Prod.mk.injEq, and_true, partitionLoop_val, List.nil_append] at hok hval
    rw [← hval]
    refine ⟨by simp, fun i hi => ?_⟩
    have hlt := partitionLoop_ok hok (by rw [ne_eq, List.range_eq_nil]; omega)
    have hpreset := preset_le (n := sizes.length) (i := i) (by omega) hi
    have hsize : 0 < sizes.getD i 0 := by
      rw [List.getD_eq_getElem?_getD, List.getElem?_eq_getElem hi]
      exact hpos _ (List.getElem_mem hi)
    simp only [List.getD_eq_getElem?_getD, List.getElem?_map, List.getElem?_range hi, Option.map_some,
      Option.getD_some] at hpreset hsize ⊢
    exact ⟨localSize_pos hsize, localSize_dvd _ _, (localSize_le hpreset.1).trans hpreset.2⟩

section New
variable {os sizes ls : List Nat} (ho : os.length = sizes.length) (hl : ls.length = sizes.length)
include ho hl

theorem new_length : (DimensionInfo.new os sizes ls).info.length = sizes.length := by
  induction sizes generalizing os ls with
  | nil =>
    obtain rfl := List.length_eq_zero_iff.1 ho
    obtain rfl := List.length_eq_zero_iff.1 hl
    rfl
  | cons g sizes ih =>
    obtain ⟨o, os, rfl⟩ := List.exists_cons_of_length_eq_add_one ho
    obtain ⟨l, ls, rfl⟩ := List.exists_cons_of_length_eq_add_one hl
    exact congrArg Nat.succ (ih (Nat.succ.inj ho) (Nat.succ.inj hl))

theorem new_offsets : (DimensionInfo.new os sizes ls).info.map InfoWrapper.offset = os := by
  induction sizes generalizing os ls with
  | nil =>
    obtain rfl := List.length_eq_zero_iff.1 ho
    obtain rfl := List.length_eq_zero_iff.1 hl
    rfl
  | cons g sizes ih =>
    obtain ⟨o, os, rfl⟩ := List.exists_cons_of_length_eq_add_one ho
    obtain ⟨l, ls, rfl⟩ := List.exists_cons_of_length_eq_add_one hl
    exact congrArg (List.cons o) (ih (Nat.succ.inj ho) (Nat.succ.inj hl))

theorem new_localSizes : (DimensionInfo.new os sizes ls).localSizes = ls := by
  induction sizes generalizing os ls with
  | nil =>
    obtain rfl := List.length_eq_zero_iff.1 ho
    obtain rfl := List.length_eq_zero_iff.1 hl
    rfl
  | cons g sizes ih =>
    obtain ⟨o, os, rfl⟩ := List.exists_cons_of_length_eq_add_one ho
    obtain ⟨l, ls, rfl⟩ := List.exists_cons_of_length_eq_add_one hl
    exact congrArg (List.cons l) (ih (Nat.succ.inj ho) (Nat.succ.inj hl))

/-- A dimension has the sizes that were given for it. -/
theorem mem_new {w : InfoWrapper} (hw : w ∈ (DimensionInfo.new os sizes ls).info) :
    ∃ i < sizes.length, w.globalSize = sizes.getD i 0 ∧ w.localSize = ls.getD i 0 := by
  induction sizes generalizing os ls with
  | nil =>
    rw [List.eq_nil_of_length_eq_zero (new_length ho hl)] at hw
    cases hw
  | cons g sizes ih =>
    obtain ⟨o, os, rfl⟩ := List.exists_cons_of_length_eq_add_one ho
    obtain ⟨l, ls, rfl⟩ := List.exists_cons_of_length_eq_add_one hl
    rcases List.mem_cons.1 hw with rfl | hw
    · exact ⟨0, Nat.succ_pos _, rfl, rfl⟩
    · obtain ⟨i, hi, h1, h2⟩ := ih (Nat.succ.inj ho) (Nat.succ.inj hl) hw
      exact ⟨i + 1, Nat.succ_lt_succ hi, h1, h2⟩

end New

/-- The iteration space of an accepted launch. -/
theorem accepted_divided {ctx : Nat} {kern : Option Kernel} {workDim : Nat}
    {globalWorkOffset globalWorkSize localWorkSize : Option (Nat → Nat)} {numEvents : Nat}
    {eventWaitList : Option (Nat → Option Nat)} {cmd : EnqueueNDRangeKernel}
    (hok : (clEnqueueNDRangeKernel ctx cpuDevice kern workDim globalWorkOffset globalWorkSize localWorkSize numEvents
      eventWaitList).ok = true)
    (h : (clEnqueueNDRangeKernel ctx cpuDevice kern workDim globalWorkOffset globalWorkSize localWorkSize numEvents
      eventWaitList).val = .ok cmd) : cmd.dimInfo.Divided := by
  obtain ⟨os, sizes, ls, hcmd, ho, hpos, hdims, hsizes, hpart⟩ := accepted_spec hok h
  obtain ⟨hl, hls⟩ := partitioned_spec (fun g hg => (hsizes g hg).1) hpart
  have hget : ∀ i < sizes.length, sizes.getD i 0 ∈ sizes := fun i hi => by
    rw [List.getD_eq_getElem?_getD, List.getElem?_eq_getElem hi]
    exact List.getElem_mem hi
  rw [hcmd]
  refine ⟨?_, ?_, ?_, ?_, ?_, ?_⟩
  · rw [new_length ho hl]
    exact hpos
  · intro w hw
    obtain ⟨i, hi, h1, -⟩ := mem_new ho hl hw
    exact h1 ▸ (hsizes _ (hget i hi)).1
  · intro w hw
    obtain ⟨i, hi, -, h2⟩ := mem_new ho hl hw
    exact h2 ▸ (hls i hi).1
  · intro w hw
    obtain ⟨i, hi, h1, h2⟩ := mem_new ho hl hw
    rw [h1, h2]
    exact (hls i hi).2.1
  · intro w hw
    obtain ⟨i, hi, h1, -⟩ := mem_new ho hl hw
    have hle : sizes.getD i 0 ≤ 2 ^ 32 - 1 := (hsizes _ (hget i hi)).2
    omega
  · -- at most three sizes of at most 1024
    rw [new_localSizes ho hl]
    have hle : ls.prod ≤ 1024 ^ ls.length := List.prod_le_pow_card ls 1024 fun l hmem => by
      obtain ⟨i, hi, rfl⟩ := List.mem_iff_getElem.1 hmem
      have hlt := (hls i (hl ▸ hi)).2.2
      rwa [List.getD_eq_getElem?_getD, List.getElem?_eq_getElem hi] at hlt
    have hpow : 1024 ^ ls.length ≤ 1024 ^ 3 := Nat.pow_le_pow_right (by decide) (hl ▸ hdims)
    omega

end OpenCRun.CPUDevice
