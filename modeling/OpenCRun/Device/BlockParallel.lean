import OpenCRun.Device.CPUDevice
import OpenCRun.Device.MultiExec
import OpenCRun.Util.Coverage
/-!
# Submitting a launch block by block

`CPUDevice::BlockParallelSubmit` hands a block for each work-group to some
thread, and each block counts down the context that was created before. The
loop counts work-groups one by one, the context their number as 32 bits say.
-/
open Lib Lib.MixedRadix Lib.Loop

namespace OpenCRun.BlockParallel

open MultiExec CPUDevice

/-- What a block command is made of. -/
structure NDRangeKernelBlockCPUCommand where
  id : Nat
  start : DimensionInfoIterator
  stop : DimensionInfoIterator
  deriving DecidableEq, Repr

def block (di : DimensionInfo) (it : DimensionInfoIterator) : NDRangeKernelBlockCPUCommand where
  id := di.getWorkGroup it
  start := it
  stop := di.addAssign di.getLocalWorkItems it

/-- What a submission leaves: the context, the blocks that threads took, and its result. -/
structure Submission where
  context : CPUMultiExecContext
  blocks : List NDRangeKernelBlockCPUCommand
  submitted : Bool
  deriving DecidableEq, Repr

/-- `BlockParallelSubmit`, with whether the thread that is picked for the `k`-th block takes it. -/
def blockParallelSubmit (di : DimensionInfo) (accepts : Nat → Bool) (fuel : Nat) : Option Submission :=
  (forLoop (di.addAssign di.getLocalWorkItems) di.endIter (fun k _ => accepts k) fuel 0 di.beginIter).map fun r =>
    { context := .new di.getWorkGroupsCount, blocks := r.1.map (block di), submitted := r.2 }

/-- The submission ends, as many blocks are handed out as will be waited for and not none, and all
work-groups are among them. -/
def Agrees (di : DimensionInfo) (accepts : Nat → Bool) : Prop :=
  ∃ fuel₀ sub, (∀ fuel > fuel₀, blockParallelSubmit di accepts fuel = some sub) ∧
    sub.blocks.length = sub.context.waitCount ∧ sub.blocks.length ≠ 0 ∧
    ∀ ids, Valid di.groupCounts ids → ∃ c ∈ sub.blocks, c.start.workGroups = ids

variable {di : DimensionInfo} {accepts : Nat → Bool}

/-- The first `j` work-groups are handed out, up to the first that is refused. -/
theorem blockParallelSubmit_eq (h : di.Divided) {j : Nat} (hj : j ≤ di.groupCounts.prod)
    (hok : ∀ k < j, accepts k = true) (hfail : j < di.groupCounts.prod → accepts j = false) {fuel : Nat}
    (hf : j < fuel) :
    blockParallelSubmit di accepts fuel = some
      { context := .new di.getWorkGroupsCount
        blocks := (List.range j).map fun g => block di (di.position (di.localSizes.prod * g))
        submitted := decide (j = di.groupCounts.prod) } := by
  have hw := h.localProd_pos
  have hloop : forLoop (di.addAssign di.getLocalWorkItems) di.endIter (fun k _ => accepts k) fuel 0
      (di.position (di.localSizes.prod * 0)) =
      some ((List.range j).map fun g => di.position (di.localSizes.prod * g), decide (j = di.groupCounts.prod)) :=
    forLoop_range (fun g => di.position (di.localSizes.prod * g)) (fun g hg => h.addAssign_group hg)
      (fun g hg => h.position_ne_end (by have := h.group_lt hg; omega))
      (by simp [DimensionInfo.prod_groupCounts h.dvd, DimensionInfo.position]) hj hok hfail hf
  rw [Nat.mul_zero, ← DimensionInfo.beginIter_eq h] at hloop
  simp [blockParallelSubmit, hloop, Function.comp_def]

/-- The ids of the `g`-th work-group are the digits of `g`. -/
theorem position_workGroups (h : di.Divided) {g : Nat} (hg : g < di.groupCounts.prod) :
    (di.position (di.localSizes.prod * g)).workGroups = digits di.groupCounts g := by
  have hw := h.localProd_pos
  have hle := h.group_lt hg
  rw [DimensionInfo.position_eq (by omega), DimensionInfo.iterAt, Nat.mul_div_cancel_left g hw]

/-- The count of work-groups is right if and only if the number of work-items fits 32 bits. -/
theorem getWorkGroupsCount_iff (h : di.Divided) :
    di.getWorkGroupsCount = di.groupCounts.prod ↔ di.globalSizes.prod < 2 ^ 32 := by
  constructor
  · intro hc
    by_contra hge
    rw [DimensionInfo.getWorkGroupsCount, DimensionInfo.getGlobalWorkItems_eq, DimensionInfo.getLocalWorkItems_eq,
      Nat.mod_eq_of_lt h.localProd] at hc
    have hle := Nat.mul_div_le (di.globalSizes.prod % 2 ^ 32) di.localSizes.prod
    rw [hc, DimensionInfo.prod_groupCounts h.dvd] at hle
    have hlt := Nat.mod_lt di.globalSizes.prod (Nat.two_pow_pos 32)
    omega
  · exact DimensionInfo.getWorkGroupsCount_eq h

theorem exists_first_refused (accepts : Nat → Bool) (n : Nat) :
    ∃ j ≤ n, (∀ k < j, accepts k = true) ∧ (j < n → accepts j = false) := by
  induction n with
  | zero => exact ⟨0, le_rfl, fun k hk => absurd hk (Nat.not_lt_zero k), fun h => absurd h (lt_irrefl 0)⟩
  | succ n ih =>
    obtain ⟨j, hj, hok, hfail⟩ := ih
    rcases Nat.lt_or_eq_of_le hj with hlt | rfl
    · exact ⟨j, Nat.le_succ_of_le hj, hok, fun _ => hfail hlt⟩
    · cases ha : accepts j with
      | false => exact ⟨j, Nat.le_succ j, hok, fun _ => ha⟩
      | true =>
        refine ⟨j + 1, le_rfl, fun k hk => ?_, fun h => absurd h (lt_irrefl _)⟩
        rcases Nat.lt_succ_iff_lt_or_eq.1 hk with hlt | rfl
        · exact hok k hlt
        · exact ha

theorem agrees_iff (h : di.Divided) :
    Agrees di accepts ↔ di.globalSizes.prod < 2 ^ 32 ∧ ∀ k < di.groupCounts.prod, accepts k = true := by
  have hp := h.groupProd_pos
  constructor
  · rintro ⟨fuel₀, sub, hrun, hcount, -, hall⟩
    obtain ⟨j, hj, hok, hfail⟩ := exists_first_refused accepts di.groupCounts.prod
    have heq := hrun (max fuel₀ j + 1) (by omega)
    rw [blockParallelSubmit_eq h hj hok hfail (by omega)] at heq
    obtain rfl := Option.some.inj heq
    -- the work-group after the last one handed out is not among them
    have hje : j = di.groupCounts.prod := by
      by_contra hne
      have hlt : j < di.groupCounts.prod := lt_of_le_of_ne hj hne
      obtain ⟨c, hc, hids⟩ := hall (digits di.groupCounts j) (digits_valid h.groupCounts_pos j)
      obtain ⟨g, hg, rfl⟩ := List.mem_map.1 hc
      have hgj := List.mem_range.1 hg
      have hgp := lt_trans hgj hlt
      have := digits_inj hgp hlt ((position_workGroups h hgp).symm.trans hids)
      omega
    subst hje
    refine ⟨(getWorkGroupsCount_iff h).1 ?_, hok⟩
    simpa [CPUMultiExecContext.new] using hcount.symm
  · rintro ⟨hprod, hok⟩
    have hrun := fun fuel (hf : fuel > di.groupCounts.prod) =>
      blockParallelSubmit_eq h le_rfl hok (fun hlt => absurd hlt (lt_irrefl _)) hf
    refine ⟨di.groupCounts.prod, _, hrun, ?_, ?_, fun ids hids => ?_⟩
    · simp [CPUMultiExecContext.new, (getWorkGroupsCount_iff h).2 hprod]
    · simp [Nat.ne_of_gt hp]
    · have hlt := value_lt hids
      refine ⟨_, List.mem_map.2 ⟨_, List.mem_range.2 hlt, rfl⟩, ?_⟩
      exact (position_workGroups h hlt).trans (digits_value hids)

/-- For an accepted launch the blocks and the count agree if and only if the number of work-items fits
32 bits and no thread refuses one of the blocks. -/
theorem block_count_agreement {ctx : Nat} {kern : Option Kernel} {workDim : Nat}
    {globalWorkOffset globalWorkSize localWorkSize : Option (Nat → Nat)} {numEvents : Nat}
    {eventWaitList : Option (Nat → Option Nat)} {cmd : EnqueueNDRangeKernel}
    (hok : (clEnqueueNDRangeKernel ctx cpuDevice kern workDim globalWorkOffset globalWorkSize localWorkSize numEvents
      eventWaitList).ok = true)
    (h : (clEnqueueNDRangeKernel ctx cpuDevice kern workDim globalWorkOffset globalWorkSize localWorkSize numEvents
      eventWaitList).val = .ok cmd) (accepts : Nat → Bool) :
    Agrees cmd.dimInfo accepts ↔
      cmd.dimInfo.globalSizes.prod < 2 ^ 32 ∧ ∀ k < cmd.dimInfo.groupCounts.prod, accepts k = true :=
  agrees_iff (accepted_divided hok h)

/-- A kernel of the context 0 without requirements. -/
def kernel : Kernel where
  isBuiltForDevice := true
  context := 0
  areAllArgsSpecified := true
  requiredWorkGroupSizes := none

/-- A launch of `n` by `n` work-items in work-groups of `l` by 1. -/
def square (n l : Nat) : Checked (Except ErrCode EnqueueNDRangeKernel) :=
  clEnqueueNDRangeKernel 0 cpuDevice (some kernel) 2 none (some fun _ => n) (some fun i => if i = 0 then l else 1) 0 none

theorem block_count_agreement_small : ∃ cmd, (square 64 16).val = .ok cmd ∧ Agrees cmd.dimInfo fun _ => true := by
  have hok : (square 64 16).ok = true := by decide
  exact ⟨_, rfl, (block_count_agreement hok rfl _).2 ⟨by decide, fun _ _ => rfl⟩⟩

/-- 2^32 work-items are counted as none. -/
theorem square_disagrees :
    ∃ cmd, (square 65536 1024).ok = true ∧ (square 65536 1024).val = .ok cmd ∧ cmd.dimInfo.getWorkGroupsCount = 0 ∧
      ¬ Agrees cmd.dimInfo fun _ => true := by
  have hok : (square 65536 1024).ok = true := by decide
  refine ⟨_, hok, rfl, by decide, fun ha => ?_⟩
  exact absurd ((agrees_iff (accepted_divided hok rfl)).1 ha).1 (by decide)

end OpenCRun.BlockParallel
