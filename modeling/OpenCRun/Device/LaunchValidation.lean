import OpenCRun.Lib.Loop
import OpenCRun.Device.BlockParallel
/-!
# The validation of a launch

Errors are recorded in the builder and the later calls go on with the vectors
as far as they were filled. What the calls then read, and what holds of the
vectors when `Create` returns a command.
-/
open Lib Lib.Loop

namespace OpenCRun.LaunchValidation

open CPUDevice EnqueueNDRangeKernelBuilder

variable {b : EnqueueNDRangeKernelBuilder}

/-- What the vectors should meet for a command. -/
structure WithinLimits (workDim : Nat) (b : EnqueueNDRangeKernelBuilder) : Prop where
  dims : b.workDimensions = workDim
  sizes : b.globalWorkSizes.length = workDim
  offsets : b.globalWorkOffsets.length = workDim
  locals : b.localWorkSizes.length = workDim
  divide : ∀ i < workDim, b.localWorkSizes.getD i 0 ≠ 0 ∧ b.localWorkSizes.getD i 0 ∣ b.globalWorkSizes.getD i 0
  le_max : ∀ i < workDim, b.localWorkSizes.getD i 0 ≤ cpuDevice.maxWorkItemSizes.getD i 0
  prod_le : b.localWorkSizes.prod ≤ cpuDevice.maxWorkGroupSize
  in_range : ∀ i < workDim, b.globalWorkOffsets.getD i 0 + b.globalWorkSizes.getD i 0 ≤ cpuDevice.sizeTypeMax

/-- The sizes that the constructor keeps, those before the first that is zero or too large. -/
def keptSizes (workDim : Nat) : Option (Nat → Nat) → List Nat
  | none => []
  | some gs => ((List.range workDim).map gs).takeWhile fun g => decide (0 < g ∧ g ≤ cpuDevice.sizeTypeMax)

/-- The number of dimensions that the constructor keeps. -/
def keptDimensions (workDim : Nat) : Nat := if 1 ≤ workDim ∧ workDim ≤ cpuDevice.maxWorkItemDimensions then workDim else 0

/-- Each offset that the loop gets to has a size. -/
def OffsetsRead (sizes : List Nat) (dims : Nat) : Option (Nat → Nat) → Prop
  | none => True
  | some os => sizes = [] ∨
    AllReached (fun i => toSize (os i + sizes.getD i 0) ≤ cpuDevice.sizeTypeMax) (· < sizes.length) 0 dims

/-- A local size that the loop does not end at. -/
def LocalPasses (required : Option (List Nat)) (sizes : List Nat) (ls : Nat → Nat) (i : Nat) : Prop :=
  ls i ≤ cpuDevice.maxWorkItemSizes.getD i 0 ∧ sizes.getD i 0 % ls i = 0 ∧
    ∀ req, required = some req → i < 3 ∧ req.getD i 0 = ls i

/-- A local size within the limit of the device is not zero, and is compared with sizes that are there. -/
def LocalRead (required : Option (List Nat)) (sizes : List Nat) (ls : Nat → Nat) (i : Nat) : Prop :=
  ls i ≤ cpuDevice.maxWorkItemSizes.getD i 0 → i < sizes.length ∧ ls i ≠ 0 ∧
    (sizes.getD i 0 % ls i = 0 → ∀ req, required = some req → i < req.length)

/-- Each local size that the loop gets to is read rightly; the table of the device has no row for three sizes. -/
def LocalsRead (required : Option (List Nat)) (sizes : List Nat) (dims : Nat) : Option (Nat → Nat) → Prop
  | none => sizes.length < 3
  | some ls => AllReached (LocalPasses required sizes ls) (LocalRead required sizes ls) 0 dims

/-! ## What the calls read -/

theorem pushGlobalWorkOffsets_ok {os : Nat → Nat} {s k : Nat} :
    (pushGlobalWorkOffsets os (List.range' s k) b).ok = true ↔
      AllReached (fun i => toSize (os i + b.globalWorkSizes.getD i 0) ≤ b.dev.sizeTypeMax) (· < b.globalWorkSizes.length)
        s k := by
  induction k generalizing s b with
  | zero => exact iff_of_true rfl (allReached_zero _ _ s)
  | succ k ih =>
    simp only [List.range'_succ, pushGlobalWorkOffsets, Checked.ok_bind, Checked.ok_check, Checked.ok_ite,
      Bool.and_eq_true, decide_eq_true_eq, allReached_succ]
    refine and_congr_right fun hlt => ?_
    split
    · next hout => exact iff_of_true rfl fun hin => absurd hin (Nat.not_le_of_gt hout)
    · next hin => rw [forall_prop_of_true (Nat.le_of_not_lt hin), ih]

/-- The sizes that the kernel requires are read for the first three dimensions. -/
theorem required_ok {required : Option (List Nat)} {s l : Nat} {rest : Bool} (hs : s < 3) :
    ((required.isNone || decide (s ≥ 3) || decide (s < (required.getD []).length)) &&
        if required.isSome ∧ (s ≥ 3 ∨ (required.getD []).getD s 0 ≠ l) then true else rest) = true ↔
      (∀ req, required = some req → s < req.length) ∧
        ((∀ req, required = some req → s < 3 ∧ req.getD s 0 = l) → rest = true) := by
  have hge : ¬ s ≥ 3 := Nat.not_le_of_gt hs
  cases required with
  | none => simp
  | some req =>
    simp only [Option.isNone_some, Option.isSome_some, Option.getD_some, hge, decide_false, Bool.or_false, Bool.false_or,
      false_or, true_and, Bool.and_eq_true, decide_eq_true_eq, Option.some.injEq, forall_eq', hs]
    refine and_congr_right fun _ => ?_
    split
    · next hne => exact iff_of_true rfl fun heq => absurd heq hne
    · next heq => rw [forall_prop_of_true (not_not.1 heq)]

theorem pushLocalWorkSizes_ok {desc : Kernel} {ls : Nat → Nat} {s k p : Nat} (hdev : b.dev = cpuDevice) (hk : s + k ≤ 3) :
    (pushLocalWorkSizes desc ls (List.range' s k) p b).ok = true ↔
      AllReached (LocalPasses desc.requiredWorkGroupSizes b.globalWorkSizes ls)
        (LocalRead desc.requiredWorkGroupSizes b.globalWorkSizes ls) s k := by
  -- On the dimensions that are left. The product so far decides on nothing that is read.
  induction k generalizing s p b with
  | zero => exact iff_of_true rfl (allReached_zero _ _ s)
  | succ k ih =>
    have hs : s < 3 := by omega
    have hrec := ih (b := { b with localWorkSizes := b.localWorkSizes ++ [ls s] }) (p := toSize (p * ls s)) hdev
      (show s + 1 + k ≤ 3 by omega)
    have hmax : s < b.dev.maxWorkItemSizes.length := by
      rw [hdev]
      exact hs
    simp only [List.range'_succ, pushLocalWorkSizes, Checked.ok_bind, Checked.ok_check, Checked.ok_ite, Checked.ok_pure,
      Bool.and_eq_true, decide_eq_true_eq, allReached_succ, LocalPasses, LocalRead, hmax, true_and, ← hdev]
    split
    · next hout =>
      exact iff_of_true rfl ⟨fun hle => absurd hle (Nat.not_le_of_gt hout), fun h => absurd h.1 (Nat.not_le_of_gt hout)⟩
    next hle =>
    rw [forall_prop_of_true (Nat.le_of_not_lt hle), and_iff_right (Nat.le_of_not_lt hle), and_assoc, and_assoc,
      Bool.and_eq_true, Bool.and_eq_true, decide_eq_true_eq, bne_iff_ne]
    refine and_congr_right fun hlt => and_congr_right fun hne => ?_
    split
    · next hmod => exact iff_of_true rfl ⟨fun h => absurd h hmod, fun h => absurd h.1 hmod⟩
    next hmod =>
    rw [forall_prop_of_true (not_not.1 hmod), and_iff_right (not_not.1 hmod), ← hrec, required_ok hs]

/-! ## The builder between the calls -/

/-- An error or an offset changes nothing of what the later calls index. -/
structure Keeps (b b' : EnqueueNDRangeKernelBuilder) : Prop where
  dev : b'.dev = b.dev
  kern : b'.kern = b.kern
  dims : b'.workDimensions = b.workDimensions
  sizes : b'.globalWorkSizes = b.globalWorkSizes

theorem Keeps.refl (b : EnqueueNDRangeKernelBuilder) : Keeps b b := ⟨rfl, rfl, rfl, rfl⟩

theorem Keeps.trans {b₁ b₂ b₃ : EnqueueNDRangeKernelBuilder} (h : Keeps b₁ b₂) (h' : Keeps b₂ b₃) : Keeps b₁ b₃ :=
  ⟨h'.dev.trans h.dev, h'.kern.trans h.kern, h'.dims.trans h.dims, h'.sizes.trans h.sizes⟩

theorem notifyErrorIf_keeps (c : Bool) (errCode : ErrCode) (msg : String) : Keeps b (b.notifyErrorIf c errCode msg) := by
  cases c with
  | false => exact .refl b
  | true => exact ⟨rfl, rfl, rfl, rfl⟩

theorem checkKernel_keeps : Keeps b b.checkKernel.val := by
  simp only [checkKernel, Checked.val_bind, Checked.val_pure]
  apply (notifyErrorIf_keeps _ _ _).trans
  apply (notifyErrorIf_keeps _ _ _).trans
  apply (notifyErrorIf_keeps _ _ _).trans
  apply notifyErrorIf_keeps

theorem pushGlobalWorkOffsets_keeps {os : Nat → Nat} {is : List Nat} : Keeps b (pushGlobalWorkOffsets os is b).val := by
  induction is generalizing b with
  | nil => exact .refl b
  | cons i is ih =>
    simp only [pushGlobalWorkOffsets, Checked.val_bind, Checked.val_ite]
    split
    · exact ⟨rfl, rfl, rfl, rfl⟩
    · have hpush : Keeps b { b with globalWorkOffsets := b.globalWorkOffsets ++ [os i] } := ⟨rfl, rfl, rfl, rfl⟩
      exact hpush.trans ih

theorem setGlobalWorkOffset_keeps (offsets : Option (Nat → Nat)) : Keeps b (b.setGlobalWorkOffset offsets).val := by
  unfold setGlobalWorkOffset
  split
  · exact .refl b
  · cases offsets with
    | none => exact ⟨rfl, rfl, rfl, rfl⟩
    | some os => exact pushGlobalWorkOffsets_keeps

theorem pushGlobalWorkSizes_sizes {gs : Nat → Nat} {is : List Nat} :
    Keeps { b with
        globalWorkSizes := b.globalWorkSizes ++ (is.map gs).takeWhile fun g => decide (0 < g ∧ g ≤ b.dev.sizeTypeMax) }
      (pushGlobalWorkSizes gs is b) := by
  induction is generalizing b with
  | nil => exact ⟨rfl, rfl, rfl, by simp [pushGlobalWorkSizes]⟩
  | cons i is ih =>
    unfold pushGlobalWorkSizes
    split
    · next hout =>
      have hfail : ¬ (0 < gs i ∧ gs i ≤ b.dev.sizeTypeMax) := by omega
      refine ⟨rfl, rfl, rfl, ?_⟩
      rw [List.map_cons, List.takeWhile_cons_of_neg (by simpa using hfail), List.append_nil]
      rfl
    · next hin =>
      have hpass : 0 < gs i ∧ gs i ≤ b.dev.sizeTypeMax := by omega
      have hrest := ih (b := { b with globalWorkSizes := b.globalWorkSizes ++ [gs i] })
      refine ⟨hrest.dev, hrest.kern, hrest.dims, ?_⟩
      rw [hrest.sizes, List.map_cons, List.takeWhile_cons_of_pos (by simpa using hpass), List.append_assoc]
      rfl

theorem new_keeps (ctx : Nat) (kern : Option Kernel) (workDim : Nat) (sizes : Option (Nat → Nat)) :
    Keeps { ctx, dev := cpuDevice, kern, workDimensions := keptDimensions workDim, globalWorkSizes := keptSizes workDim sizes }
      (new ctx cpuDevice kern workDim sizes).val := by
  have hcheck := checkKernel_keeps (b := { ctx, dev := cpuDevice, kern })
  have hdims : Keeps { ctx, dev := cpuDevice, kern, workDimensions := keptDimensions workDim }
      ((checkKernel { ctx, dev := cpuDevice, kern }).val.setWorkDimensions workDim) := by
    unfold setWorkDimensions keptDimensions
    by_cases hin : 1 ≤ workDim ∧ workDim ≤ cpuDevice.maxWorkItemDimensions
    · have hnot : ¬ (workDim < 1 ∨ workDim > (checkKernel { ctx, dev := cpuDevice, kern }).val.dev.maxWorkItemDimensions) := by
        rw [hcheck.dev]
        dsimp only
        omega
      rw [if_pos hin, if_neg hnot]
      exact ⟨hcheck.dev, hcheck.kern, rfl, hcheck.sizes⟩
    · have hout : workDim < 1 ∨ workDim > (checkKernel { ctx, dev := cpuDevice, kern }).val.dev.maxWorkItemDimensions := by
        rw [hcheck.dev]
        dsimp only
        omega
      rw [if_neg hin, if_pos hout]
      exact ⟨hcheck.dev, hcheck.kern, hcheck.dims, hcheck.sizes⟩
  cases sizes with
  | none => exact hdims.trans ⟨rfl, rfl, rfl, rfl⟩
  | some gs =>
    obtain ⟨hdev, hkern, hdims', hsizes⟩ := pushGlobalWorkSizes_sizes
      (b := (checkKernel { ctx, dev := cpuDevice, kern }).val.setWorkDimensions workDim)
    refine ⟨hdev.trans hdims.dev, hkern.trans hdims.kern, hdims'.trans hdims.dims, hsizes.trans ?_⟩
    dsimp only
    rw [hdims.sizes, hdims.dev]
    rfl

/-! ## All the calls -/

theorem new_ok {ctx : Nat} {dev : Device} {kern : Option Kernel} {workDim : Nat} {sizes : Option (Nat → Nat)} :
    (new ctx dev kern workDim sizes).ok = kern.isSome := by
  cases sizes <;> simp [new, checkKernel, getKernel]

theorem keptDimensions_le (workDim : Nat) : keptDimensions workDim ≤ 3 := by
  unfold keptDimensions
  split
  · next h => exact h.2
  · exact Nat.zero_le 3

theorem setGlobalWorkOffset_ok {offsets : Option (Nat → Nat)} (hdev : b.dev = cpuDevice) :
    (b.setGlobalWorkOffset offsets).ok = true ↔ OffsetsRead b.globalWorkSizes b.workDimensions offsets := by
  unfold setGlobalWorkOffset
  cases offsets with
  | none => simp [OffsetsRead, Checked.ok_ite]
  | some os =>
    rw [OffsetsRead, ← hdev, ← pushGlobalWorkOffsets_ok, ← List.range_eq_range', Checked.ok_ite]
    split
    · next h =>
      refine iff_of_true rfl ?_
      rcases h with h | h
      · rw [h]
        exact .inr rfl
      · exact .inl h
    · next h => simp [not_or.1 h]

theorem partition_ok {sizes lw : List Nat} : (computeGlobalWorkPartition sizes lw).ok = true ↔ sizes.length < 3 := by
  simp only [computeGlobalWorkPartition, Checked.ok_bind, Checked.ok_pure, Bool.and_true]
  constructor
  · intro h
    by_contra hge
    exact hge (partitionLoop_ok h (by rw [ne_eq, List.range_eq_nil]; omega))
  · intro hlt
    rcases sizes with _ | ⟨_, _ | ⟨_, _ | ⟨_, _⟩⟩⟩
    · rfl
    · rfl
    · rfl
    · simp only [List.length_cons] at hlt
      omega

theorem setLocalWorkSize_ok {desc : Kernel} {localSizes : Option (Nat → Nat)} (hdev : b.dev = cpuDevice)
    (hkern : b.kern = some desc) (hdims : b.workDimensions ≤ 3) :
    (b.setLocalWorkSize localSizes).ok = true ↔ desc.isBuiltForDevice = true ∧
      LocalsRead desc.requiredWorkGroupSizes b.globalWorkSizes b.workDimensions localSizes := by
  have hget : (getKernel b).val = desc ∧ (getKernel b).ok = true := by simp [getKernel, hkern]
  simp only [setLocalWorkSize, Checked.ok_bind, hget, Checked.ok_check, Bool.true_and, Bool.and_eq_true]
  refine and_congr_right fun _ => ?_
  cases localSizes with
  | none =>
    simp only [Checked.ok_bind, Checked.ok_pure, Bool.and_true, notifyErrorIf_dev, notifyErrorIf_sizes, hdev]
    exact partition_ok
  | some ls =>
    rw [List.range_eq_range', pushLocalWorkSizes_ok hdev (by omega)]
    rfl

section Launch
variable {ctx : Nat} {kern : Option Kernel} {workDim : Nat} {globalWorkOffset globalWorkSize localWorkSize : Option (Nat → Nat)}
  {numEvents : Nat} {eventWaitList : Option (Nat → Option Nat)}

/-- The kernel is there and built for the device, and the setters read what the constructor has kept. -/
def AllRead (kern : Option Kernel) (workDim : Nat) (globalWorkOffset globalWorkSize localWorkSize : Option (Nat → Nat)) :
    Prop :=
  ∃ desc, kern = some desc ∧ desc.isBuiltForDevice = true ∧
    OffsetsRead (keptSizes workDim globalWorkSize) (keptDimensions workDim) globalWorkOffset ∧
    LocalsRead desc.requiredWorkGroupSizes (keptSizes workDim globalWorkSize) (keptDimensions workDim) localWorkSize

theorem launchBuilder_ok : (launchBuilder ctx cpuDevice kern workDim globalWorkOffset globalWorkSize localWorkSize numEvents
      eventWaitList).ok = true ↔ AllRead kern workDim globalWorkOffset globalWorkSize localWorkSize := by
  simp only [launchBuilder, Checked.ok_bind, Checked.ok_pure, Bool.and_true, Bool.and_eq_true, new_ok]
  cases kern with
  | none => simp [AllRead]
  | some desc =>
    have hnew := new_keeps ctx (some desc) workDim globalWorkSize
    have hset := hnew.trans (setGlobalWorkOffset_keeps globalWorkOffset)
    rw [setGlobalWorkOffset_ok hnew.dev, setLocalWorkSize_ok hset.dev hset.kern (hset.dims ▸ keptDimensions_le workDim),
      hnew.sizes, hnew.dims, hset.sizes, hset.dims]
    constructor
    · rintro ⟨-, hoffsets, hbuilt, hlocals⟩
      exact ⟨desc, rfl, hbuilt, hoffsets, hlocals⟩
    · rintro ⟨_, ⟨⟩, hbuilt, hoffsets, hlocals⟩
      exact ⟨rfl, hoffsets, hbuilt, hlocals⟩

/-- No check of the calls fails, and a command means sizes within the limits. -/
structure ValidatesRightly (ctx : Nat) (kern : Option Kernel) (workDim : Nat)
    (globalWorkOffset globalWorkSize localWorkSize : Option (Nat → Nat)) (numEvents : Nat)
    (eventWaitList : Option (Nat → Option Nat)) : Prop where
  total : (clEnqueueNDRangeKernel ctx cpuDevice kern workDim globalWorkOffset globalWorkSize localWorkSize numEvents
    eventWaitList).ok = true
  sound : ∀ cmd, (clEnqueueNDRangeKernel ctx cpuDevice kern workDim globalWorkOffset globalWorkSize localWorkSize numEvents
    eventWaitList).val = .ok cmd → WithinLimits workDim (launchBuilder ctx cpuDevice kern workDim globalWorkOffset
      globalWorkSize localWorkSize numEvents eventWaitList).val

/-- The sums of the offsets and sizes of a launch that passes the tests are below the size of a `size_t`. -/
def SumsFit (ctx : Nat) (kern : Option Kernel) (workDim : Nat)
    (globalWorkOffset globalWorkSize localWorkSize : Option (Nat → Nat)) (numEvents : Nat)
    (eventWaitList : Option (Nat → Option Nat)) : Prop :=
  ∀ desc os gs, kern = some desc → globalWorkOffset = some os → globalWorkSize = some gs →
    desc.areAllArgsSpecified = true →
    Acceptable ctx cpuDevice desc workDim globalWorkOffset globalWorkSize localWorkSize numEvents eventWaitList →
    ∀ i < workDim, os i + gs i < 2 ^ 64

/-- A product of positive numbers that fits does not wrap on the way. -/
theorem foldl_toSize {xs : List Nat} {p : Nat} (hpos : ∀ x ∈ xs, 0 < x) (hfit : p * xs.prod < 2 ^ 64) :
    xs.foldl (fun p x => toSize (p * x)) p = p * xs.prod := by
  induction xs generalizing p with
  | nil => simp
  | cons x xs ih =>
    rw [List.forall_mem_cons] at hpos
    rw [List.prod_cons, ← Nat.mul_assoc] at hfit
    have hprod : 0 < xs.prod := Nat.pos_of_ne_zero (List.prod_ne_zero fun h0 => Nat.lt_irrefl 0 (hpos.2 0 h0))
    have hlt : p * x < 2 ^ 64 := (Nat.le_mul_of_pos_right _ hprod).trans_lt hfit
    rw [List.foldl_cons, toSize, Nat.mod_eq_of_lt hlt, ih hpos.2 hfit, List.prod_cons, Nat.mul_assoc]

/-- The product of the loop over given local sizes is the one of the numbers: three of at most 1024 do not wrap. -/
theorem prod_le_of_foldl {ls : List Nat} {m : Nat} (hlen : ls.length ≤ 3) (hls : ∀ l ∈ ls, 0 < l ∧ l ≤ 1024)
    (h : ls.foldl (fun p l => toSize (p * l)) 1 ≤ m) : ls.prod ≤ m := by
  have hle : ls.prod ≤ 1024 ^ ls.length := List.prod_le_pow_card ls 1024 fun l hl => (hls l hl).2
  have hpow : 1024 ^ ls.length ≤ 1024 ^ 3 := Nat.pow_le_pow_right (by decide) hlen
  rwa [foldl_toSize (fun l hl => (hls l hl).1) (by omega), Nat.one_mul] at h

theorem getD_map_range {f : Nat → Nat} {n i : Nat} (hi : i < n) : ((List.range n).map f).getD i 0 = f i := by
  simp [List.getD_eq_getElem?_getD, hi]

theorem maxWorkItemSizes_eq {i : Nat} (hi : i < 3) : cpuDevice.maxWorkItemSizes.getD i 0 = 1024 := by
  match i, hi with
  | 0, _ | 1, _ | 2, _ => rfl

theorem withinLimits_of_built {b : EnqueueNDRangeKernelBuilder} {gs : Nat → Nat}
    (h : BuiltLaunch cpuDevice workDim globalWorkOffset globalWorkSize localWorkSize b gs)
    (hsums : ∀ os, globalWorkOffset = some os → ∀ i < workDim, os i + gs i < 2 ^ 64) : WithinLimits workDim b := by
  have hlength : ((List.range workDim).map gs).length = workDim := by simp
  have hpos : ∀ g ∈ (List.range workDim).map gs, 0 < g := by
    intro g hg
    obtain ⟨i, hi, rfl⟩ := List.mem_map.1 hg
    exact (h.fit i (List.mem_range.1 hi)).1
  obtain ⟨hlocals, hspec⟩ := partitioned_spec hpos h.partitioned
  rw [hlength] at hlocals hspec
  refine ⟨h.workDimensions, by rw [h.sizes, hlength], ?_, hlocals, fun i hi => ?_, fun i hi => ?_, ?_, fun i hi => ?_⟩
  · rw [h.offsets]
    cases globalWorkOffset <;> simp [givenOffsets]
  · obtain ⟨h1, h2, -⟩ := hspec i hi
    rw [h.sizes]
    exact ⟨h1.ne', h2⟩
  · rw [maxWorkItemSizes_eq (hi.trans_le h.dims.2)]
    exact (hspec i hi).2.2
  -- Sizes that the builder has chosen are a partition; the product of given ones has been tested.
  · cases localWorkSize with
    | none =>
      obtain ⟨hok, hval⟩ := h.chosen rfl
      have hne : (List.range workDim).map gs ≠ [] := List.ne_nil_of_length_pos (by rw [hlength]; exact h.dims.1)
      obtain ⟨-, ls, hls, hpart⟩ := isPartition_of_lt (partition_ok.1 hok) hne hpos
      obtain ⟨rfl, -⟩ := Prod.mk.inj (hls.symm.trans hval)
      exact hpart.prod_le
    | some ls =>
      obtain ⟨hls, hprod⟩ := h.locals ls rfl
      apply prod_le_of_foldl (hlocals.trans_le h.dims.2) fun l hmem => ?_
      · rw [hls, List.foldl_map]
        exact hprod
      · obtain ⟨i, hi, rfl⟩ := List.mem_iff_getElem.1 hmem
        obtain ⟨h1, -, h3⟩ := hspec i (hlocals ▸ hi)
        rw [List.getD_eq_getElem?_getD, List.getElem?_eq_getElem hi] at h1 h3
        exact ⟨h1, h3⟩
  · rw [h.offsets, h.sizes, getD_map_range hi]
    cases globalWorkOffset with
    | none =>
      have hzero : (givenOffsets workDim none).getD i 0 = 0 := by
        simp [givenOffsets, List.getD_eq_getElem?_getD, hi]
      rw [hzero, Nat.zero_add]
      exact (h.fit i hi).2
    | some os =>
      rw [givenOffsets, getD_map_range hi]
      have hfit := h.offsetsFit i hi
      rwa [toSize, Nat.mod_eq_of_lt (hsums os rfl i hi)] at hfit

theorem create_ok (h : b.errCode ≠ .success ∨ (b.globalWorkOffsets.length = b.globalWorkSizes.length ∧
    b.globalWorkSizes.length = b.localWorkSizes.length ∧ b.kern.isSome = true)) : b.create.ok = true := by
  unfold create
  rw [Checked.ok_ite]
  split
  · rfl
  · next hsuccess =>
    obtain ⟨h1, h2, h3⟩ := h.resolve_left hsuccess
    simp [getKernel, h1, h2, h3]

theorem withinLimits_of_success {desc : Kernel}
    (hok : (launchBuilder ctx cpuDevice (some desc) workDim globalWorkOffset globalWorkSize localWorkSize numEvents
      eventWaitList).ok = true)
    (hsuccess : (launchBuilder ctx cpuDevice (some desc) workDim globalWorkOffset globalWorkSize localWorkSize numEvents
      eventWaitList).val.errCode = .success)
    (hsums : SumsFit ctx (some desc) workDim globalWorkOffset globalWorkSize localWorkSize numEvents eventWaitList) :
    WithinLimits workDim (launchBuilder ctx cpuDevice (some desc) workDim globalWorkOffset globalWorkSize localWorkSize
      numEvents eventWaitList).val := by
  obtain ⟨gs, hbuilt⟩ := launchBuilder_success hok hsuccess
  refine withinLimits_of_built hbuilt fun os hos => ?_
  obtain ⟨cmd, hcmd⟩ := create_iff.2 hsuccess
  rw [← Checked.val_bind, ← clEnqueueNDRangeKernel_eq] at hcmd
  obtain ⟨hargs, hacceptable⟩ := launch_accepted_iff.1 ⟨cmd, hcmd⟩
  exact hsums desc os gs rfl hos hbuilt.given hargs hacceptable

/-- When the calls are right: not for a null kernel or one not built for the device, nor where they read past the sizes
that the constructor kept or divide by a zero, nor for an offset of which the sum wraps. -/
theorem validates_rightly_iff : ValidatesRightly ctx kern workDim globalWorkOffset globalWorkSize localWorkSize numEvents
      eventWaitList ↔ AllRead kern workDim globalWorkOffset globalWorkSize localWorkSize ∧
    SumsFit ctx kern workDim globalWorkOffset globalWorkSize localWorkSize numEvents eventWaitList := by
  have hread : (launchBuilder ctx cpuDevice kern workDim globalWorkOffset globalWorkSize localWorkSize numEvents
      eventWaitList).ok = true ↔ AllRead kern workDim globalWorkOffset globalWorkSize localWorkSize := launchBuilder_ok
  rw [← hread]
  constructor
  · rintro ⟨htotal, hsound⟩
    rw [clEnqueueNDRangeKernel_eq, Checked.ok_bind, Bool.and_eq_true] at htotal
    refine ⟨htotal.1, ?_⟩
    rintro desc os gs rfl rfl rfl hargs hacceptable i hi
    -- A launch whose sums do not fit would be accepted all the same.
    obtain ⟨cmd, hcmd⟩ := launch_accepted_iff.2 ⟨hargs, hacceptable⟩
    have hlimits := hsound cmd hcmd
    rw [clEnqueueNDRangeKernel_eq, Checked.val_bind] at hcmd
    obtain ⟨gs', hbuilt⟩ := launchBuilder_success htotal.1 (create_success hcmd).1
    obtain rfl : gs = gs' := Option.some.inj hbuilt.given
    have hrange := hlimits.in_range i hi
    rw [hbuilt.offsets, hbuilt.sizes, givenOffsets, getD_map_range hi, getD_map_range hi] at hrange
    exact hrange.trans_lt (by decide)
  · rintro ⟨hok, hsums⟩
    obtain ⟨desc, rfl, -⟩ := launchBuilder_ok.1 hok
    have hlimits := fun hsuccess => withinLimits_of_success hok hsuccess hsums
    constructor
    · rw [clEnqueueNDRangeKernel_eq, Checked.ok_bind, Bool.and_eq_true]
      refine ⟨hok, create_ok (or_iff_not_imp_left.2 fun hsuccess => ?_)⟩
      have hwithin := hlimits (not_not.1 hsuccess)
      obtain ⟨_, hbuilt⟩ := launchBuilder_success hok (not_not.1 hsuccess)
      exact ⟨hwithin.offsets.trans hwithin.sizes.symm, hwithin.sizes.trans hwithin.locals.symm, hbuilt.kern⟩
    · intro cmd hcmd
      rw [clEnqueueNDRangeKernel_eq, Checked.val_bind] at hcmd
      exact hlimits (create_success hcmd).1

/-- A line of 4096 work-items in groups of 1024, from 7 on. -/
theorem validates_rightly_line :
    ValidatesRightly 0 (some BlockParallel.kernel) 1 (some fun _ => 7) (some fun _ => 4096) (some fun _ => 1024) 0 none := by
  refine validates_rightly_iff.2 ⟨⟨_, rfl, rfl, .inr ?_, ?_⟩, ?_⟩
  · intro i _ hi _
    exact hi
  · intro i _ hi _ _
    obtain rfl : i = 0 := Nat.lt_one_iff.1 hi
    exact ⟨by decide, by decide, nofun⟩
  · rintro desc os gs - ⟨⟩ ⟨⟩ - - i hi
    exact (show 7 + 4096 < 2 ^ 64 by decide)

/-- A local size of zero is divided by. -/
theorem line_with_zero : (clEnqueueNDRangeKernel 0 cpuDevice (some BlockParallel.kernel) 1 none (some fun _ => 8)
    (some fun _ => 0) 0 none).ok = false ∧ ¬ ValidatesRightly 0 (some BlockParallel.kernel) 1 none (some fun _ => 8)
      (some fun _ => 0) 0 none := by
  have hzero : (clEnqueueNDRangeKernel 0 cpuDevice (some BlockParallel.kernel) 1 none (some fun _ => 8)
      (some fun _ => 0) 0 none).ok = false := by decide
  exact ⟨hzero, fun h => absurd h.total (by rw [hzero]; decide)⟩

end Launch

end OpenCRun.LaunchValidation
