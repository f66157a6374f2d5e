import OpenCRun.Lib.Checked
import OpenCRun.Util.DimensionInfo
/-!
# Building an NDRange launch

`EnqueueNDRangeKernelBuilder` of `Command.cpp`, as `clEnqueueNDRangeKernel`
calls it. A check says what the code relies on without testing it: that a
pointer is set, an index in bounds, a divisor not zero.
-/
open Lib

namespace OpenCRun

/-- What the builder reads of a device. -/
structure Device where
  maxWorkItemDimensions : Nat
  maxWorkItemSizes : List Nat
  maxWorkGroupSize : Nat
  sizeTypeMax : Nat
  /-- Adds to the second list; each device has its own. -/
  computeGlobalWorkPartition : List Nat → List Nat → Checked (List Nat × Bool)

/-- What the builder reads of a kernel and of its descriptor for the device. -/
structure Kernel where
  isBuiltForDevice : Bool
  context : Nat
  areAllArgsSpecified : Bool
  requiredWorkGroupSizes : Option (List Nat)
  deriving DecidableEq, Repr, Inhabited

inductive ErrCode where
  | success
  | invalidKernel
  | invalidProgramExecutable
  | invalidContext
  | invalidKernelArgs
  | invalidWorkDimension
  | invalidGlobalWorkSize
  | invalidGlobalOffset
  | invalidWorkGroupSize
  | invalidEventWaitList
  deriving DecidableEq, Repr

structure EnqueueNDRangeKernel where
  kern : Kernel
  dimInfo : DimensionInfo
  waitList : List Nat
  deriving DecidableEq, Repr

structure EnqueueNDRangeKernelBuilder where
  ctx : Nat
  dev : Device
  /-- Not set when the kernel is null. -/
  kern : Option Kernel := none
  workDimensions : Nat := 0
  globalWorkSizes : List Nat := []
  globalWorkOffsets : List Nat := []
  localWorkSizes : List Nat := []
  waitList : List Nat := []
  errCode : ErrCode := .success
  diagnostics : List String := []

namespace EnqueueNDRangeKernelBuilder

/-- The last error is the one that is returned. -/
def notifyError (b : EnqueueNDRangeKernelBuilder) (errCode : ErrCode) (msg : String) : EnqueueNDRangeKernelBuilder :=
  { b with errCode, diagnostics := b.diagnostics ++ [msg] }

def notifyErrorIf (c : Bool) (errCode : ErrCode) (msg : String) (b : EnqueueNDRangeKernelBuilder) :
    EnqueueNDRangeKernelBuilder :=
  if c then b.notifyError errCode msg else b

/-- `Kern->`. -/
def getKernel (b : EnqueueNDRangeKernelBuilder) : Checked Kernel := do
  Checked.check b.kern.isSome
  pure (b.kern.getD default)

/-- The loop over the global sizes; it stops at an error. -/
def pushGlobalWorkSizes (globalWorkSizes : Nat → Nat) :
    List Nat → EnqueueNDRangeKernelBuilder → EnqueueNDRangeKernelBuilder
  | [], b => b
  | i :: is, b =>
    if globalWorkSizes i = 0 ∨ globalWorkSizes i > b.dev.sizeTypeMax then
      b.notifyError .invalidGlobalWorkSize "out of range global work size given"
    else pushGlobalWorkSizes globalWorkSizes is { b with globalWorkSizes := b.globalWorkSizes ++ [globalWorkSizes i] }

/-- What the constructor asks of the kernel; it goes on after an error. -/
def checkKernel (b : EnqueueNDRangeKernelBuilder) : Checked EnqueueNDRangeKernelBuilder := do
  let b := b.notifyErrorIf b.kern.isNone .invalidKernel "cannot enqueue an invalid kernel"
  let desc ← b.getKernel
  let b := b.notifyErrorIf (!desc.isBuiltForDevice) .invalidProgramExecutable "kernel not built for current device"
  let b := b.notifyErrorIf (desc.context != b.ctx) .invalidContext
    "cannot enqueue a kernel into a command queue with a different context"
  pure (b.notifyErrorIf (!desc.areAllArgsSpecified) .invalidKernelArgs
    "not all kernel arguments have been specified")

def setWorkDimensions (b : EnqueueNDRangeKernelBuilder) (workDimensions : Nat) : EnqueueNDRangeKernelBuilder :=
  if workDimensions < 1 ∨ workDimensions > b.dev.maxWorkItemDimensions then
    b.notifyError .invalidWorkDimension "given work dimensions is out of range"
  else { b with workDimensions }

/-- The constructor. An array is a function of the index. -/
def new (ctx : Nat) (dev : Device) (kern : Option Kernel) (workDimensions : Nat) (globalWorkSizes : Option (Nat → Nat)) :
    Checked EnqueueNDRangeKernelBuilder := do
  let b ← checkKernel { ctx, dev, kern }
  let b := b.setWorkDimensions workDimensions
  match globalWorkSizes with
  | none => pure (b.notifyError .invalidGlobalWorkSize "invalid global work size given")
  | some globalWorkSizes => pure (pushGlobalWorkSizes globalWorkSizes (List.range workDimensions) b)

/-- The loop over the offsets; it stops at an error. -/
def pushGlobalWorkOffsets (globalWorkOffsets : Nat → Nat) :
    List Nat → EnqueueNDRangeKernelBuilder → Checked EnqueueNDRangeKernelBuilder
  | [], b => pure b
  | i :: is, b => do
    Checked.check (decide (i < b.globalWorkSizes.length))
    if toSize (globalWorkOffsets i + b.globalWorkSizes.getD i 0) > b.dev.sizeTypeMax then
      pure (b.notifyError .invalidGlobalOffset "given global offset shift work items out of range")
    else
      pushGlobalWorkOffsets globalWorkOffsets is
        { b with globalWorkOffsets := b.globalWorkOffsets ++ [globalWorkOffsets i] }

def setGlobalWorkOffset (b : EnqueueNDRangeKernelBuilder) (globalWorkOffsets : Option (Nat → Nat)) :
    Checked EnqueueNDRangeKernelBuilder :=
  if b.workDimensions = 0 ∨ b.globalWorkSizes = [] then pure b
  else
    match globalWorkOffsets with
    | none => pure { b with globalWorkOffsets := List.replicate b.workDimensions 0 }
    | some globalWorkOffsets => pushGlobalWorkOffsets globalWorkOffsets (List.range b.workDimensions) b

/-- The loop over the local sizes, with the product so far; it returns at an error. -/
def pushLocalWorkSizes (desc : Kernel) (localWorkSizes : Nat → Nat) :
    List Nat → Nat → EnqueueNDRangeKernelBuilder → Checked EnqueueNDRangeKernelBuilder
  | [], workGroupSize, b =>
    pure (b.notifyErrorIf (decide (workGroupSize > b.dev.maxWorkGroupSize)) .invalidWorkGroupSize
      "work group size exceeds device limits")
  | i :: is, workGroupSize, b => do
    Checked.check (decide (i < b.dev.maxWorkItemSizes.length))
    if localWorkSizes i > b.dev.maxWorkItemSizes.getD i 0 then
      pure (b.notifyError .invalidWorkGroupSize "work group size exceeds device limits")
    else do
      Checked.check (decide (i < b.globalWorkSizes.length))
      Checked.check (localWorkSizes i != 0)
      if b.globalWorkSizes.getD i 0 % localWorkSizes i ≠ 0 then
        pure (b.notifyError .invalidWorkGroupSize "work group size does not divide number of work items")
      else do
        let required := desc.requiredWorkGroupSizes.getD []
        Checked.check (desc.requiredWorkGroupSizes.isNone || decide (i ≥ 3) || decide (i < required.length))
        if desc.requiredWorkGroupSizes.isSome ∧ (i ≥ 3 ∨ required.getD i 0 ≠ localWorkSizes i) then
          pure (b.notifyError .invalidWorkGroupSize "work group size does not match the one requested by the kernel")
        else
          pushLocalWorkSizes desc localWorkSizes is (toSize (workGroupSize * localWorkSizes i))
            { b with localWorkSizes := b.localWorkSizes ++ [localWorkSizes i] }

def setLocalWorkSize (b : EnqueueNDRangeKernelBuilder) (localWorkSizes : Option (Nat → Nat)) :
    Checked EnqueueNDRangeKernelBuilder := do
  let desc ← b.getKernel
  -- the required sizes are read off the function for the device
  Checked.check desc.isBuiltForDevice
  match localWorkSizes with
  | none => do
    let b := b.notifyErrorIf desc.requiredWorkGroupSizes.isSome .invalidWorkGroupSize
      "kernel requires fixed local work size"
    let (localWorkSizes, done) ← b.dev.computeGlobalWorkPartition b.globalWorkSizes b.localWorkSizes
    let b := { b with localWorkSizes }
    pure (b.notifyErrorIf (!done) .invalidWorkGroupSize "unable to partition global work on device")
  | some localWorkSizes => pushLocalWorkSizes desc localWorkSizes (List.range b.workDimensions) 1 b

/-- The loop over the wait list; it returns at an error. -/
def pushEvents : List (Option Nat) → EnqueueNDRangeKernelBuilder → EnqueueNDRangeKernelBuilder
  | [], b => b
  | none :: _, b => b.notifyError .invalidEventWaitList "invalid event"
  | some ev :: evs, b => pushEvents evs { b with waitList := b.waitList ++ [ev] }

/-- `CommandBuilder::SetWaitList`; an array of `n` events, or null. -/
def setWaitList (b : EnqueueNDRangeKernelBuilder) (n : Nat) (evs : Option (Nat → Option Nat)) :
    EnqueueNDRangeKernelBuilder :=
  match evs with
  | none => b.notifyErrorIf (decide (n ≠ 0)) .invalidEventWaitList "expected events wait list"
  | some evs =>
    if n = 0 then b.notifyError .invalidEventWaitList "unexpected events wait list"
    else pushEvents ((List.range n).map evs) b

/-- `Create`: the error that it returns, or the command. -/
def create (b : EnqueueNDRangeKernelBuilder) : Checked (Except ErrCode EnqueueNDRangeKernel) :=
  if b.errCode ≠ .success then pure (.error b.errCode)
  else do
    -- the assertion of the constructor of `DimensionInfo`
    Checked.check (b.globalWorkOffsets.length == b.globalWorkSizes.length &&
      b.globalWorkSizes.length == b.localWorkSizes.length)
    let kern ← b.getKernel
    pure (.ok { kern, dimInfo := .new b.globalWorkOffsets b.globalWorkSizes b.localWorkSizes, waitList := b.waitList })

end EnqueueNDRangeKernelBuilder

open EnqueueNDRangeKernelBuilder in
/-- The builder calls of `clEnqueueNDRangeKernel`. -/
def clEnqueueNDRangeKernel (ctx : Nat) (dev : Device) (kern : Option Kernel) (workDim : Nat)
    (globalWorkOffset globalWorkSize localWorkSize : Option (Nat → Nat)) (numEvents : Nat)
    (eventWaitList : Option (Nat → Option Nat)) : Checked (Except ErrCode EnqueueNDRangeKernel) := do
  let b ← EnqueueNDRangeKernelBuilder.new ctx dev kern workDim globalWorkSize
  let b ← b.setGlobalWorkOffset globalWorkOffset
  let b ← b.setLocalWorkSize localWorkSize
  (b.setWaitList numEvents eventWaitList).create

/-! ## An accepted launch -/

namespace EnqueueNDRangeKernelBuilder

variable {b : EnqueueNDRangeKernelBuilder}

theorem notifyErrorIf_success {c : Bool} {errCode : ErrCode} {msg : String} (he : errCode ≠ .success)
    (h : (b.notifyErrorIf c errCode msg).errCode = .success) : c = false ∧ b.notifyErrorIf c errCode msg = b := by
  cases c with
  | false => exact ⟨rfl, rfl⟩
  | true => exact absurd h he

theorem pushGlobalWorkSizes_success {sizes : Nat → Nat} {is : List Nat}
    (h : (pushGlobalWorkSizes sizes is b).errCode = .success) :
    pushGlobalWorkSizes sizes is b = { b with globalWorkSizes := b.globalWorkSizes ++ is.map sizes } ∧
      ∀ i ∈ is, 0 < sizes i ∧ sizes i ≤ b.dev.sizeTypeMax := by
  induction is generalizing b with
  | nil => simp [pushGlobalWorkSizes]
  | cons i is ih =>
    unfold pushGlobalWorkSizes at h ⊢
    split at h
    · cases h
    · next hi =>
      obtain ⟨h1, h2⟩ := ih h
      rw [if_neg hi, h1]
      refine ⟨by simp, List.forall_mem_cons.2 ⟨by omega, h2⟩⟩

theorem pushGlobalWorkOffsets_success {offsets : Nat → Nat} {is : List Nat}
    (h : (pushGlobalWorkOffsets offsets is b).val.errCode = .success) :
    (pushGlobalWorkOffsets offsets is b).val = { b with globalWorkOffsets := b.globalWorkOffsets ++ is.map offsets } := by
  induction is generalizing b with
  | nil => simp [pushGlobalWorkOffsets]
  | cons i is ih =>
    simp only [pushGlobalWorkOffsets, Checked.val_bind, Checked.val_ite] at h ⊢
    split at h
    · cases h
    · next hi => rw [if_neg hi, ih h]; simp

theorem pushLocalWorkSizes_success {desc : Kernel} {sizes : Nat → Nat} {is : List Nat} {workGroupSize : Nat}
    (hok : (pushLocalWorkSizes desc sizes is workGroupSize b).ok = true)
    (h : (pushLocalWorkSizes desc sizes is workGroupSize b).val.errCode = .success) :
    (pushLocalWorkSizes desc sizes is workGroupSize b).val =
        { b with localWorkSizes := b.localWorkSizes ++ is.map sizes } ∧
      ∀ i ∈ is, 0 < sizes i ∧ sizes i ∣ b.globalWorkSizes.getD i 0 ∧ sizes i ≤ b.dev.maxWorkItemSizes.getD i 0 := by
  induction is generalizing b workGroupSize with
  | nil =>
    refine ⟨?_, by simp⟩
    rw [pushLocalWorkSizes, Checked.val_pure] at h ⊢
    rw [(notifyErrorIf_success (by decide) h).2]
    simp
  | cons i is ih =>
    simp only [pushLocalWorkSizes, Checked.val_bind, Checked.val_ite, Checked.ok_bind, Checked.ok_ite,
      Checked.ok_check, Bool.and_eq_true] at h hok ⊢
    split at h
    · cases h
    next hmax =>
    rw [if_neg hmax] at hok ⊢
    split at h
    · cases h
    next hdvd =>
    rw [if_neg hdvd] at hok ⊢
    split at h
    · cases h
    next hreq =>
    rw [if_neg hreq] at hok ⊢
    simp only [Bool.and_eq_true] at hok
    obtain ⟨-, -, hne, -, hrec⟩ := hok
    obtain ⟨h1, h2⟩ := ih hrec h
    refine ⟨by rw [h1]; simp, List.forall_mem_cons.2 ⟨⟨?_, ?_, ?_⟩, h2⟩⟩
    · apply Nat.pos_of_ne_zero
      simpa using hne
    · apply Nat.dvd_of_mod_eq_zero
      simpa using hdvd
    · exact Nat.le_of_not_lt hmax

/-- What the builder has when the constructor is done without an error. -/
structure Sized (d : Device) (b : EnqueueNDRangeKernelBuilder) : Prop where
  dev : b.dev = d
  dims : b.globalWorkSizes.length = b.workDimensions
  pos : 0 < b.workDimensions
  le : b.workDimensions ≤ d.maxWorkItemDimensions
  sizes : ∀ g ∈ b.globalWorkSizes, 0 < g ∧ g ≤ d.sizeTypeMax
  offsets : b.globalWorkOffsets = []
  locals : b.localWorkSizes = []

theorem checkKernel_success (h : b.checkKernel.val.errCode = .success) : b.checkKernel.val = b := by
  simp only [checkKernel, Checked.val_bind, Checked.val_pure] at h ⊢
  generalize (getKernel _).val = desc at h ⊢
  -- without an error the four tests change nothing
  have h₄ := (notifyErrorIf_success (by decide) h).2
  rw [h₄] at h ⊢
  have h₃ := (notifyErrorIf_success (by decide) h).2
  rw [h₃] at h ⊢
  have h₂ := (notifyErrorIf_success (by decide) h).2
  rw [h₂] at h ⊢
  exact (notifyErrorIf_success (by decide) h).2

theorem setWorkDimensions_success {workDimensions : Nat} (h : (b.setWorkDimensions workDimensions).errCode = .success) :
    b.setWorkDimensions workDimensions = { b with workDimensions } ∧ 0 < workDimensions ∧
      workDimensions ≤ b.dev.maxWorkItemDimensions := by
  unfold setWorkDimensions at h ⊢
  split at h
  · cases h
  · next hd => rw [if_neg hd]; exact ⟨rfl, by omega, by omega⟩

theorem new_success {ctx : Nat} {dev : Device} {kern : Option Kernel} {workDimensions : Nat}
    {sizes : Option (Nat → Nat)} (h : (new ctx dev kern workDimensions sizes).val.errCode = .success) :
    Sized dev (new ctx dev kern workDimensions sizes).val := by
  cases sizes with
  | none => cases h
  | some sizes =>
    simp only [new, Checked.val_bind, Checked.val_pure] at h ⊢
    obtain ⟨hsizes, hall⟩ := pushGlobalWorkSizes_success h
    rw [hsizes] at h ⊢
    obtain ⟨hdims, hpos, hle⟩ := setWorkDimensions_success h
    rw [hdims] at h hall ⊢
    rw [checkKernel_success h] at hle hall ⊢
    refine ⟨rfl, by simp, hpos, hle, ?_, rfl, rfl⟩
    intro g hg
    rw [List.nil_append, List.mem_map] at hg
    obtain ⟨i, hi, rfl⟩ := hg
    exact hall i hi

theorem setGlobalWorkOffset_success {offsets : Option (Nat → Nat)}
    (h : (b.setGlobalWorkOffset offsets).val.errCode = .success) :
    ∃ os, (b.setGlobalWorkOffset offsets).val = { b with globalWorkOffsets := os } ∧
      ∀ dev, Sized dev b → os.length = b.workDimensions := by
  unfold setGlobalWorkOffset at h ⊢
  split at h
  · next hz =>
    rw [if_pos hz]
    refine ⟨b.globalWorkOffsets, rfl, fun dev hs => ?_⟩
    have hpos := hs.pos
    have hdims := hs.dims
    rcases hz with hz | hz
    · omega
    · rw [hz, List.length_nil] at hdims
      omega
  · next hne =>
    rw [if_neg hne]
    cases offsets with
    | none => exact ⟨List.replicate b.workDimensions 0, rfl, fun _ _ => List.length_replicate⟩
    | some offsets =>
      refine ⟨_, pushGlobalWorkOffsets_success h, fun dev hs => ?_⟩
      simp [hs.offsets]

/-- Local sizes that passed the tests, or that the device chose. -/
def Partitioned (dev : Device) (sizes ls : List Nat) : Prop :=
  (ls.length = sizes.length ∧ ∀ i < sizes.length,
    0 < ls.getD i 0 ∧ ls.getD i 0 ∣ sizes.getD i 0 ∧ ls.getD i 0 ≤ dev.maxWorkItemSizes.getD i 0) ∨
  ((dev.computeGlobalWorkPartition sizes []).ok = true ∧ (dev.computeGlobalWorkPartition sizes []).val = (ls, true))

theorem setLocalWorkSize_success {sizes : Option (Nat → Nat)} (hok : (b.setLocalWorkSize sizes).ok = true)
    (h : (b.setLocalWorkSize sizes).val.errCode = .success) :
    ∃ ls, (b.setLocalWorkSize sizes).val = { b with localWorkSizes := ls } ∧
      (b.localWorkSizes = [] → b.globalWorkSizes.length = b.workDimensions →
        Partitioned b.dev b.globalWorkSizes ls) := by
  simp only [setLocalWorkSize, Checked.val_bind, Checked.ok_bind, Bool.and_eq_true] at hok h ⊢
  obtain ⟨-, -, hok⟩ := hok
  generalize (getKernel b).val = desc at hok h ⊢
  cases sizes with
  | some sizes =>
    obtain ⟨h1, h2⟩ := pushLocalWorkSizes_success hok h
    refine ⟨_, h1, fun hl hd => .inl ?_⟩
    rw [hl, List.nil_append]
    refine ⟨by simp [hd], fun i hi => ?_⟩
    rw [hd] at hi
    have hf := h2 i (List.mem_range.2 hi)
    simpa [List.getD_eq_getElem?_getD, hi] using hf
  | none =>
    simp only [Checked.val_bind, Checked.ok_bind, Checked.val_pure, Checked.ok_pure, Bool.and_true] at hok h ⊢
    obtain ⟨hdone, h₂⟩ := notifyErrorIf_success (by decide) h
    rw [h₂] at h ⊢
    have h₁ : b.notifyErrorIf desc.requiredWorkGroupSizes.isSome .invalidWorkGroupSize
        "kernel requires fixed local work size" = b := (notifyErrorIf_success (by decide) h).2
    rw [h₁] at hdone hok ⊢
    refine ⟨_, rfl, fun hl _ => .inr ?_⟩
    rw [hl] at hok hdone ⊢
    exact ⟨hok, Prod.ext rfl (by simpa using hdone)⟩

theorem pushEvents_success {evs : List (Option Nat)} (h : (pushEvents evs b).errCode = .success) :
    ∃ ws, pushEvents evs b = { b with waitList := ws } := by
  induction evs generalizing b with
  | nil => exact ⟨b.waitList, rfl⟩
  | cons ev evs ih =>
    cases ev with
    | none => cases h
    | some ev => exact ih h

theorem setWaitList_success {n : Nat} {evs : Option (Nat → Option Nat)}
    (h : (b.setWaitList n evs).errCode = .success) : ∃ ws, b.setWaitList n evs = { b with waitList := ws } := by
  unfold setWaitList at h ⊢
  cases evs with
  | none => exact ⟨b.waitList, (notifyErrorIf_success (by decide) h).2⟩
  | some evs =>
    dsimp only at h ⊢
    split at h
    · cases h
    · next hn => rw [if_neg hn]; exact pushEvents_success h

theorem create_success {cmd : EnqueueNDRangeKernel} (h : b.create.val = .ok cmd) :
    b.errCode = .success ∧ cmd.dimInfo = .new b.globalWorkOffsets b.globalWorkSizes b.localWorkSizes := by
  simp only [create, Checked.val_ite] at h
  split at h
  · cases h
  · next he =>
    simp only [Checked.val_bind, Checked.val_pure, Except.ok.injEq] at h
    exact ⟨by simpa using he, by rw [← h]⟩

end EnqueueNDRangeKernelBuilder

/-- What is known of the sizes of a launch that is accepted without a check failing. -/
theorem accepted_spec {ctx : Nat} {dev : Device} {kern : Option Kernel} {workDim : Nat}
    {globalWorkOffset globalWorkSize localWorkSize : Option (Nat → Nat)} {numEvents : Nat}
    {eventWaitList : Option (Nat → Option Nat)} {cmd : EnqueueNDRangeKernel}
    (hok : (clEnqueueNDRangeKernel ctx dev kern workDim globalWorkOffset globalWorkSize localWorkSize numEvents
      eventWaitList).ok = true)
    (h : (clEnqueueNDRangeKernel ctx dev kern workDim globalWorkOffset globalWorkSize localWorkSize numEvents
      eventWaitList).val = .ok cmd) :
    ∃ os sizes ls, cmd.dimInfo = .new os sizes ls ∧ os.length = sizes.length ∧ 0 < sizes.length ∧
      sizes.length ≤ dev.maxWorkItemDimensions ∧ (∀ g ∈ sizes, 0 < g ∧ g ≤ dev.sizeTypeMax) ∧
      EnqueueNDRangeKernelBuilder.Partitioned dev sizes ls := by
  simp only [clEnqueueNDRangeKernel, Checked.val_bind, Checked.ok_bind, Bool.and_eq_true] at hok h
  obtain ⟨-, -, hok, -⟩ := hok
  -- an error stays, so there was none after any of the calls
  obtain ⟨h₄, hcmd⟩ := EnqueueNDRangeKernelBuilder.create_success h
  obtain ⟨ws, hw⟩ := EnqueueNDRangeKernelBuilder.setWaitList_success h₄
  rw [hw] at h₄ hcmd
  obtain ⟨ls, hl, hls⟩ := EnqueueNDRangeKernelBuilder.setLocalWorkSize_success hok h₄
  rw [hl] at h₄ hcmd
  obtain ⟨os, ho, hos⟩ := EnqueueNDRangeKernelBuilder.setGlobalWorkOffset_success h₄
  rw [ho] at h₄ hcmd hls
  have hs := EnqueueNDRangeKernelBuilder.new_success h₄
  have hpart := hls hs.locals hs.dims
  dsimp only at hpart
  rw [hs.dev] at hpart
  exact ⟨os, _, ls, hcmd, (hos dev hs).trans hs.dims.symm, hs.dims ▸ hs.pos, hs.dims ▸ hs.le, hs.sizes, hpart⟩

/-! ## When a launch is accepted -/

namespace EnqueueNDRangeKernelBuilder

variable {b : EnqueueNDRangeKernelBuilder}

/-- The tests of given local sizes. -/
def LocalSizesFit (dev : Device) (required : Option (List Nat)) (sizes : Nat → Nat) (workDim : Nat) (ls : Nat → Nat) :
    Prop :=
  (∀ i < workDim, ls i ≤ dev.maxWorkItemSizes.getD i 0 ∧ sizes i % ls i = 0 ∧
    ∀ req, required = some req → i < 3 ∧ req.getD i 0 = ls i) ∧
  (List.range workDim).foldl (fun p i => toSize (p * ls i)) 1 ≤ dev.maxWorkGroupSize

/-- The tests of a wait list. -/
def WaitListFits (n : Nat) : Option (Nat → Option Nat) → Prop
  | none => n = 0
  | some evs => n ≠ 0 ∧ ∀ i < n, (evs i).isSome = true

theorem notifyErrorIf_iff {c : Bool} {errCode : ErrCode} {msg : String} (he : errCode ≠ .success) :
    (b.notifyErrorIf c errCode msg).errCode = .success ↔ c = false ∧ b.errCode = .success := by
  cases c with
  | false => simp [notifyErrorIf]
  | true => simp [notifyErrorIf, notifyError, he]

@[simp] theorem notifyErrorIf_dev {c : Bool} {errCode : ErrCode} {msg : String} :
    (b.notifyErrorIf c errCode msg).dev = b.dev := by
  cases c <;> rfl

@[simp] theorem notifyErrorIf_ctx {c : Bool} {errCode : ErrCode} {msg : String} :
    (b.notifyErrorIf c errCode msg).ctx = b.ctx := by
  cases c <;> rfl

@[simp] theorem notifyErrorIf_kern {c : Bool} {errCode : ErrCode} {msg : String} :
    (b.notifyErrorIf c errCode msg).kern = b.kern := by
  cases c <;> rfl

@[simp] theorem notifyErrorIf_sizes {c : Bool} {errCode : ErrCode} {msg : String} :
    (b.notifyErrorIf c errCode msg).globalWorkSizes = b.globalWorkSizes ∧
      (b.notifyErrorIf c errCode msg).localWorkSizes = b.localWorkSizes := by
  cases c <;> exact ⟨rfl, rfl⟩

theorem pushGlobalWorkSizes_iff {sizes : Nat → Nat} {is : List Nat} :
    (pushGlobalWorkSizes sizes is b).errCode = .success ↔
      b.errCode = .success ∧ ∀ i ∈ is, 0 < sizes i ∧ sizes i ≤ b.dev.sizeTypeMax := by
  induction is generalizing b with
  | nil => simp [pushGlobalWorkSizes]
  | cons i is ih =>
    unfold pushGlobalWorkSizes
    split
    · next hi =>
      refine iff_of_false (by simp [notifyError]) ?_
      rintro ⟨-, hall⟩
      have := hall i List.mem_cons_self
      omega
    · next hi =>
      rw [ih, List.forall_mem_cons]
      exact and_congr_right fun _ => ⟨fun h => ⟨by omega, h⟩, And.right⟩

theorem pushGlobalWorkOffsets_iff {offsets : Nat → Nat} {is : List Nat} :
    (pushGlobalWorkOffsets offsets is b).val.errCode = .success ↔
      b.errCode = .success ∧ ∀ i ∈ is, toSize (offsets i + b.globalWorkSizes.getD i 0) ≤ b.dev.sizeTypeMax := by
  induction is generalizing b with
  | nil => simp [pushGlobalWorkOffsets]
  | cons i is ih =>
    simp only [pushGlobalWorkOffsets, Checked.val_bind, Checked.val_ite]
    split
    · next hi =>
      refine iff_of_false (by simp [notifyError]) ?_
      rintro ⟨-, hall⟩
      exact absurd (hall i List.mem_cons_self) (Nat.not_le_of_gt hi)
    · next hi =>
      rw [ih, List.forall_mem_cons]
      exact and_congr_right fun _ => ⟨fun h => ⟨Nat.le_of_not_lt hi, h⟩, And.right⟩

theorem pushLocalWorkSizes_iff {desc : Kernel} {sizes : Nat → Nat} {is : List Nat} {workGroupSize : Nat} :
    (pushLocalWorkSizes desc sizes is workGroupSize b).val.errCode = .success ↔
      b.errCode = .success ∧
      (∀ i ∈ is, sizes i ≤ b.dev.maxWorkItemSizes.getD i 0 ∧ b.globalWorkSizes.getD i 0 % sizes i = 0 ∧
        ∀ req, desc.requiredWorkGroupSizes = some req → i < 3 ∧ req.getD i 0 = sizes i) ∧
      is.foldl (fun p i => toSize (p * sizes i)) workGroupSize ≤ b.dev.maxWorkGroupSize := by
  induction is generalizing b workGroupSize with
  | nil => simp [pushLocalWorkSizes, notifyErrorIf_iff, and_comm]
  | cons i is ih =>
    simp only [pushLocalWorkSizes, Checked.val_bind, Checked.val_ite, List.forall_mem_cons, List.foldl_cons]
    split
    · next hmax =>
      refine iff_of_false (by simp [notifyError]) ?_
      rintro ⟨-, ⟨⟨hle, -⟩, -⟩, -⟩
      exact absurd hle (Nat.not_le_of_gt hmax)
    next hmax =>
    split
    · next hdvd =>
      refine iff_of_false (by simp [notifyError]) ?_
      rintro ⟨-, ⟨⟨-, hmod, -⟩, -⟩, -⟩
      exact hdvd hmod
    next hdvd =>
    split
    · next hreq =>
      refine iff_of_false (by simp [notifyError]) ?_
      rintro ⟨-, ⟨⟨-, -, hfix⟩, -⟩, -⟩
      obtain ⟨req, hr⟩ := Option.isSome_iff_exists.1 hreq.1
      obtain ⟨hlt, heq⟩ := hfix req hr
      rcases hreq.2 with hge | hne
      · omega
      · rw [hr] at hne
        exact hne heq
    · next hreq =>
      rw [ih]
      have hfix : ∀ req, desc.requiredWorkGroupSizes = some req → i < 3 ∧ req.getD i 0 = sizes i := by
        intro req hr
        by_contra hnot
        refine hreq ⟨by simp [hr], ?_⟩
        by_cases hlt : i < 3
        · exact .inr fun heq => hnot ⟨hlt, by rw [hr] at heq; exact heq⟩
        · exact .inl (Nat.le_of_not_lt hlt)
      refine and_congr_right fun _ => and_congr_left fun _ => ?_
      exact ⟨fun h => ⟨⟨Nat.le_of_not_lt hmax, not_not.1 hdvd, hfix⟩, h⟩, And.right⟩

theorem pushEvents_iff {evs : List (Option Nat)} :
    (pushEvents evs b).errCode = .success ↔ b.errCode = .success ∧ ∀ ev ∈ evs, ev.isSome = true := by
  induction evs generalizing b with
  | nil => simp [pushEvents]
  | cons ev evs ih =>
    cases ev with
    | none => simp [pushEvents, notifyError]
    | some ev => simp [pushEvents, ih]

theorem setWaitList_iff {n : Nat} {evs : Option (Nat → Option Nat)} :
    (b.setWaitList n evs).errCode = .success ↔ b.errCode = .success ∧ WaitListFits n evs := by
  unfold setWaitList WaitListFits
  cases evs with
  | none => simp [notifyErrorIf_iff, and_comm]
  | some evs =>
    dsimp only
    split
    · next hn => simp [notifyError, hn]
    · next hn => simp [pushEvents_iff, hn]

/-- The tests of the offsets. -/
def OffsetsFit (dev : Device) (sizes : Nat → Nat) (workDim : Nat) : Option (Nat → Nat) → Prop
  | none => True
  | some os => ∀ i < workDim, toSize (os i + sizes i) ≤ dev.sizeTypeMax

/-- The tests of the local sizes, given or left to the device. -/
def LocalsFit (dev : Device) (required : Option (List Nat)) (sizes : Nat → Nat) (workDim : Nat) :
    Option (Nat → Nat) → Prop
  | none => required = none ∧ (dev.computeGlobalWorkPartition ((List.range workDim).map sizes) []).val.2 = true
  | some ls => LocalSizesFit dev required sizes workDim ls

theorem checkKernel_iff {desc : Kernel} (hk : b.kern = some desc) :
    b.checkKernel.val.errCode = .success ↔ b.errCode = .success ∧ desc.isBuiltForDevice = true ∧
      desc.context = b.ctx ∧ desc.areAllArgsSpecified = true := by
  simp only [checkKernel, Checked.val_bind, Checked.val_pure]
  have hget : (getKernel (b.notifyErrorIf b.kern.isNone .invalidKernel "cannot enqueue an invalid kernel")).val = desc := by
    simp [getKernel, hk]
  rw [hget]
  simp only [notifyErrorIf_iff, notifyErrorIf_ctx, hk, ne_eq, reduceCtorEq, not_false_eq_true, Option.isNone_some,
    Bool.not_eq_false', bne_eq_false_iff_eq, true_and]
  tauto

theorem checkKernel_dev (b : EnqueueNDRangeKernelBuilder) : b.checkKernel.val.dev = b.dev := by
  simp only [checkKernel, Checked.val_bind, Checked.val_pure, notifyErrorIf_dev]

theorem setWorkDimensions_iff {workDimensions : Nat} : (b.setWorkDimensions workDimensions).errCode = .success ↔
    b.errCode = .success ∧ 1 ≤ workDimensions ∧ workDimensions ≤ b.dev.maxWorkItemDimensions := by
  unfold setWorkDimensions
  split
  · next hd => exact iff_of_false (by simp [notifyError]) (by omega)
  · next hd => exact ⟨fun h => ⟨h, by omega, by omega⟩, And.left⟩

theorem setWorkDimensions_dev (b : EnqueueNDRangeKernelBuilder) (workDimensions : Nat) :
    (b.setWorkDimensions workDimensions).dev = b.dev := by
  unfold setWorkDimensions
  split <;> rfl

theorem new_iff {ctx : Nat} {dev : Device} {desc : Kernel} {workDim : Nat} {sizes : Option (Nat → Nat)} :
    (new ctx dev (some desc) workDim sizes).val.errCode = .success ↔
      (desc.isBuiltForDevice = true ∧ desc.context = ctx ∧ desc.areAllArgsSpecified = true) ∧
      (1 ≤ workDim ∧ workDim ≤ dev.maxWorkItemDimensions) ∧
      ∃ gs, sizes = some gs ∧ ∀ i < workDim, 0 < gs i ∧ gs i ≤ dev.sizeTypeMax := by
  cases sizes with
  | none => simp [new, notifyError]
  | some gs =>
    simp only [new, Checked.val_bind, Checked.val_pure, pushGlobalWorkSizes_iff, setWorkDimensions_iff,
      checkKernel_iff (b := { ctx, dev, kern := some desc }) rfl]
    constructor
    · rintro ⟨⟨⟨-, hkern⟩, hdims⟩, hsizes⟩
      rw [checkKernel_dev] at hdims
      rw [setWorkDimensions_dev, checkKernel_dev] at hsizes
      exact ⟨hkern, hdims, gs, rfl, fun i hi => hsizes i (List.mem_range.2 hi)⟩
    · rintro ⟨hkern, hdims, gs', hgs, hsizes⟩
      cases hgs
      rw [setWorkDimensions_dev, checkKernel_dev]
      exact ⟨⟨⟨trivial, hkern⟩, hdims⟩, fun i hi => hsizes i (List.mem_range.1 hi)⟩

/-- The builder after the constructor. -/
theorem new_val {ctx : Nat} {dev : Device} {kern : Option Kernel} {workDim : Nat} {gs : Nat → Nat}
    (h : (new ctx dev kern workDim (some gs)).val.errCode = .success) :
    (new ctx dev kern workDim (some gs)).val =
      { ctx, dev, kern, workDimensions := workDim, globalWorkSizes := (List.range workDim).map gs } := by
  simp only [new, Checked.val_bind, Checked.val_pure] at h ⊢
  obtain ⟨hsizes, -⟩ := pushGlobalWorkSizes_success h
  rw [hsizes] at h ⊢
  have hdims := (setWorkDimensions_success h).1
  rw [hdims] at h ⊢
  rw [checkKernel_success h]
  rfl

theorem setGlobalWorkOffset_iff {offsets : Option (Nat → Nat)} (hd : 0 < b.workDimensions)
    (hl : b.globalWorkSizes.length = b.workDimensions) :
    (b.setGlobalWorkOffset offsets).val.errCode = .success ↔
      b.errCode = .success ∧ OffsetsFit b.dev (b.globalWorkSizes.getD · 0) b.workDimensions offsets := by
  unfold setGlobalWorkOffset
  rw [if_neg]
  · cases offsets with
    | none => simp [OffsetsFit]
    | some os => simp [OffsetsFit, pushGlobalWorkOffsets_iff]
  · rintro (hz | hz)
    · omega
    · rw [hz, List.length_nil] at hl
      omega

theorem setLocalWorkSize_iff {desc : Kernel} (hk : b.kern = some desc) {sizes : Option (Nat → Nat)} {gs : Nat → Nat}
    (hgs : b.globalWorkSizes = (List.range b.workDimensions).map gs) (hls : b.localWorkSizes = []) :
    (b.setLocalWorkSize sizes).val.errCode = .success ↔
      b.errCode = .success ∧ LocalsFit b.dev desc.requiredWorkGroupSizes gs b.workDimensions sizes := by
  have hget : (getKernel b).val = desc := by simp [getKernel, hk]
  simp only [setLocalWorkSize, Checked.val_bind, hget]
  cases sizes with
  | none =>
    simp only [LocalsFit, Checked.val_bind, Checked.val_pure, notifyErrorIf_iff, ne_eq, reduceCtorEq, not_false_eq_true,
      notifyErrorIf_dev, notifyErrorIf_sizes, hgs, hls, Option.isSome_eq_false_iff, Option.isNone_iff_eq_none,
      Bool.not_eq_false']
    tauto
  | some ls =>
    rw [pushLocalWorkSizes_iff, LocalsFit, LocalSizesFit]
    refine and_congr_right fun _ => and_congr_left fun _ => ?_
    simp only [List.mem_range]
    refine forall_congr' fun i => forall_congr' fun hi => ?_
    have hgi : b.globalWorkSizes.getD i 0 = gs i := by
      rw [hgs, List.getD_eq_getElem?_getD]
      simp [hi]
    rw [hgi]

/-- The command that a builder without an error makes. -/
theorem create_iff : (∃ cmd, b.create.val = .ok cmd) ↔ b.errCode = .success := by
  unfold create
  rw [Checked.val_ite]
  split
  · next he => simp [he]
  · next he => simp [not_not.1 he]

end EnqueueNDRangeKernelBuilder

open EnqueueNDRangeKernelBuilder

/-- What a launch has to meet besides the arguments of the kernel. -/
def Acceptable (ctx : Nat) (dev : Device) (desc : Kernel) (workDim : Nat)
    (globalWorkOffset globalWorkSize localWorkSize : Option (Nat → Nat)) (numEvents : Nat)
    (eventWaitList : Option (Nat → Option Nat)) : Prop :=
  (desc.isBuiltForDevice = true ∧ desc.context = ctx) ∧
  (1 ≤ workDim ∧ workDim ≤ dev.maxWorkItemDimensions) ∧
  (∃ gs, globalWorkSize = some gs ∧ (∀ i < workDim, 0 < gs i ∧ gs i ≤ dev.sizeTypeMax) ∧
    OffsetsFit dev gs workDim globalWorkOffset ∧
    LocalsFit dev desc.requiredWorkGroupSizes gs workDim localWorkSize) ∧
  WaitListFits numEvents eventWaitList

theorem OffsetsFit.congr {dev : Device} {workDim : Nat} (gs gs' : Nat → Nat) (h : ∀ i < workDim, gs i = gs' i)
    (offsets : Option (Nat → Nat)) : OffsetsFit dev gs workDim offsets ↔ OffsetsFit dev gs' workDim offsets := by
  cases offsets with
  | none => rfl
  | some os =>
    refine forall_congr' fun i => forall_congr' fun hi => ?_
    rw [h i hi]

theorem setGlobalWorkOffset_before {b : EnqueueNDRangeKernelBuilder} {offsets : Option (Nat → Nat)}
    (h : (b.setGlobalWorkOffset offsets).val.errCode = .success) : b.errCode = .success := by
  unfold setGlobalWorkOffset at h
  split at h
  · exact h
  · cases offsets with
    | none => exact h
    | some os => exact (pushGlobalWorkOffsets_iff.1 h).1

theorem setLocalWorkSize_before {b : EnqueueNDRangeKernelBuilder} {sizes : Option (Nat → Nat)}
    (h : (b.setLocalWorkSize sizes).val.errCode = .success) : b.errCode = .success := by
  simp only [setLocalWorkSize, Checked.val_bind] at h
  cases sizes with
  | none =>
    simp only [Checked.val_bind, Checked.val_pure] at h
    exact ((notifyErrorIf_iff (by decide)).1 ((notifyErrorIf_iff (by decide)).1 h).2).2
  | some ls => exact (pushLocalWorkSizes_iff.1 h).1

/-- The offsets and the local sizes, after a constructor without an error. -/
theorem sizes_accepted_iff {ctx : Nat} {dev : Device} {desc : Kernel} {workDim : Nat} {gs : Nat → Nat}
    {offsets localSizes : Option (Nat → Nat)} (hd : 0 < workDim)
    (h : (new ctx dev (some desc) workDim (some gs)).val.errCode = .success) :
    (setLocalWorkSize (setGlobalWorkOffset (new ctx dev (some desc) workDim (some gs)).val offsets).val
        localSizes).val.errCode = .success ↔
      OffsetsFit dev gs workDim offsets ∧ LocalsFit dev desc.requiredWorkGroupSizes gs workDim localSizes := by
  have hfit : (setGlobalWorkOffset (new ctx dev (some desc) workDim (some gs)).val offsets).val.errCode = .success ↔
      OffsetsFit dev gs workDim offsets := by
    rw [new_val h, setGlobalWorkOffset_iff hd (by simp)]
    rw [OffsetsFit.congr _ gs fun i hi => by simp [List.getD_eq_getElem?_getD, hi]]
    simp
  by_cases ho : (setGlobalWorkOffset (new ctx dev (some desc) workDim (some gs)).val offsets).val.errCode = .success
  · obtain ⟨os, hos, -⟩ := setGlobalWorkOffset_success ho
    rw [hos] at ho ⊢
    rw [new_val h] at ho ⊢
    rw [setLocalWorkSize_iff (show _ = some desc from rfl) (show _ = (List.range workDim).map gs from rfl) rfl]
    rw [← hfit, hos, new_val h]
  · exact iff_of_false (fun hl => ho (setLocalWorkSize_before hl)) fun hf => ho (hfit.2 hf.1)

theorem launch_accepted_iff {ctx : Nat} {dev : Device} {desc : Kernel} {workDim : Nat}
    {globalWorkOffset globalWorkSize localWorkSize : Option (Nat → Nat)} {numEvents : Nat}
    {eventWaitList : Option (Nat → Option Nat)} :
    (∃ cmd, (clEnqueueNDRangeKernel ctx dev (some desc) workDim globalWorkOffset globalWorkSize localWorkSize numEvents
      eventWaitList).val = .ok cmd) ↔
    desc.areAllArgsSpecified = true ∧
      Acceptable ctx dev desc workDim globalWorkOffset globalWorkSize localWorkSize numEvents eventWaitList := by
  simp only [clEnqueueNDRangeKernel, Checked.val_bind, create_iff, setWaitList_iff]
  constructor
  · rintro ⟨hl, hw⟩
    have hn := setGlobalWorkOffset_before (setLocalWorkSize_before hl)
    obtain ⟨⟨hbuilt, hctx, hargs⟩, hdims, gs, rfl, hsizes⟩ := new_iff.1 hn
    obtain ⟨ho, hl⟩ := (sizes_accepted_iff hdims.1 hn).1 hl
    exact ⟨hargs, ⟨hbuilt, hctx⟩, hdims, ⟨gs, rfl, hsizes, ho, hl⟩, hw⟩
  · rintro ⟨hargs, ⟨hbuilt, hctx⟩, hdims, ⟨gs, rfl, hsizes, ho, hl⟩, hw⟩
    have hn := new_iff.2 ⟨⟨hbuilt, hctx, hargs⟩, hdims, gs, rfl, hsizes⟩
    exact ⟨(sizes_accepted_iff hdims.1 hn).2 ⟨ho, hl⟩, hw⟩

/-! ## The builder of an accepted launch -/

/-- The builder before `Create`. -/
def launchBuilder (ctx : Nat) (dev : Device) (kern : Option Kernel) (workDim : Nat)
    (globalWorkOffset globalWorkSize localWorkSize : Option (Nat → Nat)) (numEvents : Nat)
    (eventWaitList : Option (Nat → Option Nat)) : Checked EnqueueNDRangeKernelBuilder := do
  let b ← EnqueueNDRangeKernelBuilder.new ctx dev kern workDim globalWorkSize
  let b ← b.setGlobalWorkOffset globalWorkOffset
  let b ← b.setLocalWorkSize localWorkSize
  pure (b.setWaitList numEvents eventWaitList)

theorem clEnqueueNDRangeKernel_eq (ctx : Nat) (dev : Device) (kern : Option Kernel) (workDim : Nat)
    (globalWorkOffset globalWorkSize localWorkSize : Option (Nat → Nat)) (numEvents : Nat)
    (eventWaitList : Option (Nat → Option Nat)) :
    clEnqueueNDRangeKernel ctx dev kern workDim globalWorkOffset globalWorkSize localWorkSize numEvents eventWaitList =
      launchBuilder ctx dev kern workDim globalWorkOffset globalWorkSize localWorkSize numEvents eventWaitList >>=
        create := by
  simp only [clEnqueueNDRangeKernel, launchBuilder, bind_assoc, pure_bind]

/-- The offsets in the builder; without an array they are zero. -/
def givenOffsets (workDim : Nat) : Option (Nat → Nat) → List Nat
  | none => List.replicate workDim 0
  | some os => (List.range workDim).map os

theorem setGlobalWorkOffset_val {b : EnqueueNDRangeKernelBuilder} {offsets : Option (Nat → Nat)}
    (hd : 0 < b.workDimensions) (hl : b.globalWorkSizes.length = b.workDimensions) (ho : b.globalWorkOffsets = [])
    (h : (b.setGlobalWorkOffset offsets).val.errCode = .success) :
    (b.setGlobalWorkOffset offsets).val = { b with globalWorkOffsets := givenOffsets b.workDimensions offsets } := by
  have hne : ¬ (b.workDimensions = 0 ∨ b.globalWorkSizes = []) := by
    rintro (hz | hz)
    · omega
    · rw [hz, List.length_nil] at hl
      omega
  unfold setGlobalWorkOffset at h ⊢
  rw [if_neg hne] at h ⊢
  cases offsets with
  | none => rfl
  | some os => rw [pushGlobalWorkOffsets_success h, ho, List.nil_append, givenOffsets]

/-- Local sizes that were given are the ones in the builder, and their product passed its test. -/
theorem setLocalWorkSize_given {b : EnqueueNDRangeKernelBuilder} {sizes : Nat → Nat} (hls : b.localWorkSizes = [])
    (hok : (b.setLocalWorkSize (some sizes)).ok = true) (h : (b.setLocalWorkSize (some sizes)).val.errCode = .success) :
    (b.setLocalWorkSize (some sizes)).val.localWorkSizes = (List.range b.workDimensions).map sizes ∧
      (List.range b.workDimensions).foldl (fun p i => toSize (p * sizes i)) 1 ≤ b.dev.maxWorkGroupSize := by
  simp only [setLocalWorkSize, Checked.val_bind, Checked.ok_bind, Bool.and_eq_true] at hok h ⊢
  obtain ⟨-, -, hok⟩ := hok
  rw [(pushLocalWorkSizes_success hok h).1, hls]
  exact ⟨rfl, (pushLocalWorkSizes_iff.1 h).2.2⟩

/-- Local sizes that were not given are those that the device chose. -/
theorem setLocalWorkSize_chosen {b : EnqueueNDRangeKernelBuilder} (hls : b.localWorkSizes = [])
    (hok : (b.setLocalWorkSize none).ok = true) (h : (b.setLocalWorkSize none).val.errCode = .success) :
    (b.dev.computeGlobalWorkPartition b.globalWorkSizes []).ok = true ∧
      (b.dev.computeGlobalWorkPartition b.globalWorkSizes []).val = ((b.setLocalWorkSize none).val.localWorkSizes, true) := by
  simp only [setLocalWorkSize, Checked.val_bind, Checked.ok_bind, Checked.val_pure, Bool.and_eq_true, notifyErrorIf_dev,
    notifyErrorIf_sizes, hls] at hok h ⊢
  obtain ⟨hdone, -⟩ := notifyErrorIf_success (by decide) h
  exact ⟨hok.2.2.1, Prod.ext rfl (by simpa using hdone)⟩

/-- What the builder has after calls without an error. -/
structure BuiltLaunch (dev : Device) (workDim : Nat) (globalWorkOffset globalWorkSize localWorkSize : Option (Nat → Nat))
    (b : EnqueueNDRangeKernelBuilder) (gs : Nat → Nat) : Prop where
  given : globalWorkSize = some gs
  kern : b.kern.isSome = true
  workDimensions : b.workDimensions = workDim
  offsets : b.globalWorkOffsets = givenOffsets workDim globalWorkOffset
  sizes : b.globalWorkSizes = (List.range workDim).map gs
  dims : 1 ≤ workDim ∧ workDim ≤ dev.maxWorkItemDimensions
  fit : ∀ i < workDim, 0 < gs i ∧ gs i ≤ dev.sizeTypeMax
  offsetsFit : OffsetsFit dev gs workDim globalWorkOffset
  partitioned : Partitioned dev ((List.range workDim).map gs) b.localWorkSizes
  locals : ∀ ls, localWorkSize = some ls → b.localWorkSizes = (List.range workDim).map ls ∧
    (List.range workDim).foldl (fun p i => toSize (p * ls i)) 1 ≤ dev.maxWorkGroupSize
  chosen : localWorkSize = none → (dev.computeGlobalWorkPartition ((List.range workDim).map gs) []).ok = true ∧
    (dev.computeGlobalWorkPartition ((List.range workDim).map gs) []).val = (b.localWorkSizes, true)

theorem launchBuilder_success {ctx : Nat} {dev : Device} {kern : Option Kernel} {workDim : Nat}
    {globalWorkOffset globalWorkSize localWorkSize : Option (Nat → Nat)} {numEvents : Nat}
    {eventWaitList : Option (Nat → Option Nat)}
    (hok : (launchBuilder ctx dev kern workDim globalWorkOffset globalWorkSize localWorkSize numEvents
      eventWaitList).ok = true)
    (h : (launchBuilder ctx dev kern workDim globalWorkOffset globalWorkSize localWorkSize numEvents
      eventWaitList).val.errCode = .success) :
    ∃ gs, BuiltLaunch dev workDim globalWorkOffset globalWorkSize localWorkSize
      (launchBuilder ctx dev kern workDim globalWorkOffset globalWorkSize localWorkSize numEvents eventWaitList).val gs := by
  simp only [launchBuilder, Checked.val_bind, Checked.ok_bind, Checked.val_pure, Bool.and_eq_true] at hok h ⊢
  obtain ⟨hnew, -, hok, -⟩ := hok
  obtain ⟨ws, hw⟩ := setWaitList_success h
  -- an error stays, so there was none after any of the calls
  have hl := (setWaitList_iff.1 h).1
  have ho := setLocalWorkSize_before hl
  have hn := setGlobalWorkOffset_before ho
  obtain ⟨desc, rfl⟩ : ∃ desc, kern = some desc := by
    cases kern with
    | some desc => exact ⟨desc, rfl⟩
    | none => cases globalWorkSize <;> cases hnew
  obtain ⟨-, hdims, gs, rfl, hfit⟩ := new_iff.1 hn
  have hoffsets := ((sizes_accepted_iff hdims.1 hn).1 hl).1
  have hval := setGlobalWorkOffset_val
    (b := { ctx, dev, kern := some desc, workDimensions := workDim, globalWorkSizes := (List.range workDim).map gs })
    hdims.1 (by simp) rfl (new_val hn ▸ ho)
  rw [hw]
  rw [new_val hn, hval] at hl hok ⊢
  obtain ⟨ls, hls, hpart⟩ := setLocalWorkSize_success hok hl
  refine ⟨gs, rfl, ?_, ?_, ?_, ?_, hdims, hfit, hoffsets, ?_, fun sizes hsizes => ?_, fun hnone => ?_⟩
  · rw [hls]
    rfl
  · rw [hls]
  · rw [hls]
  · rw [hls]
  · rw [hls]
    exact hpart rfl (by simp)
  · subst hsizes
    exact setLocalWorkSize_given rfl hok hl
  · subst hnone
    exact setLocalWorkSize_chosen rfl hok hl

theorem accepted_built {ctx : Nat} {dev : Device} {kern : Option Kernel} {workDim : Nat}
    {globalWorkOffset globalWorkSize localWorkSize : Option (Nat → Nat)} {numEvents : Nat}
    {eventWaitList : Option (Nat → Option Nat)} {cmd : EnqueueNDRangeKernel}
    (hok : (clEnqueueNDRangeKernel ctx dev kern workDim globalWorkOffset globalWorkSize localWorkSize numEvents
      eventWaitList).ok = true)
    (h : (clEnqueueNDRangeKernel ctx dev kern workDim globalWorkOffset globalWorkSize localWorkSize numEvents
      eventWaitList).val = .ok cmd) :
    ∃ b gs, BuiltLaunch dev workDim globalWorkOffset globalWorkSize localWorkSize b gs ∧
      cmd.dimInfo = .new b.globalWorkOffsets b.globalWorkSizes b.localWorkSizes := by
  rw [clEnqueueNDRangeKernel_eq, Checked.ok_bind, Bool.and_eq_true] at hok
  rw [clEnqueueNDRangeKernel_eq, Checked.val_bind] at h
  obtain ⟨hsuccess, hcmd⟩ := create_success h
  obtain ⟨gs, hbuilt⟩ := launchBuilder_success hok.1 hsuccess
  exact ⟨_, gs, hbuilt, hcmd⟩

end OpenCRun
