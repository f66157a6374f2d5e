import OpenCRun.Core.NDRangeBuilder
import OpenCRun.Device.CPUDevice
/-!
# The arguments of a kernel

`Kernel.cpp`: the calls that set an argument, each with its own checks, and
what a launch takes from the kernel. A launch copies the arguments that are
set when its command is created.
-/
open Lib

namespace OpenCRun.KernelArgs

/-! ## Kernels -/

inductive AddressSpace where
  | privateSpace | globalSpace | localSpace | constantSpace
  deriving DecidableEq, Repr

inductive ImageClass where
  | image1d | image1dArray | image1dBuffer | image2d | image2dArray | image3d | sampler
  deriving DecidableEq, Repr

/-- `opencl::Type`; of a pointer, the address space of what it points to. -/
inductive ArgType where
  | primitive | vector
  | image (imageClass : ImageClass)
  | array
  | pointer (addressSpace : AddressSpace)
  | struct | union
  deriving DecidableEq, Repr

namespace ArgType

def isPointer : ArgType → Bool
  | pointer _ => true
  | _ => false

def isImage : ArgType → Bool
  | image _ => true
  | _ => false

def isBufferArg : ArgType → Bool
  | pointer space => space != .localSpace
  | _ => false

def isLocalBufferArg : ArgType → Bool
  | pointer space => space == .localSpace
  | _ => false

def isByValueArg (ty : ArgType) : Bool := !ty.isPointer && !ty.isImage

def isImageArg : ArgType → Bool
  | image c => c != .sampler
  | _ => false

def isSamplerArg : ArgType → Bool
  | image c => c == .sampler
  | _ => false

/-- The tests of `SetArg` leave no type out. -/
theorem isByValueArg_of_others {ty : ArgType} (hb : ty.isBufferArg = false) (hl : ty.isLocalBufferArg = false)
    (hi : ty.isImageArg = false) (hs : ty.isSamplerArg = false) : ty.isByValueArg = true := by
  cases ty with
  | image c =>
    simp only [isImageArg, bne_eq_false_iff_eq] at hi
    simp [isSamplerArg, hi] at hs
  | pointer space =>
    simp only [isBufferArg, bne_eq_false_iff_eq] at hb
    simp [isLocalBufferArg, hb] at hl
  | _ => rfl

end ArgType

/-- An LLVM type, by its store size; vectors of three elements are handled apart. -/
inductive ParamType where
  | vector (elementSize numElements size : Nat)
  | other (size : Nat)
  deriving DecidableEq, Repr

/-- The size that an argument by value has to have. -/
def ParamType.argSize : ParamType → Nat
  | vector elementSize numElements size => if numElements = 3 then elementSize * 4 else size
  | other size => size

inductive KernelArg where
  | noArg
  | bufferArg (index : Nat) (buf : Option Nat)
  | localBufferArg (index localSize : Nat)
  | imageArg (index : Nat) (img : Option Nat)
  | samplerArg (index : Nat) (smplr : Option Nat)
  | byValueArg (index : Nat) (bytes : List UInt8) (size : Nat)
  deriving DecidableEq, Repr

/-- A kernel and what it reads of its descriptor. -/
structure Kernel where
  isBuiltForDevice : Bool
  context : Nat
  requiredWorkGroupSizes : Option (List Nat)
  signature : List ArgType
  /-- The parameters of the LLVM function. -/
  paramTypes : List ParamType
  arguments : List KernelArg

namespace Kernel

def getArgCount (k : Kernel) : Nat := k.signature.length

/-- The constructor: no argument is set. -/
def new (isBuiltForDevice : Bool) (context : Nat) (requiredWorkGroupSizes : Option (List Nat))
    (signature : List ArgType) (paramTypes : List ParamType) : Kernel :=
  { isBuiltForDevice, context, requiredWorkGroupSizes, signature, paramTypes,
    arguments := List.replicate signature.length .noArg }

def areAllArgsSpecified (k : Kernel) : Bool := k.getArgCount == k.paramTypes.length

/-! ## Setting an argument -/

inductive ArgErrCode where
  | invalidArgIndex
  | invalidArgSize
  | invalidMemObject
  | invalidArgValue
  deriving DecidableEq, Repr

/-- What the pointer of a call points to, read as a handle, and read as bytes. -/
structure Pointee where
  handle : Option Nat
  bytes : List UInt8
  deriving DecidableEq, Repr

structure Call where
  index : Nat
  size : Nat
  arg : Option Pointee
  deriving DecidableEq, Repr

/-- The argument that a call stores, or its error and the diagnostic. -/
abbrev Result := Except (ArgErrCode × String) KernelArg

/-- `SetBufferArg`, `SetImageArg` and `SetSamplerArg`: a handle of the kernel's context, or null. -/
def setHandleArg (contextOf : Nat → Nat) (mismatch : String) (make : Nat → Option Nat → KernelArg) (k : Kernel)
    (c : Call) : Result :=
  if c.size ≠ 8 then .error (.invalidArgSize, "kernel argument size does not match")
  else
    let handle := c.arg.bind (·.handle)
    if handle.any (fun h => contextOf h != k.context) then .error (.invalidMemObject, mismatch)
    else .ok (make c.index handle)

def setBufferArg (contextOf : Nat → Nat) : Kernel → Call → Result :=
  setHandleArg contextOf "buffer and kernel contexts do not match" .bufferArg

def setImageArg (contextOf : Nat → Nat) : Kernel → Call → Result :=
  setHandleArg contextOf "image and kernel contexts do not match" .imageArg

def setSamplerArg (contextOf : Nat → Nat) : Kernel → Call → Result :=
  setHandleArg contextOf "sampler and kernel contexts do not match" .samplerArg

def setLocalBufferArg (c : Call) : Result :=
  if c.arg.isSome then .error (.invalidArgValue, "cannot set a local pointer")
  else if c.size = 0 then .error (.invalidArgSize, "local buffer size unspecified")
  else .ok (.localBufferArg c.index c.size)

/-- The parameter is looked up, and the bytes copied, without a test. -/
def setByValueArg (k : Kernel) (c : Call) : Checked Result := do
  Checked.check (decide (c.index < k.paramTypes.length))
  if c.size ≠ (k.paramTypes.getD c.index (.other 0)).argSize then
    pure (.error (.invalidArgSize, "kernel argument size does not match"))
  else do
    Checked.check (c.arg.any fun p => decide (c.size ≤ p.bytes.length))
    pure (.ok (.byValueArg c.index ((c.arg.map (·.bytes.take c.size)).getD []) c.size))

/-- The dispatch of `SetArg`; an argument that is none of the others is one by value. -/
def setArgAs (contextOf : Nat → Nat) (k : Kernel) (c : Call) : Checked Result :=
  match k.signature[c.index]? with
  | none => pure (.error (.invalidArgIndex, "argument number exceed kernel argument count"))
  | some ty =>
    if ty.isBufferArg then pure (k.setBufferArg contextOf c)
    else if ty.isLocalBufferArg then pure (setLocalBufferArg c)
    else if ty.isImageArg then pure (k.setImageArg contextOf c)
    else if ty.isSamplerArg then pure (k.setSamplerArg contextOf c)
    else k.setByValueArg c

/-- `Arguments[I] = …`. -/
def store (k : Kernel) (i : Nat) (arg : KernelArg) : Kernel := { k with arguments := k.arguments.set i arg }

/-- `SetArg`: the kernel after the call, and its error. -/
def setArg (contextOf : Nat → Nat) (k : Kernel) (c : Call) : Kernel × Option (ArgErrCode × String) :=
  match (k.setArgAs contextOf c).val with
  | .ok arg => (k.store c.index arg, none)
  | .error e => (k, some e)

section Calls
variable (contextOf : Nat → Nat)

def setArgs (k : Kernel) (calls : List Call) : Kernel := calls.foldl (fun k c => (k.setArg contextOf c).1) k

/-- The call succeeds, and sets the argument. -/
def Sets (k : Kernel) (c : Call) (arg : KernelArg) : Prop := (k.setArgAs contextOf c).val = .ok arg

/-- Whether a call succeeds does not depend on what was set before. -/
def Succeeds (k : Kernel) (c : Call) : Prop := (k.setArg contextOf c).2 = none

/-- The last call on an index that succeeded set the argument. -/
def LastSet (k : Kernel) (calls : List Call) (i : Nat) (arg : KernelArg) : Prop :=
  ∃ before c after, calls = before ++ c :: after ∧ c.index = i ∧ Sets contextOf (k.setArgs contextOf before) c arg ∧
    ∀ mid d rest, after = mid ++ d :: rest → d.index = i →
      ∀ a, ¬ Sets contextOf (k.setArgs contextOf (before ++ c :: mid)) d a

end Calls

/-! ## Launching -/

/-- What the builder reads of the kernel. -/
def desc (k : Kernel) : OpenCRun.Kernel where
  isBuiltForDevice := k.isBuiltForDevice
  context := k.context
  areAllArgsSpecified := k.areAllArgsSpecified
  requiredWorkGroupSizes := k.requiredWorkGroupSizes

/-- The other parameters of `clEnqueueNDRangeKernel`. -/
structure Launch where
  ctx : Nat
  dev : Device
  workDim : Nat
  globalWorkOffset : Option (Nat → Nat)
  globalWorkSize : Option (Nat → Nat)
  localWorkSize : Option (Nat → Nat)
  numEvents : Nat
  eventWaitList : Option (Nat → Option Nat)

/-- The arguments that the command of a launch uses, which are those of its copy of the kernel. -/
def launch (k : Kernel) (l : Launch) : Except ErrCode (List KernelArg) :=
  (clEnqueueNDRangeKernel l.ctx l.dev (some k.desc) l.workDim l.globalWorkOffset l.globalWorkSize l.localWorkSize
    l.numEvents l.eventWaitList).val.map fun _ => k.arguments

/-- Every argument of the command was set, and last to what the command uses. -/
def LaunchesSet (contextOf : Nat → Nat) (k : Kernel) (calls : List Call) (l : Launch) : Prop :=
  ∀ args, (k.setArgs contextOf calls).launch l = .ok args →
    ∀ i < k.getArgCount, ∃ arg, LastSet contextOf k calls i arg ∧ args[i]? = some arg

/-! ## What calls leave -/

variable {contextOf : Nat → Nat}

/-- A call sets an argument and succeeds, or fails and changes nothing. -/
theorem setArg_cases (contextOf : Nat → Nat) (k : Kernel) (c : Call) :
    (∃ arg, Sets contextOf k c arg ∧ k.setArg contextOf c = (k.store c.index arg, none)) ∨
    ((∀ arg, ¬ Sets contextOf k c arg) ∧ ∃ e, k.setArg contextOf c = (k, some e)) := by
  unfold setArg Sets
  cases h : (k.setArgAs contextOf c).val with
  | ok arg => exact .inl ⟨arg, rfl, rfl⟩
  | error e => exact .inr ⟨by simp, e, rfl⟩

theorem succeeds_iff {k : Kernel} {c : Call} : Succeeds contextOf k c ↔ ∃ arg, Sets contextOf k c arg := by
  unfold Succeeds
  rcases setArg_cases contextOf k c with ⟨arg, h, heq⟩ | ⟨h, e, heq⟩
  · simp only [heq, true_iff]
    exact ⟨arg, h⟩
  · simp [heq, h]

theorem setArgs_append (k : Kernel) (calls : List Call) (c : Call) :
    k.setArgs contextOf (calls ++ [c]) = ((k.setArgs contextOf calls).setArg contextOf c).1 := by
  rw [setArgs, List.foldl_append]
  rfl

/-- The calls change the arguments only, and not how many there are. -/
theorem setArgs_eq (contextOf : Nat → Nat) (k : Kernel) (calls : List Call) :
    ∃ args, k.setArgs contextOf calls = { k with arguments := args } ∧ args.length = k.arguments.length := by
  induction calls using List.reverseRecOn with
  | nil => exact ⟨k.arguments, rfl, rfl⟩
  | append_singleton calls c ih =>
    obtain ⟨args, heq, hlen⟩ := ih
    rw [setArgs_append]
    rcases setArg_cases contextOf (k.setArgs contextOf calls) c with ⟨arg, -, hset⟩ | ⟨-, e, hset⟩
    · rw [hset, heq]
      exact ⟨args.set c.index arg, rfl, (List.length_set ..).trans hlen⟩
    · rw [hset]
      exact ⟨args, heq, hlen⟩

theorem sets_setArgs {k : Kernel} {calls : List Call} {c : Call} {arg : KernelArg} :
    Sets contextOf (k.setArgs contextOf calls) c arg ↔ Sets contextOf k c arg := by
  obtain ⟨args, heq, -⟩ := setArgs_eq contextOf k calls
  rw [heq]
  rfl

/-- A call that fails, or is on another index, leaves which was the last. -/
theorem LastSet.append {k : Kernel} {calls : List Call} {i : Nat} {arg : KernelArg}
    (h : LastSet contextOf k calls i arg) {c : Call}
    (hc : c.index = i → ∀ a, ¬ Sets contextOf (k.setArgs contextOf calls) c a) :
    LastSet contextOf k (calls ++ [c]) i arg := by
  obtain ⟨before, c₀, after, rfl, hi, hset, hlater⟩ := h
  refine ⟨before, c₀, after ++ [c], by simp, hi, hset, fun mid d rest hsplit => ?_⟩
  rcases List.eq_nil_or_concat rest with rfl | ⟨rest, x, rfl⟩
  · obtain ⟨rfl, hd⟩ := List.append_inj' hsplit rfl
    obtain rfl := List.singleton_inj.1 hd
    exact hc
  · rw [List.concat_eq_append, ← List.cons_append, ← List.append_assoc] at hsplit
    exact hlater mid d rest (List.append_inj' hsplit rfl).1

/-- What the kernel has at an index: what the last successful call has set, or what was there before. -/
theorem setArgs_argument {k : Kernel} {i : Nat} (hi : i < k.arguments.length) (calls : List Call) :
    (∃ arg, LastSet contextOf k calls i arg ∧ (k.setArgs contextOf calls).arguments[i]? = some arg) ∨
    ∀ c ∈ calls, c.index = i → ¬ Succeeds contextOf k c := by
  -- From the end: the last call decides, or leaves the argument to those before it.
  induction calls using List.reverseRecOn with
  | nil => exact .inr fun c hc => absurd hc List.not_mem_nil
  | append_singleton calls c ih =>
    rw [setArgs_append]
    rcases setArg_cases contextOf (k.setArgs contextOf calls) c with ⟨arg, hset, heq⟩ | ⟨hfails, e, heq⟩
    · rw [heq]
      by_cases hindex : c.index = i
      · refine .inl ⟨arg, ⟨calls, c, [], rfl, hindex, hset, fun mid d rest h => by simp at h⟩, ?_⟩
        obtain ⟨args, hargs, hlen⟩ := setArgs_eq contextOf k calls
        subst hindex
        simp [hargs, store, hlen, hi]
      · rcases ih with ⟨arg', hlast, harg⟩ | hnone
        · refine .inl ⟨arg', hlast.append fun h => absurd h hindex, ?_⟩
          simp only [store]
          rwa [List.getElem?_set_ne hindex]
        · refine .inr fun d hd hdi => ?_
          rcases List.mem_append.1 hd with hd | hd
          · exact hnone d hd hdi
          · exact absurd (List.mem_singleton.1 hd ▸ hdi) hindex
    · rw [heq]
      rcases ih with ⟨arg', hlast, harg⟩ | hnone
      · exact .inl ⟨arg', hlast.append fun _ => hfails, harg⟩
      · refine .inr fun d hd hdi => ?_
        rcases List.mem_append.1 hd with hd | hd
        · exact hnone d hd hdi
        · rw [List.mem_singleton.1 hd, succeeds_iff]
          rintro ⟨a, ha⟩
          exact hfails a (sets_setArgs.2 ha)

theorem LastSet.succeeds {k : Kernel} {calls : List Call} {i : Nat} {arg : KernelArg}
    (h : LastSet contextOf k calls i arg) : ∃ c ∈ calls, c.index = i ∧ Succeeds contextOf k c := by
  obtain ⟨before, c, after, rfl, hi, hset, -⟩ := h
  exact ⟨c, by simp, hi, succeeds_iff.2 ⟨arg, sets_setArgs.1 hset⟩⟩

/-! ## Launches -/

/-- What the launch has to meet besides the arguments. -/
def Launch.Fits (l : Launch) (k : Kernel) : Prop :=
  Acceptable l.ctx l.dev k.desc l.workDim l.globalWorkOffset l.globalWorkSize l.localWorkSize l.numEvents l.eventWaitList

theorem launch_ok_iff {k : Kernel} {l : Launch} {args : List KernelArg} :
    k.launch l = .ok args ↔ args = k.arguments ∧ k.signature.length = k.paramTypes.length ∧ l.Fits k := by
  have hall : k.areAllArgsSpecified = true ↔ k.signature.length = k.paramTypes.length := beq_iff_eq
  rw [Launch.Fits, ← hall]
  rw [show k.areAllArgsSpecified = k.desc.areAllArgsSpecified from rfl, ← launch_accepted_iff, launch]
  cases (clEnqueueNDRangeKernel l.ctx l.dev (some k.desc) l.workDim l.globalWorkOffset l.globalWorkSize l.localWorkSize
    l.numEvents l.eventWaitList).val with
  | error e => simp [Except.map]
  | ok cmd => simp [Except.map, eq_comm]

theorem launches_iff {k : Kernel} (hlen : k.arguments.length = k.signature.length) (calls : List Call) (l : Launch) :
    LaunchesSet contextOf k calls l ↔
      (∀ i < k.signature.length, ∃ c ∈ calls, c.index = i ∧ Succeeds contextOf k c) ∨
      k.signature.length ≠ k.paramTypes.length ∨ ¬ l.Fits k := by
  obtain ⟨args, hargs, -⟩ := setArgs_eq contextOf k calls
  have hlaunch : ∀ args', (k.setArgs contextOf calls).launch l = .ok args' ↔
      args' = (k.setArgs contextOf calls).arguments ∧ k.signature.length = k.paramTypes.length ∧ l.Fits k := by
    intro args'
    rw [launch_ok_iff, hargs]
    rfl
  constructor
  · intro hall
    by_cases hfits : k.signature.length = k.paramTypes.length ∧ l.Fits k
    · refine .inl fun i hi => ?_
      obtain ⟨arg, hlast, -⟩ := hall _ ((hlaunch _).2 ⟨rfl, hfits⟩) i hi
      exact hlast.succeeds
    · exact .inr (not_and_or.1 hfits)
  · intro hcond args' hlaunched i hi
    obtain ⟨rfl, hcount, hfits⟩ := (hlaunch args').1 hlaunched
    rcases hcond with hset | hne | hrefused
    · obtain ⟨c, hc, hci, hsucc⟩ := hset i hi
      rcases setArgs_argument (hi.trans_eq hlen.symm) calls with h | hnone
      · exact h
      · exact absurd hsucc (hnone c hc hci)
    · exact absurd hcount hne
    · exact absurd hfits hrefused

/-- For a new kernel and any calls, a launch that is made has all its arguments from the last calls
that succeeded: if there is one for each index, or the launch is refused for another reason. -/
theorem launches_set_iff (contextOf : Nat → Nat) (isBuiltForDevice : Bool) (context : Nat)
    (requiredWorkGroupSizes : Option (List Nat)) (signature : List ArgType) (paramTypes : List ParamType)
    (calls : List Call) (l : Launch) :
    LaunchesSet contextOf (.new isBuiltForDevice context requiredWorkGroupSizes signature paramTypes) calls l ↔
      (∀ i < signature.length, ∃ c ∈ calls, c.index = i ∧
        Succeeds contextOf (.new isBuiltForDevice context requiredWorkGroupSizes signature paramTypes) c) ∨
      signature.length ≠ paramTypes.length ∨
      ¬ l.Fits (.new isBuiltForDevice context requiredWorkGroupSizes signature paramTypes) :=
  launches_iff List.length_replicate calls l

/-- A launch of a kernel with a buffer argument that was never set. -/
theorem launch_of_unset_argument :
    ¬ ∀ (contextOf : Nat → Nat) (isBuiltForDevice : Bool) (context : Nat) (requiredWorkGroupSizes : Option (List Nat))
      (signature : List ArgType) (paramTypes : List ParamType) (calls : List Call) (l : Launch),
      LaunchesSet contextOf (.new isBuiltForDevice context requiredWorkGroupSizes signature paramTypes) calls l := by
  intro hall
  obtain ⟨arg, ⟨before, c, after, hcalls, -⟩, -⟩ := hall (fun _ => 0) true 0 none [.pointer .globalSpace] [.other 8] []
    { ctx := 0, dev := CPUDevice.cpuDevice, workDim := 1, globalWorkOffset := none, globalWorkSize := some fun _ => 64,
      localWorkSize := none, numEvents := 0, eventWaitList := none } [.noArg] rfl 0 (by decide)
  simp at hcalls

end Kernel

end OpenCRun.KernelArgs
