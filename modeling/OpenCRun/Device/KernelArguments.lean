import OpenCRun.Core.KernelArgs
import OpenCRun.Lib.Tiling
/-!
# Passing the arguments of a kernel

The device lays the arguments of a kernel out in an array of pointers. Each
thread places the local areas in its copy of the array, and the stub that
`GroupParallelStub` generates for the kernel reads the copy back and calls the
kernel.
-/
open Lib

namespace OpenCRun.KernelArgs.Stub

/-! ## Pointers and what they point to -/

/-- The type of a parameter of an LLVM function. -/
inductive LLVMType where
  | pointer
  | value (ty : ParamType)
  deriving DecidableEq, Repr

namespace LLVMType

def isPointerTy : LLVMType → Bool
  | pointer => true
  | value _ => false

/-- As `SetArg` sees the type. -/
def paramType : LLVMType → ParamType
  | pointer => .other 8
  | value ty => ty

def storeSize (ty : LLVMType) : Nat :=
  match ty.paramType with
  | .vector _ _ size => size
  | .other size => size

/-- A vector has the size of its elements. -/
def Sized (ty : LLVMType) : Prop :=
  ∀ elementSize numElements size, ty.paramType = .vector elementSize numElements size →
    size = elementSize * numElements

end LLVMType

/-- The pointers that the device hands out. -/
inductive Pointer where
  | null
  /-- `getMemoryDescriptor(Buf).ptr()` -/
  | descriptor (buf : Nat)
  /-- `getMemoryDescriptor(Img).imageHeader()` -/
  | imageHeader (img : Nat)
  /-- Into `Sampler_LUT`. -/
  | samplerLUT (index : Nat)
  /-- Into the samplers of a command. -/
  | sampler (i : Nat)
  /-- To the bytes of an argument by value. -/
  | byVal (index : Nat)
  /-- Into the local memory of the thread, by the distance from its base. -/
  | localMemory (offset : Nat)
  /-- To an element of the arguments buffer. -/
  | argsBuffer (j : Nat)
  deriving DecidableEq, Repr

inductive Value where
  | pointer (p : Pointer)
  | bytes (bs : List UInt8)
  deriving DecidableEq, Repr

/-- The memory that a stub reads. -/
structure Memory where
  argsBuffer : List Pointer
  samplers : List Pointer
  byVal : Nat → Option (List UInt8)

/-- A load that stays inside an object, of the type that was stored there. -/
def Memory.load (m : Memory) : LLVMType → Pointer → Option Value
  | .pointer, .argsBuffer j => m.argsBuffer[j]?.map .pointer
  | .pointer, .sampler i => m.samplers[i]?.map .pointer
  | .value ty, .byVal i => (m.byVal i).bind fun bs =>
    if (LLVMType.value ty).storeSize ≤ bs.length then some (.bytes (bs.take (LLVMType.value ty).storeSize)) else none
  | _, _ => none

/-! ## The arguments of a command -/

inductive AddressingMode where
  | addressNone | addressClampToEdge | addressClamp | addressRepeat | addressMirroredRepeat | noAddressing
  deriving DecidableEq, Repr

inductive FilterMode where
  | filterNearest | filterLinear | noFilter
  deriving DecidableEq, Repr

structure Sampler where
  normalizedCoords : Bool
  addressingMode : AddressingMode
  filterMode : FilterMode
  deriving DecidableEq, Repr

def Sampler.flags (s : Sampler) : Nat :=
  (if s.normalizedCoords then 0x0008 else 0x0000) |||
  (match s.addressingMode with
    | .addressNone => 0x0000
    | .addressClampToEdge => 0x0003
    | .addressClamp => 0x0004
    | .addressRepeat => 0x0002
    | .addressMirroredRepeat => 0x0001
    | .noAddressing => 0x0000) |||
  (match s.filterMode with
    | .filterNearest => 0x0000
    | .filterLinear => 0x0010
    | .noFilter => 0x0000)

/-- The look-up table has 32 entries. -/
theorem Sampler.flags_lt (s : Sampler) : s.flags < 32 := by
  obtain ⟨coords, addressing, filter⟩ := s
  cases coords <;> cases addressing <;> cases filter <;> decide

def getCPUSampler : Option Sampler → Pointer
  | none => .null
  | some smplr => .samplerLUT smplr.flags

structure CPUKernelArguments where
  args : List Pointer
  autoLocalsSize : Nat
  localBuffers : List (Nat × Nat) := []
  samplers : List Pointer
  deriving DecidableEq, Repr

section Arguments
variable (samplerOf : Nat → Sampler)

/-- The body of the loop of `createKernelArguments`, with the sampler that is next. -/
def addArgument (a : CPUKernelArguments × Nat) : KernelArg → CPUKernelArguments × Nat
  | .noArg => a
  | .localBufferArg index localSize =>
    ({ a.1 with args := a.1.args.set index .null, localBuffers := a.1.localBuffers ++ [(index, localSize)] }, a.2)
  | .bufferArg index buf => ({ a.1 with args := a.1.args.set index (buf.elim .null .descriptor) }, a.2)
  | .imageArg index img => ({ a.1 with args := a.1.args.set index (img.elim .null .imageHeader) }, a.2)
  | .samplerArg index smplr =>
    ({ a.1 with args := a.1.args.set index (.sampler a.2),
                samplers := a.1.samplers.set a.2 (getCPUSampler (smplr.map samplerOf)) }, a.2 + 1)
  | .byValueArg index _ _ => ({ a.1 with args := a.1.args.set index (.byVal index) }, a.2)

def isSampler : KernelArg → Bool
  | .samplerArg _ _ => true
  | _ => false

/-- `CPUDevice::createKernelArguments`; a vector of pointers starts with nulls. -/
def createKernelArguments (kern : Kernel) (als : Nat) : CPUKernelArguments :=
  (kern.arguments.foldl (addArgument samplerOf)
    ({ args := List.replicate kern.getArgCount .null, autoLocalsSize := als,
       samplers := List.replicate (kern.arguments.countP isSampler) .null }, 0)).1

end Arguments

/-! ## The local memory of a thread -/

structure LocalMemory where
  size : Nat
  size_lt : size < 2 ^ 64
  next : Nat := 0
  static : Pointer := .null

def LocalMemory.reset (lm : LocalMemory) (staticSize : Nat) : Checked LocalMemory := do
  Checked.check (decide (staticSize ≤ lm.size))
  pure { lm with static := if staticSize ≠ 0 then .localMemory 0 else .null, next := staticSize % 2 ^ 64 }

@[simp] theorem LocalMemory.reset_ok (lm : LocalMemory) (staticSize : Nat) :
    (lm.reset staticSize).ok = decide (staticSize ≤ lm.size) := Bool.and_true _

def LocalMemory.alloc (lm : LocalMemory) (objSize : Nat) : Checked (Pointer × LocalMemory) := do
  -- The sum wraps around before it is tested.
  let next := (lm.next + objSize) % 2 ^ 64
  Checked.check (decide (next ≤ lm.size))
  pure (.localMemory lm.next, { lm with next })

/-- A turn of the loop over the local buffers. -/
def placeLocal (s : List Pointer × LocalMemory) (p : Nat × Nat) : Checked (List Pointer × LocalMemory) := do
  let (addr, lm) ← s.2.alloc p.2
  pure (s.1.set p.1 addr, lm)

/-- `CPUKernelArguments::prepareArgumentsBuffer` -/
def CPUKernelArguments.prepareArgumentsBuffer (a : CPUKernelArguments) (lm : LocalMemory) : Checked (List Pointer) := do
  let lm ← lm.reset a.autoLocalsSize
  let withAutoLocals := decide (0 < a.autoLocalsSize)
  let (argsBuffer, lm) ← a.localBuffers.foldlM placeLocal (a.args ++ if withAutoLocals then [.null] else [], lm)
  pure (if withAutoLocals then argsBuffer.set a.args.length lm.static else argsBuffer)

/-! ## The stub -/

/-- The function of a kernel after the pass for automatic locals. -/
structure Function where
  params : List LLVMType
  sized : ∀ ty ∈ params, ty.Sized
  /-- The size of the automatic locals, when the kernel has any; a last parameter then points to them. -/
  automaticLocals : Option Nat

namespace Function

/-- The parameters, the hidden one included. -/
def args (fn : Function) : List LLVMType := fn.params ++ if fn.automaticLocals.isSome then [.pointer] else []

def automaticLocalsSize (fn : Function) : Nat := fn.automaticLocals.getD 0

end Function

/-- The instructions of a stub that compute one argument. -/
inductive Inst where
  | getElementPtr (j : Nat)
  | load (ty : LLVMType) (addr : Inst)
  deriving DecidableEq, Repr

/-- What `BuildStub` emits for a parameter. -/
def buildArg (j : Nat) (ty : LLVMType) : Inst :=
  let addr := .getElementPtr j
  -- An argument by value is behind one more pointer.
  let addr := if !ty.isPointerTy then .load .pointer addr else addr
  .load ty addr

def buildStub (fn : Function) : List Inst := fn.args.mapIdx buildArg

def Inst.eval (m : Memory) : Inst → Option Value
  | getElementPtr j => some (.pointer (.argsBuffer j))
  | load ty addr =>
    match addr.eval m with
    | some (.pointer p) => m.load ty p
    | _ => none

/-- The bytes that the kernel keeps for an argument by value. -/
def byValOf (args : List KernelArg) (i : Nat) : Option (List UInt8) :=
  match args[i]? with
  | some (.byValueArg _ bytes _) => some bytes
  | _ => none

/-- What the stub passes to the kernel when a thread executes a block of the command. -/
def callKernel (samplerOf : Nat → Sampler) (kern : Kernel) (fn : Function) (lm : LocalMemory) :
    Checked (List (Option Value)) := do
  let a := createKernelArguments samplerOf kern fn.automaticLocalsSize
  let argsBuffer ← a.prepareArgumentsBuffer lm
  pure ((buildStub fn).map (·.eval { argsBuffer, samplers := a.samplers, byVal := byValOf kern.arguments }))

/-! ## Agreement -/

/-- The argument is one that `SetArg` may store at the index, for the type and the parameter it has there. -/
def Fits (i : Nat) (ty : ArgType) (param : LLVMType) : KernelArg → Prop
  | .noArg => False
  | .bufferArg index _ => index = i ∧ ty.isBufferArg = true ∧ param = .pointer
  | .localBufferArg index _ => index = i ∧ ty.isLocalBufferArg = true ∧ param = .pointer
  | .imageArg index _ => index = i ∧ ty.isImageArg = true ∧ param = .pointer
  | .samplerArg index _ => index = i ∧ ty.isSamplerArg = true ∧ param = .pointer
  | .byValueArg index bytes size =>
    index = i ∧ ty.isByValueArg = true ∧ bytes.length = size ∧ size = param.paramType.argSize

instance (i : Nat) (ty : ArgType) (param : LLVMType) : (arg : KernelArg) → Decidable (Fits i ty param arg)
  | .noArg => inferInstanceAs (Decidable False)
  | .bufferArg _ _ | .localBufferArg _ _ | .imageArg _ _ | .samplerArg _ _ =>
    inferInstanceAs (Decidable (_ ∧ _ ∧ _))
  | .byValueArg _ _ _ => inferInstanceAs (Decidable (_ ∧ _ ∧ _ ∧ _))

/-- Every argument of the kernel is set. -/
structure Complete (kern : Kernel) (fn : Function) : Prop where
  length : kern.arguments.length = kern.signature.length
  count : kern.signature.length = fn.params.length
  fits : ∀ i ty, kern.signature[i]? = some ty →
    ∃ arg param, kern.arguments[i]? = some arg ∧ fn.params[i]? = some param ∧ Fits i ty param arg

/-- The value that was set: the pointer of a pointer-like argument, what a by-value one points to. -/
def IsSet (samplerOf : Nat → Sampler) (param : LLVMType) (v : Value) : KernelArg → Prop
  | .noArg => False
  | .bufferArg _ buf => v = .pointer (buf.elim .null .descriptor)
  | .localBufferArg _ _ => ∃ offset, v = .pointer (.localMemory offset)
  | .imageArg _ img => v = .pointer (img.elim .null .imageHeader)
  | .samplerArg _ smplr => v = .pointer (getCPUSampler (smplr.map samplerOf))
  | .byValueArg _ bytes _ => v = .bytes (bytes.take param.storeSize)

/-- The local buffer of the argument starts at the offset, and has the size. -/
def HasArea (args : List KernelArg) (vals : List (Option Value)) (i offset size : Nat) : Prop :=
  (∃ index, args[i]? = some (.localBufferArg index size)) ∧ vals[i]? = some (some (.pointer (.localMemory offset)))

/-- What the kernel is called with agrees with what was set. -/
structure Agrees (samplerOf : Nat → Sampler) (kern : Kernel) (fn : Function) (lm : LocalMemory)
    (call : Checked (List (Option Value))) : Prop where
  asserts : call.ok = true
  count : call.val.length = kern.arguments.length + if fn.automaticLocals.isSome then 1 else 0
  passed : ∀ (i : Nat) (arg : KernelArg) (param : LLVMType), kern.arguments[i]? = some arg →
    fn.params[i]? = some param → ∃ v, call.val[i]? = some (some v) ∧ IsSet samplerOf param v arg
  /-- The automatic locals are at the start of the local memory. -/
  hidden : fn.automaticLocals.isSome → call.val[kern.arguments.length]? = some (some (.pointer (.localMemory 0)))
  automatic : fn.automaticLocalsSize ≤ lm.size
  inside : ∀ i offset size, HasArea kern.arguments call.val i offset size →
    fn.automaticLocalsSize ≤ offset ∧ offset + size ≤ lm.size
  disjoint : ∀ i j offset size offset' size', i ≠ j → HasArea kern.arguments call.val i offset size →
    HasArea kern.arguments call.val j offset' size' → offset + size ≤ offset' ∨ offset' + size' ≤ offset

/-! ## What `SetArg` stores fits -/

/-- The parameters that the front end makes of a signature: pointers but for arguments by value. -/
def Lowered (signature : List ArgType) (params : List LLVMType) : Prop :=
  List.Forall₂ (fun ty param => ty.isByValueArg = false → param = .pointer) signature params

theorem not_isByValueArg {ty : ArgType}
    (h : ty.isBufferArg ∨ ty.isLocalBufferArg ∨ ty.isImageArg ∨ ty.isSamplerArg) : ty.isByValueArg = false := by
  cases ty with
  | image c => rfl
  | pointer space => rfl
  | _ => simp [ArgType.isBufferArg, ArgType.isLocalBufferArg, ArgType.isImageArg, ArgType.isSamplerArg] at h

theorem setHandleArg_ok {contextOf : Nat → Nat} {mismatch : String} {make : Nat → Option Nat → KernelArg}
    {kern : Kernel} {c : Kernel.Call} {arg : KernelArg}
    (h : Kernel.setHandleArg contextOf mismatch make kern c = .ok arg) : ∃ handle, arg = make c.index handle := by
  unfold Kernel.setHandleArg at h
  split at h
  · cases h
  · dsimp only at h
    split at h
    · cases h
    · exact ⟨_, (Except.ok.inj h).symm⟩

theorem setLocalBufferArg_ok {c : Kernel.Call} {arg : KernelArg} (h : Kernel.setLocalBufferArg c = .ok arg) :
    arg = .localBufferArg c.index c.size := by
  unfold Kernel.setLocalBufferArg at h
  split at h
  · cases h
  · split at h
    · cases h
    · exact (Except.ok.inj h).symm

theorem setByValueArg_ok {kern : Kernel} {c : Kernel.Call} {arg : KernelArg} {ty : ParamType}
    (hty : kern.paramTypes[c.index]? = some ty) (hok : (kern.setByValueArg c).ok = true)
    (h : (kern.setByValueArg c).val = .ok arg) :
    ∃ bytes, arg = .byValueArg c.index bytes c.size ∧ bytes.length = c.size ∧ c.size = ty.argSize := by
  have hparam : kern.paramTypes.getD c.index (.other 0) = ty := by
    rw [List.getD_eq_getElem?_getD, hty]
    rfl
  simp only [Kernel.setByValueArg, Checked.val_bind, Checked.ok_bind, Checked.val_ite, Checked.ok_ite, hparam] at h hok
  split at h
  · cases h
  · next hsize =>
    rw [if_neg hsize] at hok
    refine ⟨_, (Except.ok.inj h).symm, ?_, not_not.1 hsize⟩
    cases harg : c.arg with
    | none => simp [harg] at hok
    | some p =>
      simp only [harg, Checked.ok_check, Option.any_some, Checked.ok_pure, Bool.and_true,
        Bool.and_eq_true, decide_eq_true_eq] at hok
      simpa using hok.2

/-- An argument that a call stores without running off the bytes it is given fits. -/
theorem fits_of_sets {contextOf : Nat → Nat} {kern : Kernel} {c : Kernel.Call} {arg : KernelArg}
    {ty : ArgType} {param : LLVMType} (hty : kern.signature[c.index]? = some ty)
    (hparam : kern.paramTypes[c.index]? = some param.paramType) (hlower : ty.isByValueArg = false → param = .pointer)
    (hok : (kern.setArgAs contextOf c).ok = true) (h : Kernel.Sets contextOf kern c arg) :
    Fits c.index ty param arg := by
  rw [Kernel.Sets, Kernel.setArgAs, hty] at h
  rw [Kernel.setArgAs, hty] at hok
  dsimp only at h hok
  -- In the order in which `SetArg` asks for the kind.
  by_cases hb : ty.isBufferArg = true
  · rw [if_pos hb] at h
    obtain ⟨handle, rfl⟩ := setHandleArg_ok h
    exact ⟨rfl, hb, hlower (not_isByValueArg (.inl hb))⟩
  by_cases hl : ty.isLocalBufferArg = true
  · rw [if_neg hb, if_pos hl] at h
    obtain rfl := setLocalBufferArg_ok h
    exact ⟨rfl, hl, hlower (not_isByValueArg (.inr (.inl hl)))⟩
  by_cases hi : ty.isImageArg = true
  · rw [if_neg hb, if_neg hl, if_pos hi] at h
    obtain ⟨handle, rfl⟩ := setHandleArg_ok h
    exact ⟨rfl, hi, hlower (not_isByValueArg (.inr (.inr (.inl hi))))⟩
  by_cases hs : ty.isSamplerArg = true
  · rw [if_neg hb, if_neg hl, if_neg hi, if_pos hs] at h
    obtain ⟨handle, rfl⟩ := setHandleArg_ok h
    exact ⟨rfl, hs, hlower (not_isByValueArg (.inr (.inr (.inr hs))))⟩
  · rw [if_neg hb, if_neg hl, if_neg hi, if_neg hs] at h hok
    obtain ⟨bytes, rfl, hlen, hsize⟩ := setByValueArg_ok hparam hok h
    refine ⟨rfl, ?_, hlen, hsize⟩
    exact ArgType.isByValueArg_of_others (eq_false_of_ne_true hb) (eq_false_of_ne_true hl) (eq_false_of_ne_true hi)
      (eq_false_of_ne_true hs)

/-- A new kernel is complete once calls that stay in bounds have set an argument for each index. -/
theorem complete_setArgs {contextOf : Nat → Nat} {isBuiltForDevice : Bool} {context : Nat}
    {requiredWorkGroupSizes : Option (List Nat)} {signature : List ArgType} {fn : Function}
    (hlower : Lowered signature fn.params) {kern : Kernel}
    (hkern : kern = .new isBuiltForDevice context requiredWorkGroupSizes signature (fn.params.map LLVMType.paramType))
    {calls : List Kernel.Call} (hok : ∀ c ∈ calls, (kern.setArgAs contextOf c).ok = true)
    (hset : ∀ i < signature.length, ∃ c ∈ calls, c.index = i ∧ Kernel.Succeeds contextOf kern c) :
    Complete (kern.setArgs contextOf calls) fn := by
  obtain ⟨args, heq, hlen⟩ := Kernel.setArgs_eq contextOf kern calls
  have hsig : kern.signature = signature := by rw [hkern]; rfl
  have hnew : kern.arguments.length = signature.length := by rw [hkern]; exact List.length_replicate
  refine ⟨?_, ?_, fun i ty hty => ?_⟩
  · rw [heq, hsig]
    exact hlen.trans hnew
  · rw [heq, hsig]
    exact hlower.length_eq
  · rw [heq, hsig] at hty
    obtain ⟨hi, hget⟩ := List.getElem?_eq_some_iff.1 hty
    have hi' : i < fn.params.length := hlower.length_eq ▸ hi
    rcases Kernel.setArgs_argument (hi.trans_eq hnew.symm) calls with ⟨arg, hlast, harg⟩ | hnone
    · obtain ⟨before, c, after, rfl, rfl, hsets, -⟩ := hlast
      refine ⟨arg, fn.params[c.index], harg, List.getElem?_eq_getElem hi', ?_⟩
      have hparam : kern.paramTypes[c.index]? = some fn.params[c.index].paramType := by
        rw [hkern]
        simp [Kernel.new, hi']
      have hlower' := hlower.get hi hi'
      rw [List.get_eq_getElem, List.get_eq_getElem, hget] at hlower'
      exact fits_of_sets (hsig ▸ hty) hparam hlower' (hok c (by simp)) (Kernel.sets_setArgs.1 hsets)
    · obtain ⟨c, hc, hci, hsucc⟩ := hset i hi
      exact absurd hsucc (hnone c hc hci)

/-! ## The array of pointers -/

def indexOf : KernelArg → Option Nat
  | .noArg => none
  | .bufferArg index _ | .localBufferArg index _ | .imageArg index _ | .samplerArg index _ | .byValueArg index _ _ =>
    some index

/-- The pair that `LocalBuffers` has of the argument. -/
def localBuffer : KernelArg → Option (Nat × Nat)
  | .localBufferArg index localSize => some (index, localSize)
  | _ => none

/-- What the array has for the argument. -/
def IsElement (p : Pointer) : KernelArg → Prop
  | .noArg => False
  | .bufferArg _ buf => p = buf.elim .null .descriptor
  | .localBufferArg _ _ => p = .null
  | .imageArg _ img => p = img.elim .null .imageHeader
  | .samplerArg _ _ => ∃ i, p = .sampler i
  | .byValueArg index _ _ => p = .byVal index

/-- An argument writes its own element, and adds itself to the local buffers when it is one. -/
theorem addArgument_spec (samplerOf : Nat → Sampler) (a : CPUKernelArguments × Nat) {arg : KernelArg} {i : Nat}
    (hi : indexOf arg = some i) :
    ∃ p, IsElement p arg ∧ (addArgument samplerOf a arg).1.args = a.1.args.set i p ∧
      (addArgument samplerOf a arg).1.localBuffers = a.1.localBuffers ++ (localBuffer arg).toList ∧
      (addArgument samplerOf a arg).1.autoLocalsSize = a.1.autoLocalsSize := by
  cases arg with
  | noArg => cases hi
  | localBufferArg index localSize =>
    obtain rfl := Option.some.inj hi
    exact ⟨_, rfl, rfl, rfl, rfl⟩
  | samplerArg index smplr =>
    obtain rfl := Option.some.inj hi
    exact ⟨_, ⟨a.2, rfl⟩, rfl, (List.append_nil _).symm, rfl⟩
  | _ =>
    obtain rfl := Option.some.inj hi
    exact ⟨_, rfl, rfl, (List.append_nil _).symm, rfl⟩

theorem addArguments_spec {samplerOf : Nat → Sampler} {args : List KernelArg}
    (hindex : ∀ (i : Nat) (arg : KernelArg), args[i]? = some arg → indexOf arg = some i)
    {a : CPUKernelArguments × Nat} (hlen : args.length ≤ a.1.args.length) (hlocal : a.1.localBuffers = [])
    {r : CPUKernelArguments × Nat} (hr : r = args.foldl (addArgument samplerOf) a) :
    r.1.args.length = a.1.args.length ∧ r.1.autoLocalsSize = a.1.autoLocalsSize ∧
      r.1.localBuffers = args.filterMap localBuffer ∧
      ∀ (i : Nat) (arg : KernelArg), args[i]? = some arg → ∃ p, r.1.args[i]? = some p ∧ IsElement p arg := by
  -- From the end: an argument writes its own element, which no earlier one has written.
  induction args using List.reverseRecOn generalizing r with
  | nil =>
    subst hr
    exact ⟨rfl, rfl, hlocal, fun i arg h => by simp at h⟩
  | append_singleton args arg ih =>
    rw [List.length_append, List.length_singleton] at hlen
    rw [List.foldl_append, List.foldl_cons, List.foldl_nil] at hr
    obtain ⟨hlen', hals, hlocals, hargs⟩ := ih (fun i x hx => hindex i x (by
      rw [List.getElem?_append_left (List.getElem?_eq_some_iff.1 hx).1, hx])) (by omega) rfl
    obtain ⟨p, hp, hset, hlocals', hals'⟩ := addArgument_spec samplerOf
      (args.foldl (addArgument samplerOf) a) (hindex args.length arg (by simp))
    subst hr
    refine ⟨by rw [hset, List.length_set, hlen'], hals'.trans hals, ?_, fun i x hx => ?_⟩
    · rw [hlocals', hlocals, List.filterMap_append]
      cases h : localBuffer arg <;> simp [h]
    · rw [hset]
      rcases Nat.lt_or_ge i args.length with hi | hi
      · rw [List.getElem?_append_left hi] at hx
        rw [List.getElem?_set_ne hi.ne']
        exact hargs i x hx
      · obtain rfl : i = args.length := by
          have := (List.getElem?_eq_some_iff.1 hx).1
          simp only [List.length_append, List.length_singleton] at this
          omega
        simp only [List.getElem?_concat_length, Option.some.injEq] at hx
        subst hx
        exact ⟨p, by rw [List.getElem?_set_self (by omega)], hp⟩

theorem localBuffer_eq_some {arg : KernelArg} {p : Nat × Nat} :
    localBuffer arg = some p ↔ arg = .localBufferArg p.1 p.2 := by
  cases arg <;> simp [localBuffer, Prod.ext_iff]

/-- The local buffers have each argument's own index. -/
theorem mem_localBuffers {args : List KernelArg}
    (hindex : ∀ (i : Nat) (arg : KernelArg), args[i]? = some arg → indexOf arg = some i) {p : Nat × Nat} :
    p ∈ args.filterMap localBuffer ↔ args[p.1]? = some (.localBufferArg p.1 p.2) := by
  simp only [List.mem_filterMap, localBuffer_eq_some]
  constructor
  · rintro ⟨arg, harg, rfl⟩
    obtain ⟨i, hi⟩ := List.getElem?_of_mem harg
    obtain rfl := Option.some.inj (hindex i _ hi)
    exact hi
  · intro hp
    exact ⟨_, List.mem_of_getElem? hp, rfl⟩

theorem localBuffers_nodup {args : List KernelArg}
    (hindex : ∀ (i : Nat) (arg : KernelArg), args[i]? = some arg → indexOf arg = some i) :
    ((args.filterMap localBuffer).map Prod.fst).Nodup := by
  refine List.pairwise_map.2 (List.pairwise_filterMap.2 (List.pairwise_iff_getElem.2 ?_))
  intro i j hi hj hij p hp q hq
  rw [localBuffer_eq_some] at hp hq
  have hpi := hindex i _ (List.getElem?_eq_getElem hi)
  have hqj := hindex j _ (List.getElem?_eq_getElem hj)
  rw [hp] at hpi
  rw [hq] at hqj
  simp only [indexOf, Option.some.injEq] at hpi hqj
  omega

/-! ## The local areas -/

/-- The offset of the local area that an element of the buffer points to. -/
def offsetAt (buffer : List Pointer) (i : Nat) : Nat :=
  match buffer[i]? with
  | some (.localMemory offset) => offset
  | _ => 0

theorem offsetAt_of {buffer : List Pointer} {i offset : Nat} (h : buffer[i]? = some (.localMemory offset)) :
    offsetAt buffer i = offset := by
  simp [offsetAt, h]

def placeLocals (locals : List (Nat × Nat)) (s : List Pointer × LocalMemory) :
    Checked (List Pointer × LocalMemory) :=
  locals.foldlM placeLocal s

theorem placeLocals_cons (p : Nat × Nat) (locals : List (Nat × Nat)) (s : List Pointer × LocalMemory) :
    placeLocals (p :: locals) s = placeLocal s p >>= placeLocals locals := List.foldlM_cons

/-- The elements of the arguments that are no local buffers stay, and the memory is the same. -/
theorem placeLocals_frame (locals : List (Nat × Nat)) (s : List Pointer × LocalMemory) :
    (placeLocals locals s).val.1.length = s.1.length ∧ (placeLocals locals s).val.2.size = s.2.size ∧
      (placeLocals locals s).val.2.static = s.2.static ∧
      ∀ i, i ∉ locals.map Prod.fst → (placeLocals locals s).val.1[i]? = s.1[i]? := by
  induction locals generalizing s with
  | nil => exact ⟨rfl, rfl, rfl, fun i _ => rfl⟩
  | cons p locals ih =>
    rw [placeLocals_cons, Checked.val_bind]
    obtain ⟨hlen, hsize, hstatic, hframe⟩ := ih (placeLocal s p).val
    refine ⟨hlen.trans (List.length_set ..), hsize, hstatic, fun i hi => ?_⟩
    simp only [List.map_cons, List.mem_cons, not_or] at hi
    rw [hframe i hi.2]
    exact List.getElem?_set_ne (Ne.symm hi.1)

/-- The first local buffer gets what is next. -/
theorem placeLocals_head {p : Nat × Nat} {locals : List (Nat × Nat)} {s : List Pointer × LocalMemory}
    (hp : p.1 ∉ locals.map Prod.fst) (hlt : p.1 < s.1.length) :
    (placeLocals locals (placeLocal s p).val).val.1[p.1]? = some (.localMemory s.2.next) := by
  rw [(placeLocals_frame locals (placeLocal s p).val).2.2.2 p.1 hp]
  exact List.getElem?_set_self hlt

/-- Each local buffer has its own place. -/
theorem placeLocals_element {locals : List (Nat × Nat)} (hnodup : (locals.map Prod.fst).Nodup)
    {s : List Pointer × LocalMemory} (hlt : ∀ p ∈ locals, p.1 < s.1.length) {p : Nat × Nat} (hp : p ∈ locals) :
    (placeLocals locals s).val.1[p.1]? = some (.localMemory (offsetAt (placeLocals locals s).val.1 p.1)) := by
  induction locals generalizing s with
  | nil => cases hp
  | cons q locals ih =>
    rw [List.map_cons, List.nodup_cons] at hnodup
    rw [placeLocals_cons, Checked.val_bind]
    rcases List.mem_cons.1 hp with rfl | hp
    · have hget := placeLocals_head hnodup.1 (hlt p (by simp))
      rw [offsetAt_of hget, hget]
    · exact ih hnodup.2 (fun r hr => (hlt r (by simp [hr])).trans_eq (List.length_set ..).symm) hp

theorem Fits.index {i : Nat} {ty : ArgType} {param : LLVMType} {arg : KernelArg} (h : Fits i ty param arg) :
    indexOf arg = some i := by
  cases arg with
  | noArg => exact h.elim
  | _ => exact congrArg some h.1

/-- An argument is a sampler, or by value, when its type is. -/
theorem Fits.kind {i : Nat} {ty : ArgType} {param : LLVMType} {arg : KernelArg} (h : Fits i ty param arg) :
    (ty.isSamplerArg = true ↔ ∃ index smplr, arg = .samplerArg index smplr) ∧
      (ty.isByValueArg = true ↔ ∃ index bytes size, arg = .byValueArg index bytes size) := by
  cases arg with
  | noArg => exact h.elim
  | bufferArg index buf =>
    rw [not_isByValueArg (.inl h.2.1)]
    cases ty <;> simp_all [Fits, ArgType.isBufferArg, ArgType.isSamplerArg]
  | localBufferArg index size =>
    rw [not_isByValueArg (.inr (.inl h.2.1))]
    cases ty <;> simp_all [Fits, ArgType.isLocalBufferArg, ArgType.isSamplerArg]
  | imageArg index img =>
    rw [not_isByValueArg (.inr (.inr (.inl h.2.1)))]
    cases ty <;> simp_all [Fits, ArgType.isImageArg, ArgType.isSamplerArg]
  | samplerArg index smplr =>
    rw [not_isByValueArg (.inr (.inr (.inr h.2.1)))]
    simp [h.2.1]
  | byValueArg index bytes size =>
    have hs : ty.isSamplerArg ≠ true := fun hs =>
      absurd h.2.1 (by rw [not_isByValueArg (.inr (.inr (.inr hs)))]; exact Bool.false_ne_true)
    simp [h.2.1, hs]

section Call
variable {samplerOf : Nat → Sampler} {kern : Kernel} {fn : Function} {lm : LocalMemory}

theorem Complete.indexed (h : Complete kern fn) (i : Nat) (arg : KernelArg) (harg : kern.arguments[i]? = some arg) :
    indexOf arg = some i := by
  have hi : i < kern.signature.length := h.length ▸ (List.getElem?_eq_some_iff.1 harg).1
  obtain ⟨arg', param, harg', -, hfits⟩ := h.fits i _ (List.getElem?_eq_getElem hi)
  obtain rfl : arg = arg' := Option.some.inj (harg.symm.trans harg')
  exact hfits.index

theorem Complete.fits_of (h : Complete kern fn) {i : Nat} {arg : KernelArg} {param : LLVMType}
    (harg : kern.arguments[i]? = some arg) (hparam : fn.params[i]? = some param) :
    ∃ ty, kern.signature[i]? = some ty ∧ Fits i ty param arg := by
  have hi : i < kern.signature.length := h.length ▸ (List.getElem?_eq_some_iff.1 harg).1
  obtain ⟨arg', param', harg', hparam', hfits⟩ := h.fits i _ (List.getElem?_eq_getElem hi)
  obtain rfl : arg = arg' := Option.some.inj (harg.symm.trans harg')
  obtain rfl : param = param' := Option.some.inj (hparam.symm.trans hparam')
  exact ⟨_, List.getElem?_eq_getElem hi, hfits⟩

/-- What `createKernelArguments` makes of a complete assignment. -/
theorem createKernelArguments_spec (samplerOf : Nat → Sampler) (h : Complete kern fn) (als : Nat) :
    (createKernelArguments samplerOf kern als).args.length = kern.arguments.length ∧
      (createKernelArguments samplerOf kern als).autoLocalsSize = als ∧
      (createKernelArguments samplerOf kern als).localBuffers = kern.arguments.filterMap localBuffer ∧
      ∀ (i : Nat) (arg : KernelArg), kern.arguments[i]? = some arg →
        ∃ p, (createKernelArguments samplerOf kern als).args[i]? = some p ∧ IsElement p arg := by
  have hcount : kern.arguments.length = (List.replicate kern.getArgCount Pointer.null).length := by
    rw [List.length_replicate]
    exact h.length
  obtain ⟨hlen, hals, hlocals, hargs⟩ := addArguments_spec h.indexed
    (a := ({ args := List.replicate kern.getArgCount .null, autoLocalsSize := als,
             samplers := List.replicate (kern.arguments.countP isSampler) .null }, 0)) hcount.le rfl rfl
  exact ⟨hlen.trans hcount.symm, hals, hlocals, hargs⟩

/-- Where the loop over the local buffers starts. -/
def placing (samplerOf : Nat → Sampler) (kern : Kernel) (fn : Function) (lm : LocalMemory) :
    List Pointer × LocalMemory :=
  ((createKernelArguments samplerOf kern fn.automaticLocalsSize).args ++
    if 0 < fn.automaticLocalsSize then [.null] else [], (lm.reset fn.automaticLocalsSize).val)

/-- The pointers of the buffer, and what it has for the automatic locals. -/
def placed (samplerOf : Nat → Sampler) (kern : Kernel) (fn : Function) (lm : LocalMemory) :
    Checked (List Pointer × LocalMemory) :=
  placeLocals (kern.arguments.filterMap localBuffer) (placing samplerOf kern fn lm)

/-- The buffer that the stub reads. -/
def buffer (samplerOf : Nat → Sampler) (kern : Kernel) (fn : Function) (lm : LocalMemory) : List Pointer :=
  ((createKernelArguments samplerOf kern fn.automaticLocalsSize).prepareArgumentsBuffer lm).val

/-- An argument of the call is what its instructions read. -/
theorem callKernel_getElem (samplerOf : Nat → Sampler) (kern : Kernel) (fn : Function) (lm : LocalMemory)
    {i : Nat} {param : LLVMType} (hparam : fn.args[i]? = some param) :
    (callKernel samplerOf kern fn lm).val[i]? = some ((buildArg i param).eval
      { argsBuffer := buffer samplerOf kern fn lm,
        samplers := (createKernelArguments samplerOf kern fn.automaticLocalsSize).samplers,
        byVal := byValOf kern.arguments }) := by
  simp [callKernel, buffer, buildStub, hparam]

/-- A pointer is passed as the buffer has it. -/
theorem eval_buildArg_pointer (m : Memory) (j : Nat) :
    (buildArg j .pointer).eval m = m.argsBuffer[j]?.map .pointer := rfl

theorem placing_length (h : Complete kern fn) : (placing samplerOf kern fn lm).1.length =
    kern.arguments.length + if 0 < fn.automaticLocalsSize then 1 else 0 := by
  obtain ⟨hlen, -⟩ := createKernelArguments_spec samplerOf h fn.automaticLocalsSize
  rw [placing, List.length_append, hlen]
  split <;> rfl

theorem local_lt (samplerOf : Nat → Sampler) (lm : LocalMemory) (h : Complete kern fn) :
    ∀ p ∈ kern.arguments.filterMap localBuffer, p.1 < (placing samplerOf kern fn lm).1.length := by
  intro p hp
  rw [placing_length h]
  exact Nat.lt_add_right _ (List.getElem?_eq_some_iff.1 ((mem_localBuffers h.indexed).1 hp)).1

theorem buffer_eq (h : Complete kern fn) : buffer samplerOf kern fn lm =
    if 0 < fn.automaticLocalsSize then (placed samplerOf kern fn lm).val.1.set kern.arguments.length (.localMemory 0)
    else (placed samplerOf kern fn lm).val.1 := by
  obtain ⟨hlen, hals, hlocals, -⟩ := createKernelArguments_spec samplerOf h fn.automaticLocalsSize
  simp only [buffer, CPUKernelArguments.prepareArgumentsBuffer, hals, hlocals, Checked.val_bind, Checked.val_pure,
    decide_eq_true_eq, hlen]
  split
  · next hpos =>
    have hstatic : (placed samplerOf kern fn lm).val.2.static = .localMemory 0 :=
      (placeLocals_frame (kern.arguments.filterMap localBuffer) (placing samplerOf kern fn lm)).2.2.1.trans
        (if_pos hpos.ne')
    rw [← hstatic]
    simp [placed, placing, hpos, placeLocals]
  · next hzero => simp [placed, placing, hzero, placeLocals]

/-- The elements of the arguments, after the local buffers are placed. -/
theorem buffer_getElem (h : Complete kern fn) {i : Nat} (hi : i < kern.arguments.length) :
    (buffer samplerOf kern fn lm)[i]? = (placed samplerOf kern fn lm).val.1[i]? := by
  rw [buffer_eq h]
  split
  · exact List.getElem?_set_ne hi.ne'
  · rfl

theorem buffer_local (h : Complete kern fn) {i index size : Nat}
    (harg : kern.arguments[i]? = some (.localBufferArg index size)) :
    (buffer samplerOf kern fn lm)[i]? = some (.localMemory (offsetAt (placed samplerOf kern fn lm).val.1 i)) := by
  obtain rfl : index = i := Option.some.inj (h.indexed i _ harg)
  rw [buffer_getElem h (List.getElem?_eq_some_iff.1 harg).1]
  have hmem : (index, size) ∈ kern.arguments.filterMap localBuffer := (mem_localBuffers h.indexed).2 harg
  exact placeLocals_element (localBuffers_nodup h.indexed) (local_lt samplerOf lm h) hmem

theorem args_getElem {i : Nat} {param : LLVMType} (h : fn.params[i]? = some param) : fn.args[i]? = some param := by
  rw [Function.args, List.getElem?_append_left (List.getElem?_eq_some_iff.1 h).1, h]

/-- A parameter that is a pointer gets the element of the buffer. -/
theorem call_pointer (samplerOf : Nat → Sampler) (kern : Kernel) (lm : LocalMemory) {i : Nat}
    (hparam : fn.args[i]? = some .pointer) :
    (callKernel samplerOf kern fn lm).val[i]? = some ((buffer samplerOf kern fn lm)[i]?.map .pointer) := by
  rw [callKernel_getElem samplerOf kern fn lm hparam, eval_buildArg_pointer]

/-- The kernel gets the place of a local buffer. -/
theorem call_local (h : Complete kern fn) {i index size : Nat}
    (harg : kern.arguments[i]? = some (.localBufferArg index size)) :
    (callKernel samplerOf kern fn lm).val[i]? =
      some (some (.pointer (.localMemory (offsetAt (placed samplerOf kern fn lm).val.1 i)))) := by
  have hi : i < fn.params.length := h.count ▸ h.length ▸ (List.getElem?_eq_some_iff.1 harg).1
  obtain ⟨-, -, -, -, hparam⟩ := h.fits_of harg (List.getElem?_eq_getElem hi)
  have hpointer : fn.args[i]? = some .pointer := args_getElem (hparam ▸ List.getElem?_eq_getElem hi)
  rw [call_pointer samplerOf kern lm hpointer, buffer_local h harg]
  rfl

/-- The sizes of the local buffers. -/
def localSizes (kern : Kernel) : List Nat := (kern.arguments.filterMap localBuffer).map Prod.snd

end Call

/-! ## A kernel with three kinds of arguments, and one with a sampler -/

def memory : LocalMemory where
  size := 32768
  size_lt := by decide

/-- `look(sampler_t s)` -/
def look : Kernel where
  isBuiltForDevice := true
  context := 0
  requiredWorkGroupSizes := none
  signature := [.image .sampler]
  paramTypes := [.other 8]
  arguments := [.samplerArg 0 (some 0)]

end OpenCRun.KernelArgs.Stub
