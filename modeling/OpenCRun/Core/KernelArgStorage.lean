import OpenCRun.Device.KernelArguments
import OpenCRun.Lib.Ownership
import OpenCRun.Lib.Runs
/-!
# Where the arguments of a kernel are kept

A `KernelArg` is a union that holds a reference to an object, or a block of
the heap with the bytes of an argument by value; its special members copy,
move and destroy what it holds. We show that kernels, and the copies of them
that commands keep, behave as if their arguments were plain values.
-/
open Lib OpenCRun.Ownership OpenCRun.KernelArgs
open OpenCRun.KernelArgs.Stub (setHandleArg_ok setLocalBufferArg_ok setByValueArg_ok)

namespace OpenCRun.KernelArgStorage

/-! ## The union -/

inductive KernelArgKind where
  | noArg | bufferArg | localBufferArg | imageArg | samplerArg | byValueArg
  deriving DecidableEq, Repr

/-- The member of the union that was written last. -/
inductive Member where
  | unset
  /-- An `IntrusiveRefCntPtr` -/
  | ref (object : Option Nat)
  | byVal (ptr size : Nat)
  | localSize (size : Nat)
  deriving DecidableEq, Repr

structure Object where
  kind : KernelArgKind := .noArg
  index : Nat := 0
  val : Member := .unset
  deriving DecidableEq, Repr

structure Memory where
  heap : Heap (List UInt8)
  /-- The counts of the objects. -/
  refs : Counts

namespace Memory

def retain (m : Memory) : Option Nat → Memory
  | none => m
  | some o => { m with refs := m.refs.retain o }

def release (m : Memory) : Option Nat → Option Memory
  | none => some m
  | some o => (m.refs.release o).map fun refs => { m with refs }

/-- `NaturalAlignedAlloc` and `memcpy` -/
def allocCopy (A : Allocator) (m : Memory) (bytes : List UInt8) : Nat × Memory :=
  let (p, heap) := m.heap.alloc A bytes
  (p, { m with heap })

end Memory

namespace Object

/-- The constructors that `SetArg` uses. -/
def construct (A : Allocator) (m : Memory) : KernelArgs.KernelArg → Object × Memory
  | .noArg => ({}, m)
  | .bufferArg index buf => ({ kind := .bufferArg, index, val := .ref buf }, m.retain buf)
  | .imageArg index img => ({ kind := .imageArg, index, val := .ref img }, m.retain img)
  | .samplerArg index smplr => ({ kind := .samplerArg, index, val := .ref smplr }, m.retain smplr)
  | .byValueArg index bytes size =>
    let (p, m) := m.allocCopy A (bytes.take size)
    ({ kind := .byValueArg, index, val := .byVal p size }, m)
  | .localBufferArg index localSize => ({ kind := .localBufferArg, index, val := .localSize localSize }, m)

/-- `KernelArg(const KernelArg &)`; `none` where it would read another member than the last one, or what is not there. -/
def copyConstruct (A : Allocator) (m : Memory) (a : Object) : Option (Object × Memory) :=
  match a.kind, a.val with
  | .noArg, _ => some ({ a with val := .unset }, m)
  | .bufferArg, .ref o | .imageArg, .ref o | .samplerArg, .ref o => some (a, m.retain o)
  | .byValueArg, .byVal p size => do
    let bytes ← m.heap.get p
    if bytes.length < size then none
    else
      let (q, m) := m.allocCopy A (bytes.take size)
      some ({ a with val := .byVal q size }, m)
  | .localBufferArg, .localSize _ => some (a, m)
  | _, _ => none

/-- `KernelArg(KernelArg &&)`: the new one, and what is left of the other. -/
def moveConstruct (a : Object) : Option (Object × Object) :=
  match a.kind, a.val with
  | .noArg, _ => some ({ a with val := .unset }, a)
  | .bufferArg, .ref _ | .imageArg, .ref _ | .samplerArg, .ref _ =>
    some (a, { a with kind := .noArg, val := .ref none })
  | .byValueArg, .byVal .. | .localBufferArg, .localSize _ => some (a, { a with kind := .noArg })
  | _, _ => none

/-- `~KernelArg` -/
def destroy (m : Memory) (a : Object) : Option Memory :=
  match a.kind, a.val with
  | .noArg, _ => some m
  | .bufferArg, .ref o | .imageArg, .ref o | .samplerArg, .ref o => m.release o
  | .byValueArg, .byVal p _ => (m.heap.free p).map fun heap => { m with heap }
  | .localBufferArg, _ => some m
  | _, _ => none

/-- `operator=(KernelArg &&)` -/
def moveAssign (m : Memory) (a b : Object) : Option (Object × Object × Memory) := do
  let m ← a.destroy m
  let (a, b) ← b.moveConstruct
  some (a, b, m)

/-- What the getters read. -/
def value (m : Memory) (a : Object) : Option KernelArgs.KernelArg :=
  match a.kind, a.val with
  | .noArg, _ => some .noArg
  | .bufferArg, .ref o => some (.bufferArg a.index o)
  | .imageArg, .ref o => some (.imageArg a.index o)
  | .samplerArg, .ref o => some (.samplerArg a.index o)
  | .byValueArg, .byVal p size => (m.heap.get p).map fun bytes => .byValueArg a.index bytes size
  | .localBufferArg, .localSize n => some (.localBufferArg a.index n)
  | _, _ => none

end Object

/-! ## Kernels -/

/-- A kernel, of which the arguments are kept apart. -/
structure StoredKernel where
  kernel : KernelArgs.Kernel
  arguments : List Object

/-- `Arguments[I] = KernelArg(…)`: the temporary is moved from, and destroyed. -/
def store (A : Allocator) (m : Memory) (args : List Object) (i : Nat) (v : KernelArgs.KernelArg) :
    Option (List Object × Memory) := do
  let (temp, m) := Object.construct A m v
  let (a, temp, m) ← Object.moveAssign m (← args[i]?) temp
  let m ← temp.destroy m
  some (args.set i a, m)

/-- The copy constructor of the vector. -/
def copyArgs (A : Allocator) (m : Memory) : List Object → Option (List Object × Memory)
  | [] => some ([], m)
  | a :: args => do
    let (a', m) ← a.copyConstruct A m
    let (args', m) ← copyArgs A m args
    some (a' :: args', m)

/-- Its destructor. -/
def destroyArgs (m : Memory) : List Object → Option Memory
  | [] => some m
  | a :: args => do
    let m ← a.destroy m
    destroyArgs m args

inductive Op where
  /-- `Kernel(KernelDescriptor *)` -/
  | create (k : KernelArgs.Kernel)
  /-- `SetArg` -/
  | setArg (i : Nat) (c : KernelArgs.Kernel.Call)
  /-- A command takes a copy of the kernel. -/
  | enqueue (i : Nat)
  /-- `~Kernel`, of a kernel or of the copy of a command -/
  | destroy (i : Nat)
  /-- Others take a reference to an object. -/
  | retain (o : Nat)
  | release (o : Nat)

structure System where
  memory : Memory
  /-- The kernels, and the copies of the commands. -/
  kernels : List StoredKernel

section System
variable (A : Allocator) (contextOf : Nat → Nat)

/-- `none` where a member of `KernelArg` is undefined. -/
def System.step (s : System) : Op → Option System
  | .create k =>
    some { s with kernels := s.kernels ++ [{ kernel := k, arguments := List.replicate k.getArgCount {} }] }
  | .setArg i c => do
    let k ← s.kernels[i]?
    match (k.kernel.setArgAs contextOf c).val with
    | .error _ => some s
    | .ok v =>
      let (arguments, memory) ← store A s.memory k.arguments c.index v
      some { memory, kernels := s.kernels.set i { k with arguments } }
  | .enqueue i => do
    let k ← s.kernels[i]?
    let (arguments, memory) ← copyArgs A s.memory k.arguments
    some { memory, kernels := s.kernels ++ [{ k with arguments }] }
  | .destroy i => do
    let k ← s.kernels[i]?
    let memory ← destroyArgs s.memory k.arguments
    some { memory, kernels := s.kernels.eraseIdx i }
  | .retain o => some { s with memory := s.memory.retain (some o) }
  | .release o => (s.memory.release (some o)).map fun memory => { s with memory }

def System.start : System := { memory := { heap := [], refs := fun _ => 0 }, kernels := [] }

end System

/-! ## Plain values -/

/-- The same with arguments that are values. -/
structure Plain where
  kernels : List KernelArgs.Kernel
  /-- The references that others hold. -/
  others : Counts

/-- `none` where the application does what it may not. -/
def Plain.step (contextOf : Nat → Nat) (t : Plain) : Op → Option Plain
  | .create k =>
    some { t with kernels := t.kernels ++ [{ k with arguments := List.replicate k.getArgCount .noArg }] }
  | .setArg i c => do
    let k ← t.kernels[i]?
    if (k.setArgAs contextOf c).ok then some { t with kernels := t.kernels.set i (k.setArg contextOf c).1 } else none
  | .enqueue i => do
    let k ← t.kernels[i]?
    some { t with kernels := t.kernels ++ [k] }
  | .destroy i => do
    let _ ← t.kernels[i]?
    some { t with kernels := t.kernels.eraseIdx i }
  | .retain o => some { t with others := t.others.retain o }
  | .release o => (t.others.release o).map fun others => { t with others }

def Plain.start : Plain := { kernels := [], others := fun _ => 0 }

/-! ## What an argument holds -/

def references (o : Option Nat) : Resources (List UInt8) := o.elim 0 reference

/-- The object keeps the value, with the resources that it owns. -/
inductive Holds : Object → KernelArgs.KernelArg → Resources (List UInt8) → Prop
  | noArg (index : Nat) (val : Member) : Holds { kind := .noArg, index, val } .noArg 0
  | bufferArg (index : Nat) (buf : Option Nat) :
    Holds { kind := .bufferArg, index, val := .ref buf } (.bufferArg index buf) (references buf)
  | imageArg (index : Nat) (img : Option Nat) :
    Holds { kind := .imageArg, index, val := .ref img } (.imageArg index img) (references img)
  | samplerArg (index : Nat) (smplr : Option Nat) :
    Holds { kind := .samplerArg, index, val := .ref smplr } (.samplerArg index smplr) (references smplr)
  | localBufferArg (index size : Nat) :
    Holds { kind := .localBufferArg, index, val := .localSize size } (.localBufferArg index size) 0
  | byValueArg (index p : Nat) (bytes : List UInt8) :
    Holds { kind := .byValueArg, index, val := .byVal p bytes.length } (.byValueArg index bytes bytes.length)
      (block p bytes)

/-- The memory has these resources, and others have references too. -/
def Memory.Has (m : Memory) (others : Counts) (ρ : Resources (List UInt8)) : Prop := Owned m.heap m.refs others ρ

section Members
variable {m : Memory} {others : Counts} {ρ φ : Resources (List UInt8)} {a : Object} {v : KernelArgs.KernelArg}

theorem Memory.Has.zero (H : m.Has others φ) : m.Has others (0 + φ) := by
  rwa [zero_add]

theorem retain_spec (H : m.Has others φ) (o : Option Nat) : (m.retain o).Has others (references o + φ) := by
  cases o with
  | none => exact H.zero
  | some o => exact Owned.retain H o

theorem release_spec {o : Option Nat} (H : m.Has others (references o + φ)) :
    ∃ m', m.release o = some m' ∧ m'.Has others φ := by
  cases o with
  | none => exact ⟨m, rfl, zero_add φ ▸ H⟩
  | some o =>
    obtain ⟨refs, hrelease, H'⟩ := Owned.release H
    exact ⟨{ m with refs }, by rw [Memory.release, hrelease]; rfl, H'⟩

theorem allocCopy_spec (A : Allocator) (H : m.Has others φ) (bytes : List UInt8) :
    (m.allocCopy A bytes).2.Has others (block (m.allocCopy A bytes).1 bytes + φ) :=
  Owned.alloc A H bytes

/-- An argument by value has as many bytes as its size says. -/
def Sized : KernelArgs.KernelArg → Prop
  | .byValueArg _ bytes size => bytes.length = size
  | _ => True

theorem construct_spec (A : Allocator) (H : m.Has others φ) (hv : Sized v) : ∃ ρ,
    Holds (Object.construct A m v).1 v ρ ∧ (Object.construct A m v).2.Has others (ρ + φ) := by
  cases v with
  | noArg => exact ⟨0, .noArg .., H.zero⟩
  | bufferArg index buf => exact ⟨_, .bufferArg .., retain_spec H buf⟩
  | imageArg index img => exact ⟨_, .imageArg .., retain_spec H img⟩
  | samplerArg index smplr => exact ⟨_, .samplerArg .., retain_spec H smplr⟩
  | localBufferArg index size => exact ⟨0, .localBufferArg .., H.zero⟩
  | byValueArg index bytes size =>
    obtain rfl : bytes.length = size := hv
    have hbytes : bytes.take bytes.length = bytes := List.take_length
    refine ⟨block (m.allocCopy A bytes).1 bytes, ?_, ?_⟩
    · rw [Object.construct, hbytes]
      exact .byValueArg ..
    · rw [Object.construct, hbytes]
      exact allocCopy_spec A H bytes

/-- The copy holds the same value, and resources of its own. -/
theorem copyConstruct_spec (A : Allocator) (h : Holds a v ρ) (H : m.Has others (ρ + φ)) : ∃ a' m' ρ',
    a.copyConstruct A m = some (a', m') ∧ Holds a' v ρ' ∧ m'.Has others (ρ' + (ρ + φ)) := by
  cases h with
  | noArg index val => exact ⟨_, _, 0, rfl, .noArg .., H.zero⟩
  | bufferArg index buf => exact ⟨_, _, _, rfl, .bufferArg .., retain_spec H buf⟩
  | imageArg index img => exact ⟨_, _, _, rfl, .imageArg .., retain_spec H img⟩
  | samplerArg index smplr => exact ⟨_, _, _, rfl, .samplerArg .., retain_spec H smplr⟩
  | localBufferArg index size => exact ⟨_, _, 0, rfl, .localBufferArg .., H.zero⟩
  | byValueArg index p bytes =>
    have hget : m.heap.get p = some bytes := Owned.get H
    refine ⟨_, _, _, ?_, .byValueArg index (m.allocCopy A bytes).1 bytes, allocCopy_spec A H bytes⟩
    simp [Object.copyConstruct, hget]

theorem moveConstruct_spec (h : Holds a v ρ) :
    ∃ a' b, a.moveConstruct = some (a', b) ∧ Holds a' v ρ ∧ Holds b .noArg 0 := by
  cases h with
  | noArg index val => exact ⟨_, _, rfl, .noArg .., .noArg ..⟩
  | bufferArg index buf => exact ⟨_, _, rfl, .bufferArg .., .noArg ..⟩
  | imageArg index img => exact ⟨_, _, rfl, .imageArg .., .noArg ..⟩
  | samplerArg index smplr => exact ⟨_, _, rfl, .samplerArg .., .noArg ..⟩
  | localBufferArg index size => exact ⟨_, _, rfl, .localBufferArg .., .noArg ..⟩
  | byValueArg index p bytes => exact ⟨_, _, rfl, .byValueArg .., .noArg ..⟩

theorem destroy_spec (h : Holds a v ρ) (H : m.Has others (ρ + φ)) :
    ∃ m', a.destroy m = some m' ∧ m'.Has others φ := by
  cases h with
  | noArg index val => exact ⟨m, rfl, zero_add φ ▸ H⟩
  | bufferArg index buf => exact release_spec H
  | imageArg index img => exact release_spec H
  | samplerArg index smplr => exact release_spec H
  | localBufferArg index size => exact ⟨m, rfl, zero_add φ ▸ H⟩
  | byValueArg index p bytes =>
    obtain ⟨heap, hfree, H'⟩ := Owned.free H
    exact ⟨{ m with heap }, by simp [Object.destroy, hfree], H'⟩

theorem value_eq (h : Holds a v ρ) (H : m.Has others (ρ + φ)) : a.value m = some v := by
  cases h with
  | byValueArg index p bytes =>
    have hget : m.heap.get p = some bytes := Owned.get H
    simp [Object.value, hget]
  | _ => rfl

end Members

/-! ## The vector -/

section Vector
variable {m : Memory} {others : Counts} {ρ φ : Resources (List UInt8)} {args : List Object}
  {vs : List KernelArgs.KernelArg}

theorem copyArgs_spec (A : Allocator) (h : Each Holds args vs ρ) (H : m.Has others (ρ + φ)) : ∃ args' m' ρ',
    copyArgs A m args = some (args', m') ∧ Each Holds args' vs ρ' ∧ m'.Has others (ρ' + (ρ + φ)) := by
  induction h generalizing m φ with
  | nil => exact ⟨[], m, 0, rfl, .nil, H.zero⟩
  | @cons a v ρ₁ ρ₂ args vs ha _ ih =>
    rw [add_assoc] at H
    obtain ⟨a', m₁, ρ₁', hcopy, ha', H₁⟩ := copyConstruct_spec A ha H
    -- The resources of the copy and of the first argument stay aside.
    have H₁' : m₁.Has others (ρ₂ + (ρ₁' + ρ₁ + φ)) := by
      convert H₁ using 1
      ac_rfl
    obtain ⟨args', m₂, ρ₂', hrest, hargs', H₂⟩ := ih H₁'
    refine ⟨a' :: args', m₂, ρ₁' + ρ₂', ?_, .cons ha' hargs', ?_⟩
    · simp [copyArgs, hcopy, hrest]
    · convert H₂ using 1
      ac_rfl

theorem destroyArgs_spec (h : Each Holds args vs ρ) (H : m.Has others (ρ + φ)) :
    ∃ m', destroyArgs m args = some m' ∧ m'.Has others φ := by
  induction h generalizing m φ with
  | nil => exact ⟨m, rfl, zero_add φ ▸ H⟩
  | @cons a v ρ₁ ρ₂ args vs ha _ ih =>
    rw [add_assoc] at H
    obtain ⟨m₁, hdestroy, H₁⟩ := destroy_spec ha H
    obtain ⟨m₂, hrest, H₂⟩ := ih H₁
    refine ⟨m₂, ?_, H₂⟩
    rw [destroyArgs, hdestroy, Option.bind_eq_bind, Option.bind_some, hrest]

/-- What was stored before is destroyed, and the temporary holds nothing at its end. -/
theorem store_spec (A : Allocator) (h : Each Holds args vs ρ) (H : m.Has others (ρ + φ)) {i : Nat} (hi : i < vs.length)
    {v : KernelArgs.KernelArg} (hv : Sized v) : ∃ args' m' ρ', store A m args i v = some (args', m') ∧
      Each Holds args' (vs.set i v) ρ' ∧ m'.Has others (ρ' + φ) := by
  obtain ⟨ρᵥ, htemp, H₁⟩ := construct_spec A H hv
  obtain ⟨a, ρ₁, ρ₂, ha, hold, rfl, -, hset⟩ := h.at_index (List.getElem?_eq_getElem hi)
  have H₁' : (Object.construct A m v).2.Has others (ρ₁ + (ρᵥ + ρ₂ + φ)) := by
    convert H₁ using 1
    ac_rfl
  obtain ⟨m₂, hdestroy, H₂⟩ := destroy_spec hold H₁'
  obtain ⟨a', temp, hmove, hnew, hempty⟩ := moveConstruct_spec htemp
  obtain ⟨m₃, hlast, H₃⟩ := destroy_spec hempty H₂.zero
  refine ⟨args.set i a', m₃, ρᵥ + ρ₂, ?_, hset a' v ρᵥ hnew, H₃⟩
  simp [store, Object.moveAssign, ha, hdestroy, hmove, hlast]

end Vector

/-! ## Runs -/

def StoredHolds (k : StoredKernel) (k' : KernelArgs.Kernel) (ρ : Resources (List UInt8)) : Prop :=
  ∃ vs, k' = { k.kernel with arguments := vs } ∧ vs.length = k.kernel.getArgCount ∧ Each Holds k.arguments vs ρ

/-- The kernels keep the plain values, and own all of the memory. -/
def Keeps (s : System) (t : Plain) : Prop :=
  ∃ ρ, Each StoredHolds s.kernels t.kernels ρ ∧ s.memory.Has t.others ρ

variable {contextOf : Nat → Nat}

/-- What a call stores has the size that it was checked for, at an index of the kernel. -/
theorem sized_of_sets {k : KernelArgs.Kernel} {c : KernelArgs.Kernel.Call} {v : KernelArgs.KernelArg}
    (hok : (k.setArgAs contextOf c).ok = true) (hv : (k.setArgAs contextOf c).val = .ok v) :
    Sized v ∧ c.index < k.getArgCount := by
  unfold KernelArgs.Kernel.setArgAs at hok hv
  cases hty : k.signature[c.index]? with
  | none =>
    rw [hty] at hv
    cases hv
  | some ty =>
    refine ⟨?_, (List.getElem?_eq_some_iff.1 hty).1⟩
    rw [hty] at hok hv
    dsimp only at hok hv
    -- In the order in which `SetArg` asks for the kind.
    by_cases hb : ty.isBufferArg = true
    · rw [if_pos hb] at hv
      obtain ⟨handle, rfl⟩ := setHandleArg_ok hv
      trivial
    by_cases hl : ty.isLocalBufferArg = true
    · rw [if_neg hb, if_pos hl] at hv
      obtain rfl := setLocalBufferArg_ok hv
      trivial
    by_cases hi : ty.isImageArg = true
    · rw [if_neg hb, if_neg hl, if_pos hi] at hv
      obtain ⟨handle, rfl⟩ := setHandleArg_ok hv
      trivial
    by_cases hs : ty.isSamplerArg = true
    · rw [if_neg hb, if_neg hl, if_neg hi, if_pos hs] at hv
      obtain ⟨handle, rfl⟩ := setHandleArg_ok hv
      trivial
    · rw [if_neg hb, if_neg hl, if_neg hi, if_neg hs] at hok hv
      have hindex : c.index < k.paramTypes.length := by
        simp only [KernelArgs.Kernel.setByValueArg, Checked.ok_bind, Checked.ok_check, Bool.and_eq_true,
          decide_eq_true_eq] at hok
        exact hok.1
      obtain ⟨bytes, rfl, hlen, -⟩ := setByValueArg_ok (List.getElem?_eq_getElem hindex) hok hv
      exact hlen

theorem StoredHolds.setArgAs {k : StoredKernel} {k' : KernelArgs.Kernel} {ρ : Resources (List UInt8)}
    (h : StoredHolds k k' ρ) (c : KernelArgs.Kernel.Call) :
    k'.setArgAs contextOf c = k.kernel.setArgAs contextOf c := by
  obtain ⟨vs, rfl, -, -⟩ := h
  rfl

/-- Whatever the application may do, the special members are defined, and go on keeping the values. -/
theorem step_simulates (A : Allocator) {s : System} {t t' : Plain} (h : Keeps s t) {op : Op}
    (hstep : t.step contextOf op = some t') : ∃ s', s.step A contextOf op = some s' ∧ Keeps s' t' := by
  obtain ⟨ρ, hkernels, H⟩ := h
  cases op with
  | create k =>
    cases hstep
    have hnew : StoredHolds { kernel := k, arguments := List.replicate k.getArgCount {} }
        { k with arguments := List.replicate k.getArgCount .noArg } 0 :=
      ⟨_, rfl, List.length_replicate, .replicate _ (.noArg ..)⟩
    exact ⟨_, rfl, _, hkernels.snoc hnew, H.zero⟩
  | setArg i c =>
    obtain ⟨k', hk', hstep⟩ := Option.bind_eq_some_iff.1 hstep
    split at hstep
    · next hok =>
      cases hstep
      obtain ⟨k, ρ₁, ρ₂, hk, hstored, rfl, -, hset⟩ := hkernels.at_index hk'
      have hcall : k'.setArgAs contextOf c = k.kernel.setArgAs contextOf c := hstored.setArgAs c
      obtain ⟨vs, hvs, hlen, hargs⟩ := hstored
      cases hv : (k'.setArgAs contextOf c).val with
      | error e =>
        -- A call that is refused changes nothing.
        have hsame : t.kernels.set i (k'.setArg contextOf c).1 = t.kernels := by
          rw [KernelArgs.Kernel.setArg, hv]
          obtain ⟨hi, rfl⟩ := List.getElem?_eq_some_iff.1 hk'
          exact List.set_getElem_self hi
        refine ⟨s, ?_, ρ₁ + ρ₂, by rw [hsame]; exact hkernels, H⟩
        simp [System.step, hk, ← hcall, hv]
      | ok v =>
        obtain ⟨hsized, hindex⟩ := sized_of_sets hok hv
        have hstored : (k'.setArg contextOf c).1 = k'.store c.index v := by rw [KernelArgs.Kernel.setArg, hv]
        have hcount : k'.getArgCount = vs.length := by rw [hvs, hlen]; rfl
        obtain ⟨args, m, ρ', hstore, hargs', H'⟩ := store_spec A hargs H (hcount ▸ hindex) hsized
        refine ⟨{ memory := m, kernels := s.kernels.set i { k with arguments := args } }, ?_, ρ' + ρ₂, ?_, H'⟩
        · simp [System.step, hk, ← hcall, hv, hstore]
        · refine hset _ _ ρ' ⟨vs.set c.index v, ?_, List.length_set.trans hlen, hargs'⟩
          rw [hstored, hvs]
          rfl
    · cases hstep
  | enqueue i =>
    obtain ⟨k', hk', hstep⟩ := Option.bind_eq_some_iff.1 hstep
    cases hstep
    obtain ⟨k, ρ₁, ρ₂, hk, ⟨vs, rfl, hlen, hargs⟩, rfl, -, -⟩ := hkernels.at_index hk'
    obtain ⟨args, m, ρ', hcopy, hargs', H'⟩ := copyArgs_spec A hargs H
    refine ⟨{ memory := m, kernels := s.kernels ++ [{ k with arguments := args }] }, ?_, ρ' + (ρ₁ + ρ₂), ?_, H'⟩
    · simp [System.step, hk, hcopy]
    · exact hkernels.snoc ⟨vs, rfl, hlen, hargs'⟩
  | destroy i =>
    obtain ⟨k', hk', hstep⟩ := Option.bind_eq_some_iff.1 hstep
    cases hstep
    obtain ⟨k, ρ₁, ρ₂, hk, ⟨vs, rfl, hlen, hargs⟩, rfl, herase, -⟩ := hkernels.at_index hk'
    obtain ⟨m, hdestroy, H'⟩ := destroyArgs_spec hargs H
    refine ⟨{ memory := m, kernels := s.kernels.eraseIdx i }, ?_, ρ₂, herase, H'⟩
    simp [System.step, hk, hdestroy]
  | retain o =>
    cases hstep
    exact ⟨_, rfl, ρ, hkernels, Owned.retain_elsewhere H o⟩
  | release o =>
    obtain ⟨others, hothers, rfl⟩ := Option.map_eq_some_iff.1 hstep
    obtain ⟨refs, hrelease, H'⟩ := Owned.release_elsewhere H hothers
    refine ⟨{ s with memory := { s.memory with refs } }, ?_, ρ, hkernels, H'⟩
    simp [System.step, Memory.release, hrelease]

/-! ## What is kept -/

/-- The bytes of an argument that is kept in a block. -/
def bytes? : KernelArgs.KernelArg → Option (List UInt8)
  | .byValueArg _ bytes _ => some bytes
  | _ => none

/-- The object that an argument refers to. -/
def object? : KernelArgs.KernelArg → Option Nat
  | .bufferArg _ o | .imageArg _ o | .samplerArg _ o => o
  | _ => none

namespace Plain

/-- The arguments of all kernels and of all copies. -/
def arguments (t : Plain) : List KernelArgs.KernelArg := t.kernels.flatMap (·.arguments)

def blocks (t : Plain) : List (List UInt8) := t.arguments.filterMap bytes?

def objects (t : Plain) : List Nat := t.arguments.filterMap object?

end Plain

section Kept
variable {ρ : Resources (List UInt8)}

def contents : Resources (List UInt8) →+ Multiset (List UInt8) where
  toFun ρ := ρ.1.map Prod.snd
  map_zero' := rfl
  map_add' _ _ := Multiset.map_add _ _ _

theorem contents_eq {a : Object} {v : KernelArgs.KernelArg} (h : Holds a v ρ) :
    contents ρ = ((bytes? v).toList : Multiset _) := by
  cases h with
  | byValueArg index p bytes => rfl
  | noArg => rfl
  | localBufferArg => rfl
  | bufferArg index o | imageArg index o | samplerArg index o =>
    cases o with
    | none => rfl
    | some o => rfl

theorem objects_eq {a : Object} {v : KernelArgs.KernelArg} (h : Holds a v ρ) :
    AddMonoidHom.snd _ _ ρ = ((object? v).toList : Multiset Nat) := by
  cases h with
  | byValueArg index p bytes => rfl
  | noArg => rfl
  | localBufferArg => rfl
  | bufferArg index o | imageArg index o | samplerArg index o =>
    cases o with
    | none => rfl
    | some o => rfl

end Kept

/-- In every run the special members are defined: no block is freed twice or read after it was freed. Each kernel
and each copy of a command has the arguments that it would have if these were values; there is a block for each
argument by value and no other, and a reference for each that refers to an object. -/
theorem arguments_are_values (A : Allocator) (contextOf : Nat → Nat) {ops : List Op} {t : Plain}
    (h : ops.foldlM (Plain.step contextOf) .start = some t) : ∃ s,
      ops.foldlM (System.step A contextOf) .start = some s ∧
      s.kernels.map (fun k => k.arguments.map (·.value s.memory)) = t.kernels.map (fun k => k.arguments.map some) ∧
      (s.memory.heap.map Prod.snd).Perm t.blocks ∧ ∀ o, s.memory.refs o = t.others o + t.objects.count o := by
  have hstart : Keeps .start .start := ⟨0, .nil, owned_empty _⟩
  have hstep : ∀ s t op t', Keeps s t → Plain.step contextOf t op = some t' →
      ∃ s', System.step A contextOf s op = some s' ∧ Keeps s' t' :=
    fun _ _ _ _ hkeeps => step_simulates A hkeeps
  obtain ⟨s, hs, ρ, hkernels, H⟩ := Runs.foldlM_simulates hstep hstart h
  refine ⟨s, hs, ?_, ?_, fun o => ?_⟩
  · have hvalues : ∀ k k' r r', StoredHolds k k' r → s.memory.Has t.others (r + r') →
        k.arguments.map (·.value s.memory) = k'.arguments.map some := by
      rintro k k' r r' ⟨vs, rfl, -, hargs⟩ H'
      exact hargs.map_eq (fun _ _ _ _ ha Ha => value_eq ha Ha) H'
    have hall : s.memory.Has t.others (ρ + 0) := by rwa [add_zero]
    exact hkernels.map_eq hvalues hall
  · rw [← Multiset.coe_eq_coe, Plain.blocks, Plain.arguments, List.filterMap_flatMap]
    have hsum : contents ρ = (t.kernels.flatMap fun k => k.arguments.filterMap bytes? : Multiset _) := by
      refine hkernels.sum_eq ?_
      rintro k k' r ⟨vs, rfl, -, hargs⟩
      rw [List.filterMap_eq_flatMap_toList]
      exact hargs.sum_eq fun _ _ _ ha => contents_eq ha
    rw [← hsum, ← Multiset.map_coe, H.cells]
    rfl
  · have hsum : AddMonoidHom.snd _ _ ρ = (t.objects : Multiset Nat) := by
      rw [Plain.objects, Plain.arguments, List.filterMap_flatMap]
      refine hkernels.sum_eq ?_
      rintro k k' r ⟨vs, rfl, -, hargs⟩
      rw [List.filterMap_eq_flatMap_toList]
      exact hargs.sum_eq fun _ _ _ ha => objects_eq ha
    rw [H.count o, ← Multiset.coe_count, ← hsum]
    rfl

/-- An allocator that never goes back. -/
def ascending : Allocator where
  pick used := used.foldr max 0 + 1
  pick_notMem used h := by
    have hle : ∀ l : List Nat, ∀ x ∈ l, x ≤ l.foldr max 0 := by
      intro l
      induction l with
      | nil => simp
      | cons y l ih =>
        intro x hx
        rcases List.mem_cons.1 hx with rfl | hx
        · exact Nat.le_max_left ..
        · exact (ih x hx).trans (Nat.le_max_right ..)
    have := hle used _ h
    omega

/-- An argument by value is set again after a command has taken its copy. -/
theorem arguments_are_values_enqueued :
    let int bytes : KernelArgs.Kernel.Call := { index := 0, size := 4, arg := some { handle := none, bytes } }
    ∃ s, [Op.create (.new true 0 none [.primitive] [.other 4]), .setArg 0 (int [1, 0, 0, 0]), .enqueue 0,
        .setArg 0 (int [2, 0, 0, 0])].foldlM (System.step ascending fun _ => 0) .start = some s ∧
      s.kernels.map (fun k => k.arguments.map (·.value s.memory)) =
        [[some (.byValueArg 0 [2, 0, 0, 0] 4)], [some (.byValueArg 0 [1, 0, 0, 0] 4)]] ∧
      (s.memory.heap.map Prod.snd).Perm [[2, 0, 0, 0], [1, 0, 0, 0]] ∧ ∀ o, s.memory.refs o = 0 :=
  let kernel bytes : KernelArgs.Kernel :=
    { KernelArgs.Kernel.new true 0 none [.primitive] [.other 4] with arguments := [.byValueArg 0 bytes 4] }
  arguments_are_values ascending (fun _ => 0)
    (t := { kernels := [kernel [2, 0, 0, 0], kernel [1, 0, 0, 0]], others := fun _ => 0 }) rfl

end OpenCRun.KernelArgStorage
