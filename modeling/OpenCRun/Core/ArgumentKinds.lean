import OpenCRun.Core.KernelArgs
/-!
# The kinds of arguments

A handle reaches `SetArg` as an untyped pointer, and is read as an object of
the class that the parameter has. Nothing asks the object for its class.
-/
open Lib

namespace OpenCRun.KernelArgs

inductive ObjectClass where
  | buffer | image | sampler
  deriving DecidableEq, Repr

/-- The argument that holds an object of the class. -/
def ObjectClass.make : ObjectClass → Nat → Option Nat → KernelArg
  | buffer => .bufferArg
  | image => .imageArg
  | sampler => .samplerArg

/-- The objects behind handles: what `getContext` gives, and their classes. -/
structure Objects where
  contextOf : Nat → Nat
  classOf : Nat → ObjectClass

/-- The class of the objects that a parameter of the type takes, if it takes any. -/
def ArgType.objectClass (ty : ArgType) : Option ObjectClass :=
  if ty.isBufferArg then some .buffer
  else if ty.isImageArg then some .image
  else if ty.isSamplerArg then some .sampler
  else none

namespace Kernel

/-- An object of the class, and of the kernel's context. -/
def IsObject (o : Objects) (k : Kernel) (cls : ObjectClass) (handle : Option Nat) : Prop :=
  ∃ h, handle = some h ∧ o.classOf h = cls ∧ o.contextOf h = k.context

/-- The value is of the kind that a parameter of the type demands. -/
def Demands (o : Objects) (k : Kernel) (c : Call) (ty : ArgType) : Prop :=
  match ty.objectClass with
  | some cls => k.IsObject o cls (c.arg.bind (·.handle))
  | none =>
    if ty.isLocalBufferArg then c.arg = none ∧ c.size ≠ 0
    else c.arg.isSome = true ∧ ∃ paramTy, k.paramTypes[c.index]? = some paramTy ∧ c.size = paramTy.argSize

/-- A call succeeds only with a value of the kind that the parameter demands, and fails without a change. -/
structure KindsEnforced (o : Objects) (k : Kernel) (c : Call) : Prop where
  success : (k.setArg o.contextOf c).2 = none → ∃ ty, k.signature[c.index]? = some ty ∧ k.Demands o c ty
  error : (k.setArg o.contextOf c).2 ≠ none → (k.setArg o.contextOf c).1.arguments = k.arguments

/-- What is not looked at: a handle of the right size is of an object, whose class is the parameter's if its
context is the kernel's; and there is a block, if the size is the parameter's. -/
def GivesKind (o : Objects) (k : Kernel) (c : Call) : Prop :=
  ∀ ty, k.signature[c.index]? = some ty →
    match ty.objectClass with
    | some cls => c.size = 8 → ∃ h, c.arg.bind (·.handle) = some h ∧ (o.contextOf h = k.context → o.classOf h = cls)
    | none => ty.isLocalBufferArg = false → c.size = (k.paramTypes.getD c.index (.other 0)).argSize →
        c.arg.isSome = true ∧ c.index < k.paramTypes.length

/-! ## One call -/

variable {o : Objects} {k : Kernel} {c : Call} {ty : ArgType}

/-- A handle passes if it is null or of the kernel's context. -/
theorem setHandleArg_ok {contextOf : Nat → Nat} {mismatch : String} {make : Nat → Option Nat → KernelArg} {arg : KernelArg} :
    setHandleArg contextOf mismatch make k c = .ok arg ↔
      c.size = 8 ∧ (∀ h, c.arg.bind (·.handle) = some h → contextOf h = k.context) ∧
        arg = make c.index (c.arg.bind (·.handle)) := by
  unfold setHandleArg
  by_cases hsize : c.size = 8
  case neg =>
    rw [if_pos hsize]
    exact iff_of_false (fun h => by cases h) fun h => hsize h.1
  rw [if_neg (not_not.2 hsize)]
  simp only [hsize, true_and]
  cases c.arg.bind (·.handle) with
  | none => simp [eq_comm]
  | some h =>
    by_cases hctx : contextOf h = k.context
    · simp [hctx, eq_comm]
    · simp [hctx]

theorem objectClass_local {cls : ObjectClass} (h : ty.objectClass = some cls) : ty.isLocalBufferArg = false := by
  cases ty with
  | pointer space =>
    cases space with
    | localSpace => cases h
    | _ => rfl
  | _ => rfl

/-- The tests of an object. -/
theorem setArgAs_object {contextOf : Nat → Nat} {cls : ObjectClass} (hty : k.signature[c.index]? = some ty)
    (hcls : ty.objectClass = some cls) :
    ∃ mismatch, (k.setArgAs contextOf c).val = setHandleArg contextOf mismatch cls.make k c := by
  have hl := objectClass_local hcls
  unfold setArgAs
  rw [hty]
  unfold ArgType.objectClass at hcls
  split_ifs at hcls with hb hi hs
  · cases hcls
    exact ⟨_, by simp only [hb, if_true]; rfl⟩
  · cases hcls
    exact ⟨_, by simp only [hb, hl, hi, if_true]; rfl⟩
  · cases hcls
    exact ⟨_, by simp only [hb, hl, hi, hs, if_true]; rfl⟩

/-- An object is told by its context alone. -/
theorem sets_object {contextOf : Nat → Nat} {cls : ObjectClass} {arg : KernelArg} (hty : k.signature[c.index]? = some ty)
    (hcls : ty.objectClass = some cls) :
    Sets contextOf k c arg ↔ c.size = 8 ∧ (∀ h, c.arg.bind (·.handle) = some h → contextOf h = k.context) ∧
      arg = cls.make c.index (c.arg.bind (·.handle)) := by
  obtain ⟨mismatch, hset⟩ := setArgAs_object hty hcls
  rw [Sets, hset, setHandleArg_ok]

/-- A block is told by its size alone. -/
theorem sets_value {contextOf : Nat → Nat} {arg : KernelArg} (hty : k.signature[c.index]? = some ty)
    (hcls : ty.objectClass = none) :
    Sets contextOf k c arg ↔
      if ty.isLocalBufferArg then (c.arg = none ∧ c.size ≠ 0) ∧ arg = .localBufferArg c.index c.size
      else c.size = (k.paramTypes.getD c.index (.other 0)).argSize ∧
        arg = .byValueArg c.index ((c.arg.map (·.bytes.take c.size)).getD []) c.size := by
  have hnone : ty.isBufferArg = false ∧ ty.isImageArg = false ∧ ty.isSamplerArg = false := by
    unfold ArgType.objectClass at hcls
    split_ifs at hcls with hb hi hs
    exact ⟨Bool.eq_false_iff.2 hb, Bool.eq_false_iff.2 hi, Bool.eq_false_iff.2 hs⟩
  obtain ⟨hb, hi, hs⟩ := hnone
  unfold Sets setArgAs
  simp only [hty, hb, hi, hs, Bool.false_eq_true, if_false]
  cases ty.isLocalBufferArg with
  | true =>
    simp only [if_true, Checked.val_pure, setLocalBufferArg]
    cases c.arg with
    | some p => simp
    | none => by_cases hsize : c.size = 0 <;> simp [hsize, eq_comm]
  | false =>
    simp only [Bool.false_eq_true, if_false, setByValueArg, Checked.val_bind, Checked.val_ite, Checked.val_pure]
    by_cases hsize : c.size = (k.paramTypes.getD c.index (.other 0)).argSize
    · rw [if_neg (not_not.2 hsize), and_iff_right hsize, Except.ok.injEq, eq_comm]
    · rw [if_pos hsize]
      exact iff_of_false (fun h => by cases h) fun h => hsize h.1

theorem sets_signature {contextOf : Nat → Nat} {arg : KernelArg} (h : Sets contextOf k c arg) :
    ∃ ty, k.signature[c.index]? = some ty := by
  unfold Sets setArgAs at h
  cases hty : k.signature[c.index]? with
  | none =>
    rw [hty] at h
    cases h
  | some ty => exact ⟨ty, rfl⟩

/-- With the kind that is not looked at, what is set is of the kind that is demanded. -/
theorem GivesKind.demands {arg : KernelArg} (h : k.GivesKind o c) (hty : k.signature[c.index]? = some ty)
    (hset : Sets o.contextOf k c arg) : k.Demands o c ty := by
  have hgives := h ty hty
  unfold Demands
  cases hcls : ty.objectClass with
  | some cls =>
    simp only [hcls] at hgives ⊢
    obtain ⟨hsize, hctx, -⟩ := (sets_object hty hcls).1 hset
    obtain ⟨handle, heq, hclass⟩ := hgives hsize
    exact ⟨handle, heq, hclass (hctx handle heq), hctx handle heq⟩
  | none =>
    simp only [hcls] at hgives ⊢
    have hvalue := (sets_value hty hcls).1 hset
    cases hl : ty.isLocalBufferArg with
    | true =>
      rw [hl, if_pos rfl] at hvalue
      rw [if_pos rfl]
      exact hvalue.1
    | false =>
      rw [hl, if_neg Bool.false_ne_true] at hvalue
      obtain ⟨hsome, hlt⟩ := hgives hl hvalue.1
      rw [if_neg Bool.false_ne_true]
      refine ⟨hsome, k.paramTypes[c.index], List.getElem?_eq_getElem hlt, ?_⟩
      rw [hvalue.1, List.getD_eq_getElem?_getD, List.getElem?_eq_getElem hlt, Option.getD_some]

/-- A call that fails changes nothing. -/
theorem setArg_error (h : (k.setArg o.contextOf c).2 ≠ none) : (k.setArg o.contextOf c).1.arguments = k.arguments := by
  rcases setArg_cases o.contextOf k c with ⟨arg, -, heq⟩ | ⟨-, e, heq⟩
  · rw [heq] at h
    exact absurd rfl h
  · rw [heq]

section

variable (hty : k.signature[c.index]? = some ty) (h : ∀ arg, Sets o.contextOf k c arg → k.Demands o c ty)
include hty h

/-- If what is set is always an object that is demanded, such an object is given. -/
theorem object_given {cls : ObjectClass} (hcls : ty.objectClass = some cls) (hsize : c.size = 8) :
    ∃ handle, c.arg.bind (·.handle) = some handle ∧ (o.contextOf handle = k.context → o.classOf handle = cls) := by
  simp only [Demands, hcls] at h
  have hset := fun hctx => h _ ((sets_object hty hcls).2 ⟨hsize, hctx, rfl⟩)
  cases hhandle : c.arg.bind (·.handle) with
  | none =>
    obtain ⟨handle, heq, -⟩ := hset (fun handle heq => by cases hhandle.symm.trans heq)
    cases hhandle.symm.trans heq
  | some handle =>
    refine ⟨handle, rfl, fun hctx => ?_⟩
    obtain ⟨handle', heq, hclass, -⟩ := hset (by
      intro handle' heq
      obtain rfl := Option.some.inj (hhandle.symm.trans heq)
      exact hctx)
    obtain rfl := Option.some.inj (hhandle.symm.trans heq)
    exact hclass

/-- And if it is always a block, there is one. -/
theorem block_given (hcls : ty.objectClass = none) (hl : ty.isLocalBufferArg = false)
    (hsize : c.size = (k.paramTypes.getD c.index (.other 0)).argSize) :
    c.arg.isSome = true ∧ c.index < k.paramTypes.length := by
  have hset : Sets o.contextOf k c _ := (sets_value hty hcls).2 (by
    rw [hl, if_neg Bool.false_ne_true]
    exact ⟨hsize, rfl⟩)
  have hdemands := h _ hset
  simp only [Demands, hcls, hl, Bool.false_eq_true, if_false] at hdemands
  obtain ⟨hsome, paramTy, hparam, -⟩ := hdemands
  exact ⟨hsome, (List.getElem?_eq_some_iff.1 hparam).1⟩

end

/-- The kinds of arguments are enforced if and only if the call is right in what is not looked at. -/
theorem kinds_enforced_iff (o : Objects) (k : Kernel) (c : Call) : k.KindsEnforced o c ↔ k.GivesKind o c := by
  constructor
  · rintro ⟨hsuccess, -⟩ ty hty
    have hdemands : ∀ arg, Sets o.contextOf k c arg → k.Demands o c ty := by
      intro arg hset
      obtain ⟨ty', hty', hd⟩ := hsuccess (succeeds_iff.2 ⟨arg, hset⟩)
      obtain rfl := Option.some.inj (hty.symm.trans hty')
      exact hd
    cases hcls : ty.objectClass with
    | some cls => exact object_given hty hdemands hcls
    | none => exact block_given hty hdemands hcls
  · intro h
    refine ⟨fun hsucc => ?_, setArg_error⟩
    obtain ⟨arg, hset⟩ := succeeds_iff.1 hsucc
    obtain ⟨ty, hty⟩ := sets_signature hset
    exact ⟨ty, hty, h.demands hty hset⟩

/-- An image of the context, for a parameter that is a pointer to global memory. -/
theorem image_as_buffer :
    ¬ KindsEnforced ⟨fun _ => 0, fun _ => .image⟩ (.new true 0 none [.pointer .globalSpace] [.other 8])
      { index := 0, size := 8, arg := some ⟨some 1, []⟩ } := by
  intro h
  obtain ⟨ty, hty, hdemands⟩ := h.success rfl
  cases hty
  obtain ⟨handle, -, hclass, -⟩ := hdemands
  cases hclass

/-! ## The arguments that are stored -/

/-- What is stored for a parameter of the type, if anything is, is an object of its class, or a size or a block. -/
def Stores (o : Objects) (k : Kernel) (ty : ArgType) (arg : KernelArg) : Prop :=
  match arg with
  | .noArg => True
  | .bufferArg _ buf => ty.objectClass = some .buffer ∧ k.IsObject o .buffer buf
  | .imageArg _ img => ty.objectClass = some .image ∧ k.IsObject o .image img
  | .samplerArg _ smplr => ty.objectClass = some .sampler ∧ k.IsObject o .sampler smplr
  | .localBufferArg _ size => ty.isLocalBufferArg = true ∧ size ≠ 0
  | .byValueArg _ _ _ => ty.objectClass = none ∧ ty.isLocalBufferArg = false

/-- All stored arguments are as their parameters demand. -/
def AllStored (o : Objects) (k : Kernel) : Prop :=
  ∀ (i : Nat) (ty : ArgType) (arg : KernelArg), k.signature[i]? = some ty → k.arguments[i]? = some arg → k.Stores o ty arg

theorem stores_of_sets {arg : KernelArg} (h : k.GivesKind o c) (hty : k.signature[c.index]? = some ty)
    (hset : Sets o.contextOf k c arg) : k.Stores o ty arg := by
  have hdemands := h.demands hty hset
  unfold Demands at hdemands
  cases hcls : ty.objectClass with
  | some cls =>
    rw [hcls] at hdemands
    obtain ⟨-, -, rfl⟩ := (sets_object hty hcls).1 hset
    cases cls <;> exact ⟨hcls, hdemands⟩
  | none =>
    simp only [hcls] at hdemands
    have hvalue := (sets_value hty hcls).1 hset
    cases hl : ty.isLocalBufferArg with
    | true =>
      rw [hl, if_pos rfl] at hvalue
      rw [hvalue.2]
      exact ⟨hl, hvalue.1.2⟩
    | false =>
      rw [hl, if_neg Bool.false_ne_true] at hvalue
      rw [hvalue.2]
      exact ⟨hcls, hl⟩

/-- One call keeps the arguments of others, and stores its own. -/
theorem AllStored.setArg (h : k.AllStored o) (hgives : k.GivesKind o c) : (k.setArg o.contextOf c).1.AllStored o := by
  rcases setArg_cases o.contextOf k c with ⟨arg, hset, heq⟩ | ⟨-, e, heq⟩
  · rw [heq]
    intro i ty arg' hty harg
    by_cases hi : c.index = i
    · subst hi
      have hstored : arg' = arg := by
        simp only [store, List.getElem?_set_self'] at harg
        cases hold : k.arguments[c.index]? with
        | none =>
          rw [hold] at harg
          cases harg
        | some old =>
          rw [hold] at harg
          exact (Option.some.inj harg).symm
      rw [hstored]
      exact stores_of_sets hgives hty hset
    · simp only [store, List.getElem?_set_ne hi] at harg
      exact h i ty arg' hty harg
  · rw [heq]
    exact h

/-- After any calls that are right in what is not looked at, a launch finds objects of the right classes. -/
theorem AllStored.setArgs {calls : List Call} (h : k.AllStored o) (hgives : ∀ c ∈ calls, k.GivesKind o c) :
    (k.setArgs o.contextOf calls).AllStored o := by
  induction calls using List.reverseRecOn with
  | nil => exact h
  | append_singleton calls c ih =>
    rw [setArgs_append]
    have hbefore := ih fun d hd => hgives d (List.mem_append_left _ hd)
    -- Calls change neither the signature nor the context.
    obtain ⟨args, heq, -⟩ := setArgs_eq o.contextOf k calls
    refine hbefore.setArg ?_
    rw [heq]
    exact hgives c (by simp)

end Kernel

end OpenCRun.KernelArgs
