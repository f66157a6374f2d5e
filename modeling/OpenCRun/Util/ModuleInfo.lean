import Mathlib.Data.List.Basic
import Mathlib.Data.List.Forall2
import OpenCRun.Lib.Checked
/-!
# Kernels of a module

A module lists its kernels in `opencl.kernels`, or marks their functions with a
calling convention. One iterator goes through both, and assigns a node or a
function to the information that it holds.
-/
open Lib

namespace OpenCRun.ModuleInfo

/-! ## Modules -/

inductive Metadata where
  | string (s : String)
  /-- A function of the module, by its index. -/
  | function (index : Nat)
  | constant (n : Int)
  | node (operands : List Metadata)

/-- The operands of a node. -/
abbrev MDNode := List Metadata

inductive CallingConv where
  | spirKernel | spirFunc | c
  deriving DecidableEq, Repr

structure Function where
  name : String
  isDeclaration : Bool
  callingConv : CallingConv
  metadata : List (String × MDNode)

def Function.getMetadata (f : Function) (kind : String) : Option MDNode := f.metadata.lookup kind

/-- The functions of a module, and `opencl.kernels` if it is there. -/
structure Module where
  targetTriple : String
  functions : List Function
  openclKernels : Option (List MDNode)

namespace Module
variable (M : Module)

/-- `getTargetTriple().find("spir") == 0` -/
def isSPIR : Bool := "spir".toList.isPrefixOf M.targetTriple.toList

def isKernel (i : Nat) : Bool :=
  match M.functions[i]? with
  | some f => !f.isDeclaration && f.callingConv == .spirKernel
  | none => false

/-- `std::find_if`, from a function to the end. -/
def findIf (start : Nat) : Nat :=
  ((List.range' start (M.functions.length - start)).find? M.isKernel).getD M.functions.length

end Module

/-! ## Kernel information -/

structure KernelInfo where
  kernel : Option Nat
  md : Option MDNode
  customInfoMD : Option MDNode

/-- The node with a name among some nodes, which are cast to nodes that begin with a string. -/
def namedNode (name : String) : List Metadata → Checked (Option MDNode)
  | [] => pure none
  | .node (.string s :: ops) :: rest => if s = name then pure (some (.string s :: ops)) else namedNode name rest
  | _ :: _ => do
    Checked.check false
    pure none

namespace KernelInfo
variable (M : Module)

def empty : KernelInfo := ⟨none, none, none⟩

def checkValidity (info : KernelInfo) : Bool :=
  match info.md with
  | some _ => info.kernel.isSome
  | none =>
    match info.kernel with
    | none => true
    | some f => M.isKernel f

/-- The metadata of a function that is not null. -/
def functionMetadata (f : Nat) (kind : String) : Option MDNode := (M.functions[f]?).bind fun g => g.getMetadata kind

def retrieveCustomInfo (info : KernelInfo) : Option MDNode :=
  match info.md with
  | some md => md.tail.findSome? fun
    | .node (.string s :: ops) => if s = "custom_info" then some (.string s :: ops) else none
    | _ => none
  | none => info.kernel.bind fun f => functionMetadata M f "custom_info"

/-- `operator=(llvm::MDNode *)` -/
def assignNode (info : KernelInfo) (md : MDNode) : Checked KernelInfo := do
  let info := { info with md := some md }
  Checked.check (info.checkValidity M)
  pure { info with customInfoMD := info.retrieveCustomInfo M }

/-- `operator=(llvm::Function *)` -/
def assignFunction (info : KernelInfo) (f : Nat) : Checked KernelInfo := do
  let info := { info with kernel := some f }
  Checked.check (info.checkValidity M)
  pure { info with customInfoMD := info.retrieveCustomInfo M }

/-- `Kernel->getName()` -/
def getName (info : KernelInfo) : Checked String := do
  Checked.check info.kernel.isSome
  pure (((info.kernel.bind fun f => M.functions[f]?).map Function.name).getD "")

def getCustomInfo (info : KernelInfo) (name : String) : Checked (Option MDNode) := do
  Checked.check info.customInfoMD.isSome
  let ops := info.customInfoMD.getD []
  namedNode name (if info.md.isSome then ops.tail else ops)

def getSignature (info : KernelInfo) : Checked (Option MDNode) := info.getCustomInfo "signature"

def isGenericName (name : String) : Bool :=
  "kernel_arg_".toList.isPrefixOf name.toList || name == "vec_type_hint" || name == "work_group_size_hint" ||
    name == "reqd_work_group_size"

def getKernelArgInfo (info : KernelInfo) (name : String) : Checked (Option MDNode) :=
  match info.md with
  | some md => if isGenericName name then namedNode name md.tail else pure none
  | none => do
    Checked.check info.kernel.isSome
    pure (info.kernel.bind fun f => functionMetadata M f name)

end KernelInfo

/-! ## The iterator -/

structure Iterator where
  curInfo : KernelInfo
  hasKernelsMD : Bool
  /-- An index of `opencl.kernels`. -/
  curIdx : Nat
  /-- An index of the functions. -/
  curIt : Nat

namespace Iterator
variable (M : Module)

def updateKernelInfo (I : Iterator) : Checked Iterator :=
  if I.hasKernelsMD then
    match M.openclKernels.bind fun ks => ks[I.curIdx]? with
    | some md => do
      let info ← I.curInfo.assignNode M md
      pure { I with curInfo := info }
    | none => pure I
  else if I.curIt ≠ M.functions.length then do
    let info ← I.curInfo.assignFunction M I.curIt
    pure { I with curInfo := info }
  else pure I

def new (sentinel : Bool) : Checked Iterator :=
  if M.isSPIR then do
    Checked.check M.openclKernels.isSome
    let curIdx := if M.openclKernels.isSome && sentinel then (M.openclKernels.getD []).length else 0
    updateKernelInfo M ⟨.empty, true, curIdx, 0⟩
  else updateKernelInfo M ⟨.empty, false, 0, if sentinel then M.functions.length else M.findIf 0⟩

/-- `operator==`, of iterators of one module. -/
def eq (I J : Iterator) : Bool :=
  if I.hasKernelsMD then J.hasKernelsMD && I.curIdx == J.curIdx else !J.hasKernelsMD && I.curIt == J.curIt

def advance (I : Iterator) : Checked Iterator :=
  updateKernelInfo M
    (if I.hasKernelsMD then
      if M.openclKernels.isSome && decide (I.curIdx < (M.openclKernels.getD []).length) then { I with curIdx := I.curIdx + 1 }
      else I
    else if I.curIt ≠ M.functions.length then { I with curIt := M.findIf (I.curIt + 1) }
    else I)

/-- What a loop from one iterator to another sees, unless it runs out of fuel. -/
def walk : Nat → Iterator → Iterator → Checked (Option (List KernelInfo))
  | 0, I, E => pure (if I.eq E then some [] else none)
  | fuel + 1, I, E =>
    if I.eq E then pure (some [])
    else do
      let next ← I.advance M
      let rest ← walk fuel next E
      pure (rest.map (I.curInfo :: ·))

/-- The loop of `find`. -/
def findFrom (name : String) : Nat → Iterator → Iterator → Checked (Option Iterator)
  | 0, I, E => pure (if I.eq E then some E else none)
  | fuel + 1, I, E =>
    if I.eq E then pure (some E)
    else do
      let n ← I.curInfo.getName M
      if n = name then pure (some I)
      else do
        let next ← I.advance M
        findFrom name fuel next E

end Iterator

namespace Module
variable (M : Module)

def begin' : Checked Iterator := Iterator.new M false
def end' : Checked Iterator := Iterator.new M true

/-- As many steps as an iterator can make. -/
def fuel : Nat := M.functions.length + (M.openclKernels.getD []).length

def enumerate : Checked (Option (List KernelInfo)) := do
  let I ← M.begin'
  let E ← M.end'
  I.walk M M.fuel E

def getNumKernels : Checked Nat :=
  if M.isSPIR then do
    Checked.check M.openclKernels.isSome
    pure (M.openclKernels.getD []).length
  else pure ((List.range M.functions.length).countP M.isKernel)

def find (name : String) : Checked (Option Iterator) := do
  let I ← M.begin'
  let E ← M.end'
  I.findFrom M name M.fuel E

def contains (name : String) : Checked (Option Bool) := do
  let I ← M.find name
  let E ← M.end'
  pure (I.map fun I => !I.eq E)

def get (name : String) : Checked (Option KernelInfo) := do
  let isContained ← M.contains name
  Checked.check (isContained.getD false)
  let I ← M.find name
  pure (I.map Iterator.curInfo)

end Module

/-! ## What is to be enumerated -/

/-- A kernel as the module defines it. -/
structure KernelDef where
  function : Option Nat
  /-- The nodes among which there is the signature. -/
  customInfo : Option (List Metadata)
  argInfo : String → Checked (Option MDNode)

/-- A kernel that is listed. Its first operand is the function. -/
def KernelDef.ofNode (md : MDNode) : KernelDef where
  function := md.head?.bind fun | .function f => some f | _ => none
  customInfo := (md.tail.findSome? fun
    | .node (.string s :: ops) => if s = "custom_info" then some (.string s :: ops) else none
    | _ => none).map List.tail
  argInfo name := if KernelInfo.isGenericName name then namedNode name md.tail else pure none

/-- A kernel by its function. -/
def KernelDef.ofFunction (M : Module) (f : Nat) : KernelDef where
  function := some f
  customInfo := KernelInfo.functionMetadata M f "custom_info"
  argInfo name := pure (KernelInfo.functionMetadata M f name)

def KernelDef.signature (d : KernelDef) : Checked (Option MDNode) := do
  Checked.check d.customInfo.isSome
  namedNode "signature" (d.customInfo.getD [])

namespace Module
variable (M : Module)

/-- The kernels in their order. -/
def kernelDefs : List KernelDef :=
  if M.isSPIR then (M.openclKernels.getD []).map .ofNode
  else ((List.range M.functions.length).filter M.isKernel).map (.ofFunction M)

/-- The function of a kernel has this name. -/
def Named (d : KernelDef) (name : String) : Prop := ∃ f g, d.function = some f ∧ M.functions[f]? = some g ∧ g.name = name

/-- The information is that of the kernel. -/
structure Describes (d : KernelDef) (info : KernelInfo) : Prop where
  function : info.kernel = d.function
  defined : info.kernel.isSome
  signature : info.getSignature = d.signature
  argInfo : ∀ name, info.getKernelArgInfo M name = d.argInfo name

/-- What `find` returns is the information of a kernel of the name, or the end. -/
structure Finds (name : String) : Prop where
  found : (∃ d ∈ M.kernelDefs, M.Named d name) →
    ∃ I, M.find name = pure (some I) ∧ (∃ d ∈ M.kernelDefs, M.Named d name ∧ M.Describes d I.curInfo) ∧
      ∀ E, M.end' = pure E → I.eq E = false
  notFound : (¬ ∃ d ∈ M.kernelDefs, M.Named d name) → ∃ E, M.end' = pure E ∧ M.find name = pure (some E)

/-- The loop from `begin` to `end` sees each kernel once. -/
structure Enumerates : Prop where
  kernels : ∃ infos, M.enumerate = pure (some infos) ∧ List.Forall₂ M.Describes M.kernelDefs infos ∧
    M.getNumKernels = pure infos.length
  finds : ∀ name, M.Finds name

end Module

section Contained
variable {M : Module} {name : String}

theorem Iterator.eq_self (I : Iterator) : I.eq I = true := by
  unfold Iterator.eq
  split <;> simp_all

theorem end_of_find {r : Option Iterator} (h : M.find name = pure r) : ∃ E, M.end' = pure E := by
  have hok : (M.begin'.ok && (M.end'.ok && _)) = true := congrArg Checked.ok h
  rw [Bool.and_eq_true, Bool.and_eq_true] at hok
  exact ⟨M.end'.val, Checked.ext rfl hok.2.1⟩

/-- The information of a kernel of the name is found, if there is one. -/
theorem Module.Finds.get (h : M.Finds name) (hd : ∃ d ∈ M.kernelDefs, M.Named d name) :
    M.contains name = pure (some true) ∧
      ∃ info, M.get name = pure (some info) ∧ ∃ d ∈ M.kernelDefs, M.Named d name ∧ M.Describes d info := by
  obtain ⟨I, hfind, hdef, hne⟩ := h.found hd
  obtain ⟨E, hE⟩ := end_of_find hfind
  have hcontains : M.contains name = pure (some true) := by
    unfold Module.contains
    rw [hfind, pure_bind, hE, pure_bind, Option.map_some, hne E hE, Bool.not_false]
  refine ⟨hcontains, I.curInfo, ?_, hdef⟩
  unfold Module.get
  rw [hcontains, pure_bind, hfind]
  rfl

theorem Module.Finds.contains_eq_false (h : M.Finds name) (hd : ¬ ∃ d ∈ M.kernelDefs, M.Named d name) :
    M.contains name = pure (some false) := by
  obtain ⟨E, hE, hfind⟩ := h.notFound hd
  unfold Module.contains
  rw [hfind, pure_bind, hE, pure_bind, Option.map_some, E.eq_self, Bool.not_true]

end Contained

/-! ## Functions that are marked -/

section Marked
variable {M : Module}

/-- The information of a kernel by its function. -/
def KernelInfo.ofFunction (M : Module) (f : Nat) : KernelInfo := ⟨some f, none, functionMetadata M f "custom_info"⟩

/-- The kernels among the functions from one on. -/
def kernelsFrom (M : Module) (i : Nat) : List Nat := (List.range' i (M.functions.length - i)).filter M.isKernel

theorem lt_of_isKernel {k : Nat} (h : M.isKernel k = true) : k < M.functions.length := by
  by_contra hle
  unfold Module.isKernel at h
  rw [List.getElem?_eq_none (Nat.le_of_not_lt hle)] at h
  cases h

/-- The next kernel is found, with those behind it, or the end. -/
theorem findIf_cases (M : Module) (i : Nat) (hi : i ≤ M.functions.length) :
    (kernelsFrom M i = [] ∧ M.findIf i = M.functions.length) ∨
      (M.isKernel (M.findIf i) = true ∧ kernelsFrom M i = M.findIf i :: kernelsFrom M (M.findIf i + 1)) := by
  obtain ⟨m, hm⟩ := Nat.exists_eq_add_of_le hi
  induction m generalizing i with
  | zero =>
    left
    have hlength : M.functions.length - i = 0 := by omega
    unfold kernelsFrom Module.findIf
    rw [hlength, List.range'_zero]
    exact ⟨rfl, rfl⟩
  | succ m ih =>
    have hlength : M.functions.length - i = M.functions.length - (i + 1) + 1 := by omega
    by_cases hkernel : M.isKernel i = true
    · right
      have hfind : M.findIf i = i := by
        unfold Module.findIf
        rw [hlength, List.range'_succ, List.find?_cons_of_pos hkernel]
        rfl
      refine ⟨hfind.symm ▸ hkernel, ?_⟩
      rw [hfind, kernelsFrom, hlength, List.range'_succ, List.filter_cons_of_pos hkernel]
      rfl
    · have hfind : M.findIf i = M.findIf (i + 1) := by
        unfold Module.findIf
        rw [hlength, List.range'_succ, List.find?_cons_of_neg hkernel]
      have hkernels : kernelsFrom M i = kernelsFrom M (i + 1) := by
        rw [kernelsFrom, hlength, List.range'_succ, List.filter_cons_of_neg hkernel]
        rfl
      rw [hfind, hkernels]
      exact ih (i + 1) (by omega) (by omega)

/-- The iterator is at the first of these kernels, and at the end if there is none. -/
structure At (M : Module) (I : Iterator) (ks : List Nat) : Prop where
  mode : I.hasKernelsMD = false
  md : I.curInfo.md = none
  last : ks = [] → I.curIt = M.functions.length
  first : ∀ k rest, ks = k :: rest →
    I.curIt = k ∧ M.isKernel k = true ∧ I.curInfo = .ofFunction M k ∧ rest = kernelsFrom M (k + 1)

theorem update_at {I : Iterator} (hmode : I.hasKernelsMD = false) (hmd : I.curInfo.md = none) {i : Nat}
    (hi : i ≤ M.functions.length) (hcur : I.curIt = M.findIf i) :
    ∃ J, I.updateKernelInfo M = pure J ∧ At M J (kernelsFrom M i) := by
  unfold Iterator.updateKernelInfo
  rw [hmode]
  rcases findIf_cases M i hi with ⟨hnil, hend⟩ | ⟨hkernel, hcons⟩
  · rw [if_neg Bool.false_ne_true, if_neg (by rw [hcur, hend]; exact not_not_intro rfl)]
    refine ⟨I, rfl, hmode, hmd, fun _ => hcur.trans hend, fun k rest h => ?_⟩
    rw [hnil] at h
    cases h
  · have hne : I.curIt ≠ M.functions.length := by
      rw [hcur]
      exact Nat.ne_of_lt (lt_of_isKernel hkernel)
    have hassign : I.curInfo.assignFunction M (M.findIf i) = pure (.ofFunction M (M.findIf i)) := by
      unfold KernelInfo.assignFunction KernelInfo.checkValidity KernelInfo.retrieveCustomInfo
      rw [hmd]
      exact Checked.ext rfl (by simp [hkernel])
    rw [if_neg Bool.false_ne_true, if_pos hne, hcur, hassign, pure_bind]
    refine ⟨_, rfl, rfl, rfl, fun h => ?_, fun k rest h => ?_⟩
    · rw [hcons] at h
      cases h
    · rw [hcons] at h
      obtain ⟨rfl, rfl⟩ := List.cons.inj h
      exact ⟨rfl, hkernel, rfl, rfl⟩

theorem advance_at {I : Iterator} {k : Nat} {rest : List Nat} (h : At M I (k :: rest)) :
    ∃ J, I.advance M = pure J ∧ At M J rest := by
  obtain ⟨hcur, hkernel, -, rfl⟩ := h.first k rest rfl
  have hlt := lt_of_isKernel hkernel
  unfold Iterator.advance
  rw [h.mode, if_neg Bool.false_ne_true, if_pos (hcur ▸ Nat.ne_of_lt hlt), hcur]
  exact update_at (I := { I with hasKernelsMD := false, curIt := M.findIf (k + 1) }) rfl h.md hlt rfl

theorem eq_at {I E : Iterator} {ks : List Nat} (h : At M I ks) (hend : At M E []) : I.eq E = ks.isEmpty := by
  unfold Iterator.eq
  rw [h.mode, hend.mode, if_neg Bool.false_ne_true, hend.last rfl]
  cases ks with
  | nil => rw [h.last rfl]; simp
  | cons k rest =>
    obtain ⟨hcur, hkernel, -, -⟩ := h.first k rest rfl
    rw [hcur]
    simp [Nat.ne_of_lt (lt_of_isKernel hkernel)]

/-- The loop sees the kernels from the iterator on. -/
theorem walk_at {E : Iterator} (hend : At M E []) {ks : List Nat} {I : Iterator} (h : At M I ks) {fuel : Nat}
    (hfuel : ks.length ≤ fuel) : I.walk M fuel E = pure (some (ks.map (.ofFunction M))) := by
  induction ks generalizing I fuel with
  | nil =>
    have heq := eq_at h hend
    cases fuel <;> simp [Iterator.walk, heq]
  | cons k rest ih =>
    obtain ⟨fuel, rfl⟩ := Nat.exists_eq_succ_of_ne_zero (Nat.ne_zero_of_lt hfuel)
    obtain ⟨J, hJ, hat⟩ := advance_at h
    obtain ⟨-, -, hinfo, -⟩ := h.first k rest rfl
    have heq := eq_at h hend
    rw [Iterator.walk, heq, List.isEmpty_cons, if_neg Bool.false_ne_true, hJ, pure_bind,
      ih hat (Nat.le_of_succ_le_succ hfuel), pure_bind, hinfo]
    rfl

/-- `find` stops at the first kernel of the name. -/
theorem findFrom_at {E : Iterator} (hend : At M E []) (name : String) {ks : List Nat} {I : Iterator} (h : At M I ks)
    {fuel : Nat}
    (hfuel : ks.length ≤ fuel) :
    (∃ k ∈ ks, ∃ J rest, (M.functions[k]?).map Function.name = some name ∧ I.findFrom M name fuel E = pure (some J) ∧
      At M J (k :: rest)) ∨
      ((∀ k ∈ ks, (M.functions[k]?).map Function.name ≠ some name) ∧ I.findFrom M name fuel E = pure (some E)) := by
  induction ks generalizing I fuel with
  | nil =>
    right
    have heq := eq_at h hend
    refine ⟨fun k hk => absurd hk List.not_mem_nil, ?_⟩
    cases fuel <;> simp [Iterator.findFrom, heq]
  | cons k rest ih =>
    obtain ⟨fuel, rfl⟩ := Nat.exists_eq_succ_of_ne_zero (Nat.ne_zero_of_lt hfuel)
    obtain ⟨J, hJ, hat⟩ := advance_at h
    obtain ⟨-, hkernel, hinfo, -⟩ := h.first k rest rfl
    obtain ⟨f, hf⟩ : ∃ f, M.functions[k]? = some f := ⟨_, List.getElem?_eq_getElem (lt_of_isKernel hkernel)⟩
    have heq := eq_at h hend
    have hname : I.curInfo.getName M = pure f.name := by
      rw [hinfo]
      unfold KernelInfo.getName KernelInfo.ofFunction
      rw [Option.bind_some, hf]
      rfl
    have hstep : I.findFrom M name (fuel + 1) E =
        if f.name = name then pure (some I) else J.findFrom M name fuel E := by
      rw [Iterator.findFrom, heq, List.isEmpty_cons, if_neg Bool.false_ne_true, hname, pure_bind, hJ, pure_bind]
    rw [hstep]
    by_cases hn : f.name = name
    · left
      rw [if_pos hn]
      exact ⟨k, List.mem_cons_self, I, rest, by rw [hf, Option.map_some, hn], rfl, h⟩
    · rw [if_neg hn]
      rcases ih hat (Nat.le_of_succ_le_succ hfuel) with ⟨k', hk', found⟩ | ⟨hnone, hfind⟩
      · exact .inl ⟨k', List.mem_cons_of_mem k hk', found⟩
      · refine .inr ⟨fun k' hk' => ?_, hfind⟩
        rcases List.mem_cons.1 hk' with rfl | hmem
        · rw [hf, Option.map_some]
          exact fun h => hn (Option.some.inj h)
        · exact hnone k' hmem

variable (hmode : M.isSPIR = false)
include hmode

theorem begin_at : ∃ I, M.begin' = pure I ∧ At M I (kernelsFrom M 0) := by
  unfold Module.begin' Iterator.new
  rw [hmode, if_neg Bool.false_ne_true, if_neg Bool.false_ne_true]
  exact update_at (I := ⟨.empty, false, 0, M.findIf 0⟩) rfl rfl (Nat.zero_le _) rfl

theorem end_at : ∃ E, M.end' = pure E ∧ At M E [] := by
  unfold Module.end' Iterator.new
  rw [hmode, if_neg Bool.false_ne_true, if_pos rfl]
  refine ⟨⟨.empty, false, 0, M.functions.length⟩, ?_, rfl, rfl, fun _ => rfl, fun k rest h => by cases h⟩
  unfold Iterator.updateKernelInfo
  rw [if_neg Bool.false_ne_true, if_neg (not_not_intro rfl)]

omit hmode in
theorem kernelsFrom_length : (kernelsFrom M 0).length ≤ M.fuel := by
  have hfilter := List.length_filter_le M.isKernel (List.range' 0 (M.functions.length - 0))
  rw [List.length_range'] at hfilter
  unfold kernelsFrom Module.fuel
  omega

theorem kernelDefs_marked : M.kernelDefs = (kernelsFrom M 0).map (.ofFunction M) := by
  unfold Module.kernelDefs kernelsFrom
  rw [hmode, if_neg Bool.false_ne_true, List.range_eq_range', Nat.sub_zero]

omit hmode in
/-- The information of a function is what its definition says. -/
theorem describes_ofFunction (k : Nat) : M.Describes (.ofFunction M k) (.ofFunction M k) where
  function := rfl
  defined := rfl
  signature := by
    unfold KernelInfo.getSignature KernelInfo.getCustomInfo KernelDef.signature
    rfl
  argInfo name := by
    unfold KernelInfo.getKernelArgInfo
    exact Checked.ext rfl rfl

theorem enumerate_marked : M.enumerate = pure (some ((kernelsFrom M 0).map (.ofFunction M))) := by
  obtain ⟨I, hI, hat⟩ := begin_at hmode
  obtain ⟨E, hE, hend⟩ := end_at hmode
  unfold Module.enumerate
  rw [hI, pure_bind, hE, pure_bind, walk_at hend hat kernelsFrom_length]

theorem getNumKernels_marked : M.getNumKernels = pure (kernelsFrom M 0).length := by
  unfold Module.getNumKernels kernelsFrom
  rw [hmode, if_neg Bool.false_ne_true, List.range_eq_range', Nat.sub_zero, List.countP_eq_length_filter]

omit hmode in
theorem named_ofFunction (k : Nat) (name : String) :
    M.Named (.ofFunction M k) name ↔ (M.functions[k]?).map Function.name = some name := by
  unfold Module.Named
  constructor
  · rintro ⟨f, g, hf, hg, rfl⟩
    cases hf
    rw [hg, Option.map_some]
  · intro h
    obtain ⟨g, hg, hname⟩ := Option.map_eq_some_iff.1 h
    exact ⟨k, g, rfl, hg, hname⟩

theorem finds_marked (name : String) : M.Finds name := by
  obtain ⟨I, hI, hat⟩ := begin_at hmode
  obtain ⟨E, hE, hend⟩ := end_at hmode
  have hfind : M.find name = I.findFrom M name M.fuel E := by
    unfold Module.find
    rw [hI, pure_bind, hE, pure_bind]
  have hnamed : (∃ d ∈ M.kernelDefs, M.Named d name) ↔
      ∃ k ∈ kernelsFrom M 0, (M.functions[k]?).map Function.name = some name := by
    rw [kernelDefs_marked hmode]
    simp only [List.mem_map, exists_exists_and_eq_and, named_ofFunction]
  constructor
  · intro hdefined
    obtain ⟨k, hk, hname⟩ := hnamed.1 hdefined
    rcases findFrom_at hend name hat kernelsFrom_length with ⟨k', hk', J, rest, hname', hJ, hatJ⟩ | ⟨hnone, -⟩
    · obtain ⟨-, -, hinfo, -⟩ := hatJ.first k' rest rfl
      refine ⟨J, hfind.trans hJ, ⟨.ofFunction M k', ?_, (named_ofFunction k' name).2 hname', ?_⟩, fun E' hE' => ?_⟩
      · rw [kernelDefs_marked hmode]
        exact List.mem_map_of_mem hk'
      · rw [hinfo]
        exact describes_ofFunction k'
      · have hsame : E = E' := congrArg Checked.val (hE.symm.trans hE')
        exact hsame ▸ eq_at hatJ hend
    · exact absurd hname (hnone k hk)
  · intro hundefined
    rcases findFrom_at hend name hat kernelsFrom_length with ⟨k', hk', -, -, hname', -⟩ | ⟨-, hJ⟩
    · exact absurd (hnamed.2 ⟨k', hk', hname'⟩) hundefined
    · exact ⟨E, hE, hfind.trans hJ⟩

theorem enumerates_marked : M.Enumerates where
  kernels := by
    refine ⟨_, enumerate_marked hmode, ?_, ?_⟩
    · rw [kernelDefs_marked hmode, List.forall₂_map_left_iff, List.forall₂_map_right_iff]
      exact List.forall₂_same.2 fun k _ => describes_ofFunction k
    · rw [getNumKernels_marked hmode, List.length_map]
  finds := finds_marked hmode

end Marked

/-! ## Kernels that are listed -/

section Listed
variable {M : Module} (hmode : M.isSPIR = true)
include hmode

/-- The first node is assigned to information that has no function. -/
theorem begin_listed {ks : List MDNode} {md : MDNode} (hks : M.openclKernels = some (md :: ks)) : M.begin'.ok = false := by
  unfold Module.begin' Iterator.new Iterator.updateKernelInfo
  rw [hmode, if_pos rfl, hks]
  rfl

theorem begin_unlisted (hks : M.openclKernels = none) : M.begin'.ok = false := by
  unfold Module.begin' Iterator.new
  rw [hmode, if_pos rfl, hks]
  rfl

/-- Both iterators of a list that is empty. -/
theorem new_empty (hks : M.openclKernels = some []) (sentinel : Bool) :
    Iterator.new M sentinel = pure ⟨.empty, true, 0, 0⟩ := by
  unfold Iterator.new Iterator.updateKernelInfo
  rw [hmode, if_pos rfl, hks]
  cases sentinel <;> rfl

theorem enumerates_empty (hks : M.openclKernels = some []) : M.Enumerates := by
  have hbegin : M.begin' = pure ⟨.empty, true, 0, 0⟩ := new_empty hmode hks false
  have hend : M.end' = pure ⟨.empty, true, 0, 0⟩ := new_empty hmode hks true
  have hdefs : M.kernelDefs = [] := by
    unfold Module.kernelDefs
    rw [hmode, if_pos rfl, hks]
    rfl
  refine ⟨⟨[], ?_, ?_, ?_⟩, fun name => ⟨?_, fun _ => ⟨_, hend, ?_⟩⟩⟩
  · unfold Module.enumerate
    rw [hbegin, pure_bind, hend, pure_bind]
    cases M.fuel <;> rfl
  · rw [hdefs]
    exact .nil
  · unfold Module.getNumKernels
    rw [hmode, if_pos rfl, hks]
    rfl
  · rw [hdefs]
    rintro ⟨d, hd, -⟩
    exact absurd hd List.not_mem_nil
  · unfold Module.find
    rw [hbegin, pure_bind, hend, pure_bind]
    cases M.fuel <;> rfl

end Listed

theorem not_enumerates_of_begin {M : Module} (h : M.begin'.ok = false) : ¬ M.Enumerates := by
  rintro ⟨⟨infos, hrun, -⟩, -⟩
  have hok := congrArg Checked.ok hrun
  unfold Module.enumerate at hok
  rw [Checked.ok_bind, h, Bool.false_and] at hok
  cases hok

theorem begin_not_ok {M : Module} (hmode : M.isSPIR = true) (hks : M.openclKernels ≠ some []) : M.begin'.ok = false := by
  rcases hlist : M.openclKernels with _ | _ | ⟨md, ks⟩
  · exact begin_unlisted hmode hlist
  · exact absurd hlist hks
  · exact begin_listed hmode hlist

theorem enumerates_of_unlisted {M : Module} (h : M.isSPIR = true → M.openclKernels = some []) : M.Enumerates := by
  cases hmode : M.isSPIR with
  | false => exact enumerates_marked hmode
  | true => exact enumerates_empty hmode (h hmode)

/-- The kernels are enumerated unless some are listed, or a list is missing. -/
theorem enumerates_iff (M : Module) : M.Enumerates ↔ (M.isSPIR = true → M.openclKernels = some []) := by
  constructor
  · intro h hmode
    by_contra hks
    exact not_enumerates_of_begin (begin_not_ok hmode hks) h
  · exact enumerates_of_unlisted

/-- A module that lists its one kernel. -/
def listedModule : Module where
  targetTriple := "spir-unknown-unknown"
  functions := [⟨"f", false, .spirKernel, []⟩]
  openclKernels := some [[.function 0, .node [.string "custom_info", .node [.string "signature"]]]]

/-- What the loop sees without assertions has no function. -/
theorem enumerates_listed : ¬ listedModule.Enumerates ∧
    ∃ info, listedModule.enumerate.val = some [info] ∧ info.kernel = none :=
  ⟨not_enumerates_of_begin (begin_listed rfl rfl), _, rfl, rfl⟩

end OpenCRun.ModuleInfo
