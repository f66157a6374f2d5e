import Mathlib.Data.Fin.VecNotation
import Mathlib.Data.List.FinRange
import OpenCRun.Lib.Worklist
import OpenCRun.Util.ModuleInfo
/-!
# The module of a kernel

`extractKernelModule` copies a kernel into a module of its own, together with the
functions and the variables that it needs. They are found by two loops: one
goes through the calls, the other one through the operands of instructions.
What is referred to in other ways is not found.
-/
open Lib

namespace OpenCRun.KernelExtraction

/-! ## Modules -/

/-- A function or a global variable of a module, by its number. -/
inductive GlobalId where
  | function (i : Nat)
  | globalVariable (i : Nat)
  deriving DecidableEq, Repr

inductive Kind where
  | localValue (n : Nat)
  | constantInt (n : Int)
  | constantExpr (opcode : String)
  | aggregate
  | mdString (s : String)
  | mdNode
  deriving DecidableEq, Repr

/-- Values, constants and metadata among them, that refer to functions and variables. -/
inductive Value (ρ : Type) where
  | global (g : ρ)
  | node (kind : Kind) {n : Nat} (operands : Fin n → Value ρ)

structure Instruction (ρ : Type) where
  opcode : String
  operands : List (Value ρ)
  metadata : List (Value ρ)

structure Function (ρ : Type) where
  name : String
  linkage : String
  callingConv : ModuleInfo.CallingConv
  personality : Option (Value ρ)
  metadata : List (String × List (Value ρ))
  /-- A declaration has none. -/
  body : Option (List (Instruction ρ))

structure GlobalVariable (ρ : Type) where
  name : String
  linkage : String
  isConstant : Bool
  addressSpace : Nat
  initializer : Option (Value ρ)

section References
variable {ρ σ : Type}

def Value.refs : Value ρ → List ρ
  | .global g => [g]
  | .node _ operands => (List.finRange _).flatMap fun i => (operands i).refs

def Value.map (φ : ρ → σ) : Value ρ → Value σ
  | .global g => .global (φ g)
  | .node kind operands => .node kind fun i => (operands i).map φ

def Value.operandValues : Value ρ → List (Value ρ)
  | .global _ => []
  | .node _ operands => List.ofFn operands

def Value.isConstantExpr : Value ρ → Bool
  | .node (.constantExpr _) _ => true
  | _ => false

namespace Instruction

def refs (i : Instruction ρ) : List ρ := i.operands.flatMap Value.refs

def metadataRefs (i : Instruction ρ) : List ρ := i.metadata.flatMap Value.refs

def map (φ : ρ → σ) (i : Instruction ρ) : Instruction σ :=
  ⟨i.opcode, i.operands.map (·.map φ), i.metadata.map (·.map φ)⟩

end Instruction

namespace Function

def isDeclaration (f : Function ρ) : Bool := f.body.isNone

def isKernel (f : Function ρ) : Bool := !f.isDeclaration && f.callingConv == .spirKernel

def instructions (f : Function ρ) : List (Instruction ρ) := f.body.getD []

/-- What the function refers to, other than by metadata. -/
def refs (f : Function ρ) : List ρ := f.personality.toList.flatMap Value.refs ++ f.instructions.flatMap Instruction.refs

def metadataRefs (f : Function ρ) : List ρ :=
  (f.metadata.flatMap Prod.snd).flatMap Value.refs ++ f.instructions.flatMap Instruction.metadataRefs

end Function

def GlobalVariable.refs (v : GlobalVariable ρ) : List ρ := v.initializer.toList.flatMap Value.refs

def GlobalVariable.map (φ : ρ → σ) (v : GlobalVariable ρ) : GlobalVariable σ :=
  { v with initializer := v.initializer.map (·.map φ) }

/-- The functions of kernels that are listed. -/
def listedKernels (nodes : List (List (Value ρ))) : List ρ :=
  nodes.filterMap fun md => md.head?.bind fun | .global g => some g | .node .. => none

end References

def GlobalId.IsIn (functions globals : Nat) : GlobalId → Prop
  | .function i => i < functions
  | .globalVariable i => i < globals

instance (functions globals : Nat) (g : GlobalId) : Decidable (g.IsIn functions globals) := by
  cases g <;> unfold GlobalId.IsIn <;> infer_instance

/-- What is called or initialized with in a module is there. -/
structure Module where
  dataLayout : String
  targetTriple : String
  functions : List (Function GlobalId)
  globals : List (GlobalVariable GlobalId)
  openclKernels : Option (List (List (Value GlobalId)))
  functions_in : ∀ f ∈ functions, ∀ g ∈ f.refs, g.IsIn functions.length globals.length
  globals_in : ∀ v ∈ globals, ∀ g ∈ v.refs, g.IsIn functions.length globals.length

/-! ### What `ModuleInfo` sees -/

def Value.toMetadata : Value GlobalId → ModuleInfo.Metadata
  | .global (.function i) => .function i
  | .global (.globalVariable _) => .constant 0
  | .node (.mdString s) _ => .string s
  | .node (.constantInt n) _ => .constant n
  | .node _ operands => .node ((List.finRange _).map fun i => (operands i).toMetadata)

def Function.info (f : Function GlobalId) : ModuleInfo.Function where
  name := f.name
  isDeclaration := f.isDeclaration
  callingConv := f.callingConv
  metadata := f.metadata.map (Prod.map id (List.map Value.toMetadata))

namespace Module
variable (M : Module)

def info : ModuleInfo.Module where
  targetTriple := M.targetTriple
  functions := M.functions.map Function.info
  openclKernels := M.openclKernels.map (List.map (List.map Value.toMetadata))

def kernels : List GlobalId :=
  if M.info.isSPIR then listedKernels (M.openclKernels.getD [])
  else ((List.range M.functions.length).filter fun i => (M.functions[i]?).any Function.isKernel).map .function

end Module

/-! ## The module of a kernel -/

/-- A function or a variable in the new module, by that of which it is a copy, or one of the old module. -/
inductive Mapped where
  | new (g : GlobalId)
  | old (g : GlobalId)
  deriving DecidableEq, Repr

/-- Functions and variables are there with the numbers of those that they are copies of. -/
structure KernelModule where
  name : String
  dataLayout : String
  targetTriple : String
  globals : List (Nat × GlobalVariable Mapped)
  functions : List (Nat × Function Mapped)
  openclKernels : Option (List (List (Value Mapped)))

namespace KernelModule
variable (N : KernelModule)

def Contains : GlobalId → Prop
  | .function i => i ∈ N.functions.map Prod.fst
  | .globalVariable i => i ∈ N.globals.map Prod.fst

def isSPIR : Bool := "spir".toList.isPrefixOf N.targetTriple.toList

def kernels : List Mapped :=
  if N.isSPIR then listedKernels (N.openclKernels.getD [])
  else (N.functions.filter (·.2.isKernel)).map fun p => .new (.function p.1)

/-- Everything that is referred to. -/
def refs : List Mapped :=
  N.functions.flatMap (fun p => p.2.refs ++ p.2.metadataRefs) ++ N.globals.flatMap (fun p => p.2.refs) ++
    (N.openclKernels.getD []).flatMap (List.flatMap Value.refs)

end KernelModule

/-! ## The loops -/

/-- The called value is the last operand. -/
def Instruction.getCalledFunction (i : Instruction GlobalId) : Option Nat :=
  i.operands.getLast?.bind fun | .global (.function f) => some f | _ => none

def Function.calledFunctions (f : Function GlobalId) : List (Option Nat) :=
  (f.instructions.filter (·.opcode == "call")).map Instruction.getCalledFunction

/-- `Reachable.insert`, of a variable. -/
def insertVariable (reachable : List Nat) : Value GlobalId → List Nat
  | .global (.globalVariable i) => reachable.insert i
  | _ => reachable

/-- The work list has its end first. `Visited` is only looked up, so it is empty all the time. -/
def visitConstantExpr : Nat → List (Value GlobalId) → List Nat → Option (List Nat)
  | _, [], reachable => some reachable
  | 0, _ :: _, _ => none
  | turns + 1, cur :: work, reachable =>
    visitConstantExpr turns ((cur.operandValues.filter (·.isConstantExpr)).reverse ++ work)
      (cur.operandValues.foldl insertVariable reachable)

/-- At least as many expressions as there are in a value. -/
def Value.size {ρ : Type} : Value ρ → Nat
  | .global _ => 1
  | .node _ operands => 1 + ((List.finRange _).map fun i => (operands i).size).sum

def visitOperand (reachable : List Nat) (v : Value GlobalId) : Option (List Nat) :=
  if v.isConstantExpr then visitConstantExpr v.size [v] reachable else some (insertVariable reachable v)

namespace Module
variable (M : Module)

/-- What is put on the work list behind a function, or behind a null pointer. -/
def called : Option Nat → List (Option Nat)
  | some i => ((M.functions[i]?).map Function.calledFunctions).getD []
  | none => []

def nodes : List (Option Nat) := none :: (List.range M.functions.length).map some

/-- The order of a `SmallPtrSet` is that of insertion here. -/
def computeReachableFunctions (roots : List Nat) : Checked (Option (List Nat)) := do
  let workList := (roots.map some).reverse
  let reachable := Worklist.run M.called (Worklist.turns M.called M.nodes workList) workList []
  Checked.check ((reachable.getD []).all Option.isSome)
  pure (reachable.map fun fns => (fns.filterMap id).reverse)

/-- The operands of the instructions of a function. -/
def operandValues (i : Nat) : List (Value GlobalId) :=
  ((M.functions[i]?).map fun f => f.instructions.flatMap Instruction.operands).getD []

def computeReachableGlobalVariables (fns : List Nat) : Option (List Nat) :=
  (fns.flatMap M.operandValues).foldlM visitOperand []

end Module

/-! ## The extraction -/

/-- What is not in `VMap` is mapped to itself. -/
def mapGlobal (fns gvs : List Nat) : GlobalId → Mapped
  | .function i => if i ∈ fns then .new (.function i) else .old (.function i)
  | .globalVariable i => if i ∈ gvs then .new (.globalVariable i) else .old (.globalVariable i)

/-- The metadata of a function are cloned with its body. -/
def Function.clone (φ : GlobalId → Mapped) (f : Function GlobalId) : Function Mapped where
  name := f.name
  linkage := f.linkage
  callingConv := f.callingConv
  personality := f.personality.map (·.map φ)
  metadata := if f.isDeclaration then [] else f.metadata.map (Prod.map id (List.map (·.map φ)))
  body := f.body.map (List.map (·.map φ))

namespace Module
variable (M : Module)

def getName (F : Nat) : String := ((M.functions[F]?).map Function.name).getD ""

/-- The information that is got in the loop is that of the one kernel each time. -/
def regenerateKernels (F : Nat) (fns gvs : List Nat) : Checked (Option (List (List (Value Mapped)))) := do
  Checked.check M.openclKernels.isSome
  (M.openclKernels.getD []).foldlM (fun newKernels md => do
    let info ← M.info.get (M.getName F)
    pure (newKernels.bind fun ks => info.map fun info =>
      if info.kernel.any (· ∈ fns) then ks ++ [md.map (·.map (mapGlobal fns gvs))] else ks)) (some [])

/-- The new module, with the list of its kernels, if there is one. -/
def copy (F : Nat) (fns gvs : List Nat) (openclKernels : Option (List (List (Value Mapped)))) : KernelModule where
  name := M.getName F ++ ".module"
  dataLayout := M.dataLayout
  targetTriple := M.targetTriple
  globals := gvs.filterMap fun i => (M.globals[i]?).map fun v => (i, v.map (mapGlobal fns gvs))
  functions := fns.filterMap fun i => (M.functions[i]?).map fun f => (i, f.clone (mapGlobal fns gvs))
  openclKernels

def extractKernelModule (F : Nat) : Checked (Option KernelModule) := do
  match ← M.computeReachableFunctions [F] with
  | none => pure none
  | some fns =>
    match M.computeReachableGlobalVariables fns with
    | none => pure none
    | some gvs =>
      if M.info.isSPIR then do
        let newKernels ← M.regenerateKernels F fns gvs
        pure (newKernels.map fun ks => M.copy F fns gvs (some ks))
      else pure (some (M.copy F fns gvs none))

end Module

/-! ## What is to be extracted -/

/-- The variables that an operand shows: itself, or in constant expressions. -/
def Value.seen : Value GlobalId → List Nat
  | .global (.function _) => []
  | .global (.globalVariable i) => [i]
  | .node (.constantExpr _) operands => (List.finRange _).flatMap fun i => (operands i).seen
  | .node _ _ => []

/-- What else an operand refers to: functions, and all that is in aggregates. -/
def Value.hidden : Value GlobalId → List GlobalId
  | .global (.function i) => [.function i]
  | .global (.globalVariable _) => []
  | .node (.constantExpr _) operands => (List.finRange _).flatMap fun i => (operands i).hidden
  | .node _ operands => (List.finRange _).flatMap fun i => (operands i).refs

def Function.hidden (f : Function GlobalId) : List GlobalId :=
  f.personality.toList.flatMap Value.refs ++ (f.instructions.flatMap Instruction.operands).flatMap Value.hidden

namespace Module
variable (M : Module) (F : Nat)

def Calls (f g : Nat) : Prop := some g ∈ M.called (some f)

def Reached (f : Nat) : Prop := Relation.ReflTransGen M.Calls F f

/-- A function that is reached shows the variable in an instruction. -/
def Seen (v : Nat) : Prop := ∃ f, M.Reached F f ∧ ∃ o ∈ M.operandValues f, v ∈ o.seen

def Extracted : GlobalId → Prop
  | .function f => M.Reached F f
  | .globalVariable v => M.Seen F v

/-- What the loops do not look at: hidden operands, metadata, and initializers. -/
def Hidden (g : GlobalId) : Prop :=
  (∃ i f, M.Reached F i ∧ M.functions[i]? = some f ∧ (g ∈ f.hidden ∨ (f.isDeclaration = false ∧ g ∈ f.metadataRefs))) ∨
    ∃ i v, M.Seen F i ∧ M.globals[i]? = some v ∧ g ∈ v.refs

def DirectCalls : Prop := ∀ f, M.Reached F f → none ∉ M.called (some f)

/-- The new module has the kernel and all that is referred to in it, and refers to nothing else. -/
structure IsClosed (N : KernelModule) : Prop where
  kernel : N.Contains (.function F)
  bodies : ∀ i f, N.Contains (.function i) → M.functions[i]? = some f → ∀ g ∈ f.refs, N.Contains g
  initializers : ∀ i v, N.Contains (.globalVariable i) → M.globals[i]? = some v → ∀ g ∈ v.refs, N.Contains g
  kernels : ∀ k, k ∈ N.kernels ↔ ∃ g, k = .new g ∧ N.Contains g ∧ g ∈ M.kernels
  noOld : ∀ k ∈ N.refs, ∃ g, k = .new g

def ExtractsClosed : Prop := ∃ N, M.extractKernelModule F = pure (some N) ∧ M.IsClosed F N

end Module

/-! ## References -/

section References
variable {ρ σ : Type}

theorem Value.refs_map (φ : ρ → σ) (v : Value ρ) : (v.map φ).refs = v.refs.map φ := by
  induction v with
  | global g => rfl
  | node kind operands ih =>
    rw [map, refs, refs, List.map_flatMap]
    exact List.flatMap_congr fun i _ => ih i

theorem flatMap_refs_map (φ : ρ → σ) (vs : List (Value ρ)) :
    (vs.map (·.map φ)).flatMap Value.refs = (vs.flatMap Value.refs).map φ := by
  rw [List.flatMap_map, List.map_flatMap]
  exact List.flatMap_congr fun v _ => v.refs_map φ

theorem toList_refs_map (φ : ρ → σ) (o : Option (Value ρ)) :
    (o.map (·.map φ)).toList.flatMap Value.refs = (o.toList.flatMap Value.refs).map φ := by
  rw [Option.toList_map, flatMap_refs_map]

theorem GlobalVariable.refs_map (φ : ρ → σ) (v : GlobalVariable ρ) : (v.map φ).refs = v.refs.map φ :=
  toList_refs_map φ v.initializer

end References

theorem Function.refs_clone (φ : GlobalId → Mapped) (f : Function GlobalId) : (f.clone φ).refs = f.refs.map φ := by
  have hbody : ((f.body.map (List.map (·.map φ))).getD []).flatMap Instruction.refs =
      (f.instructions.flatMap Instruction.refs).map φ := by
    unfold Function.instructions
    cases f.body with
    | none => rfl
    | some is =>
      rw [Option.map_some, Option.getD_some, Option.getD_some, List.flatMap_map, List.map_flatMap]
      exact List.flatMap_congr fun i _ => flatMap_refs_map φ i.operands
  rw [Function.refs, Function.refs, List.map_append, ← toList_refs_map, ← hbody]
  rfl

/-- A declaration has no metadata in its copy. -/
theorem Function.metadataRefs_clone (φ : GlobalId → Mapped) (f : Function GlobalId) :
    (f.clone φ).metadataRefs = if f.isDeclaration then [] else f.metadataRefs.map φ := by
  cases hbody : f.body with
  | none => simp [Function.metadataRefs, Function.clone, Function.instructions, Function.isDeclaration, hbody]
  | some is =>
    have hmetadata : ((f.metadata.map (Prod.map id (List.map (·.map φ)))).flatMap Prod.snd).flatMap Value.refs =
        ((f.metadata.flatMap Prod.snd).flatMap Value.refs).map φ := by
      rw [← flatMap_refs_map, List.flatMap_map, List.map_flatMap]
      rfl
    have hinstructions : (is.map (·.map φ)).flatMap Instruction.metadataRefs =
        (is.flatMap Instruction.metadataRefs).map φ := by
      rw [List.flatMap_map, List.map_flatMap]
      exact List.flatMap_congr fun i _ => flatMap_refs_map φ i.metadata
    have hdeclared : f.isDeclaration = false := by
      rw [Function.isDeclaration, hbody]
      rfl
    unfold Function.metadataRefs Function.clone Function.instructions
    rw [hdeclared, hbody, if_neg Bool.false_ne_true, if_neg Bool.false_ne_true, List.map_append, ← hmetadata,
      Option.map_some, Option.getD_some, Option.getD_some, ← hinstructions]

/-- What an operand refers to is seen or hidden. -/
theorem Value.mem_refs_iff {g : GlobalId} (v : Value GlobalId) :
    g ∈ v.refs ↔ (∃ i ∈ v.seen, g = .globalVariable i) ∨ g ∈ v.hidden := by
  induction v with
  | global h => cases h <;> simp [Value.refs, Value.seen, Value.hidden]
  | node kind operands ih =>
    cases kind with
    | constantExpr opcode =>
      simp only [Value.refs, Value.seen, Value.hidden, List.mem_flatMap, ih]
      constructor
      · rintro ⟨i, hi, ⟨j, hj, rfl⟩ | hhidden⟩
        · exact .inl ⟨j, ⟨i, hi, hj⟩, rfl⟩
        · exact .inr ⟨i, hi, hhidden⟩
      · rintro (⟨j, ⟨i, hi, hj⟩, rfl⟩ | ⟨i, hi, hhidden⟩)
        · exact ⟨i, hi, .inl ⟨j, hj, rfl⟩⟩
        · exact ⟨i, hi, .inr hhidden⟩
    | _ => simp [Value.refs, Value.seen, Value.hidden]

/-! ## The loops find what is seen -/

theorem mem_insertVariable {v : Value GlobalId} {reachable : List Nat} {i : Nat} :
    i ∈ insertVariable reachable v ↔ i ∈ reachable ∨ v = .global (.globalVariable i) := by
  rcases v with (j | j) | _
  · exact (or_iff_left nofun).symm
  · rw [insertVariable, List.mem_insert_iff, or_comm, Value.global.injEq, GlobalId.globalVariable.injEq, eq_comm]
  · exact (or_iff_left nofun).symm

theorem mem_foldl_insertVariable {vs : List (Value GlobalId)} {reachable : List Nat} {i : Nat} :
    i ∈ vs.foldl insertVariable reachable ↔ i ∈ reachable ∨ .global (.globalVariable i) ∈ vs := by
  induction vs generalizing reachable with
  | nil => exact (or_iff_left List.not_mem_nil).symm
  | cons v vs ih => rw [List.foldl_cons, ih, mem_insertVariable, or_assoc, List.mem_cons, eq_comm]

theorem mem_seen_of_constantExpr {v : Value GlobalId} (hv : v.isConstantExpr = true) {i : Nat} :
    i ∈ v.seen ↔ .global (.globalVariable i) ∈ v.operandValues ∨
      ∃ o ∈ v.operandValues.filter (·.isConstantExpr), i ∈ o.seen := by
  have hoperand : ∀ o : Value GlobalId, i ∈ o.seen ↔
      .global (.globalVariable i) = o ∨ (o.isConstantExpr = true ∧ i ∈ o.seen) := by
    intro o
    rcases o with (j | j) | ⟨kind, operands⟩
    · simp [Value.seen, Value.isConstantExpr]
    · simp [Value.seen, Value.isConstantExpr]
    · cases kind <;> simp [Value.seen, Value.isConstantExpr]
  obtain _ | ⟨kind, operands⟩ := v
  · cases hv
  · cases kind with
    | constantExpr opcode =>
      have hseen : i ∈ (Value.node (.constantExpr opcode) operands).seen ↔ ∃ o ∈ List.ofFn operands, i ∈ o.seen := by
        simp [Value.seen, List.mem_ofFn]
      rw [hseen, Value.operandValues]
      constructor
      · rintro ⟨o, ho, hi⟩
        rcases (hoperand o).1 hi with rfl | ⟨hexpr, hi⟩
        · exact .inl ho
        · exact .inr ⟨o, List.mem_filter.2 ⟨ho, hexpr⟩, hi⟩
      · rintro (ho | ⟨o, ho, hi⟩)
        · exact ⟨_, ho, List.mem_singleton.2 rfl⟩
        · exact ⟨o, List.mem_of_mem_filter ho, hi⟩
    | _ => cases hv

theorem size_operandValues (v : Value GlobalId) : (v.operandValues.map Value.size).sum < v.size := by
  cases v with
  | global g => exact Nat.zero_lt_one
  | node kind operands =>
    rw [Value.operandValues, Value.size, List.ofFn_eq_map, List.map_map]
    exact Nat.lt_add_of_pos_left Nat.zero_lt_one

/-- The expressions on the list get fewer turn by turn, counted with those in them. -/
theorem visitConstantExpr_eq (turns : Nat) (work : List (Value GlobalId)) (reachable : List Nat)
    (hexprs : ∀ v ∈ work, v.isConstantExpr = true) (hturns : (work.map Value.size).sum ≤ turns) :
    ∃ out, visitConstantExpr turns work reachable = some out ∧
      ∀ i, i ∈ out ↔ i ∈ reachable ∨ ∃ v ∈ work, i ∈ v.seen := by
  induction turns generalizing work reachable with
  | zero =>
    cases work with
    | nil => exact ⟨reachable, rfl, fun i => by simp⟩
    | cons v work =>
      have hpos : 0 < v.size := (Nat.zero_le _).trans_lt (size_operandValues v)
      rw [List.map_cons, List.sum_cons] at hturns
      omega
  | succ turns ih =>
    cases work with
    | nil => exact ⟨reachable, rfl, fun i => by simp⟩
    | cons v work =>
      rw [List.forall_mem_cons] at hexprs
      rw [List.map_cons, List.sum_cons] at hturns
      have hfilter : ((v.operandValues.filter (·.isConstantExpr)).map Value.size).sum ≤
          (v.operandValues.map Value.size).sum :=
        (List.filter_sublist.map _).sum_le_sum fun _ _ => Nat.zero_le _
      have hsize := size_operandValues v
      have hput : ∀ o ∈ (v.operandValues.filter (·.isConstantExpr)).reverse ++ work, o.isConstantExpr = true := by
        intro o ho
        rcases List.mem_append.1 ho with ho | ho
        · exact (List.mem_filter.1 (List.mem_reverse.1 ho)).2
        · exact hexprs.2 o ho
      have hfewer : (((v.operandValues.filter (·.isConstantExpr)).reverse ++ work).map Value.size).sum ≤ turns := by
        rw [List.map_append, List.sum_append, List.map_reverse, List.sum_reverse]
        omega
      obtain ⟨out, hout, hmem⟩ := ih _ (v.operandValues.foldl insertVariable reachable) hput hfewer
      refine ⟨out, hout, fun i => ?_⟩
      rw [hmem, mem_foldl_insertVariable, or_assoc, List.exists_mem_cons_iff, mem_seen_of_constantExpr hexprs.1, or_assoc]
      simp only [List.mem_append, List.mem_reverse, or_and_right, exists_or]

theorem visitOperand_eq (reachable : List Nat) (v : Value GlobalId) :
    ∃ out, visitOperand reachable v = some out ∧ ∀ i, i ∈ out ↔ i ∈ reachable ∨ i ∈ v.seen := by
  unfold visitOperand
  split
  next hv =>
    obtain ⟨out, hout, hmem⟩ := visitConstantExpr_eq v.size [v] reachable (by simpa using hv) (by simp)
    exact ⟨out, hout, by simpa using hmem⟩
  next hv =>
    refine ⟨insertVariable reachable v, rfl, fun i => mem_insertVariable.trans (or_congr_right ?_)⟩
    rcases v with (j | j) | ⟨kind, operands⟩
    · simp [Value.seen]
    · simp [Value.seen, eq_comm]
    · cases kind with
      | constantExpr opcode => exact absurd rfl hv
      | _ => simp [Value.seen]

theorem foldlM_visitOperand (vs : List (Value GlobalId)) (reachable : List Nat) :
    ∃ out, vs.foldlM visitOperand reachable = some out ∧ ∀ i, i ∈ out ↔ i ∈ reachable ∨ ∃ v ∈ vs, i ∈ v.seen := by
  induction vs generalizing reachable with
  | nil => exact ⟨reachable, rfl, fun i => by simp⟩
  | cons v vs ih =>
    obtain ⟨mid, hmid, hmemMid⟩ := visitOperand_eq reachable v
    obtain ⟨out, hout, hmem⟩ := ih mid
    refine ⟨out, ?_, fun i => ?_⟩
    · rw [List.foldlM_cons, hmid]
      exact hout
    · rw [hmem, hmemMid, or_assoc, List.exists_mem_cons_iff]

namespace Module
variable {M : Module} {F : Nat}

theorem computeReachableGlobalVariables_eq (fns : List Nat) :
    ∃ gvs, M.computeReachableGlobalVariables fns = some gvs ∧
      ∀ v, v ∈ gvs ↔ ∃ f ∈ fns, ∃ o ∈ M.operandValues f, v ∈ o.seen := by
  obtain ⟨gvs, hgvs, hmem⟩ := foldlM_visitOperand (fns.flatMap M.operandValues) []
  refine ⟨gvs, hgvs, fun v => ?_⟩
  rw [hmem, or_iff_right List.not_mem_nil]
  simp only [List.mem_flatMap]
  exact ⟨fun ⟨o, ⟨f, hf, ho⟩, hv⟩ => ⟨f, hf, o, ho, hv⟩, fun ⟨f, hf, o, ho, hv⟩ => ⟨o, ⟨f, hf, ho⟩, hv⟩⟩

theorem mem_operandValues {i : Nat} {o : Value GlobalId} :
    o ∈ M.operandValues i ↔ ∃ f, M.functions[i]? = some f ∧ o ∈ f.instructions.flatMap Instruction.operands := by
  unfold operandValues
  cases M.functions[i]? with
  | none => simp
  | some f => simp

theorem mem_refs_of_operand {f : Function GlobalId} {o : Value GlobalId} {g : GlobalId}
    (ho : o ∈ f.instructions.flatMap Instruction.operands) (hg : g ∈ o.refs) : g ∈ f.refs := by
  obtain ⟨i, hi, ho⟩ := List.mem_flatMap.1 ho
  exact List.mem_append_right _ (List.mem_flatMap.2 ⟨i, hi, List.mem_flatMap.2 ⟨o, ho, hg⟩⟩)

theorem getCalledFunction_mem {i : Instruction GlobalId} {g : Nat} (h : i.getCalledFunction = some g) :
    .global (.function g) ∈ i.operands := by
  unfold Instruction.getCalledFunction at h
  obtain ⟨v, hv, hg⟩ := Option.bind_eq_some_iff.1 h
  rcases v with (j | j) | _
  · cases hg
    exact List.mem_of_getLast? hv
  · cases hg
  · cases hg

theorem lt_of_calls {f g : Nat} (h : M.Calls f g) : g < M.functions.length := by
  unfold Calls called at h
  dsimp only at h
  cases hf : M.functions[f]? with
  | none =>
    rw [hf] at h
    cases h
  | some fn =>
    rw [hf] at h
    obtain ⟨i, hi, hcalled⟩ := List.mem_map.1 h
    have ho : .global (.function g) ∈ fn.instructions.flatMap Instruction.operands :=
      List.mem_flatMap.2 ⟨i, List.mem_of_mem_filter hi, getCalledFunction_mem hcalled⟩
    exact M.functions_in fn (List.mem_of_getElem? hf) _ (mem_refs_of_operand ho (List.mem_singleton.2 rfl))

theorem called_mem_nodes (x : Option Nat) : ∀ y ∈ M.called x, y ∈ M.nodes := by
  intro y hy
  cases y with
  | none => exact List.mem_cons_self
  | some g =>
    cases x with
    | none => cases hy
    | some f => exact List.mem_cons_of_mem _ (List.mem_map_of_mem (List.mem_range.2 (lt_of_calls hy)))

theorem Seen.lt {v : Nat} (h : M.Seen F v) : v < M.globals.length := by
  obtain ⟨f, -, o, ho, hv⟩ := h
  obtain ⟨fn, hfn, ho⟩ := mem_operandValues.1 ho
  exact M.functions_in fn (List.mem_of_getElem? hfn) _ (mem_refs_of_operand ho (o.mem_refs_iff.2 (.inl ⟨v, hv, rfl⟩)))

theorem Reached.lt (hF : F < M.functions.length) {f : Nat} (h : M.Reached F f) : f < M.functions.length := by
  cases h with
  | refl => exact hF
  | tail _ hcall => exact lt_of_calls hcall

/-- Without indirect calls, the loop sees no null pointer. -/
theorem reaches_iff (hdirect : M.DirectCalls F) {x : Option Nat} :
    Worklist.Reaches M.called (some F) x ↔ ∃ f, x = some f ∧ M.Reached F f := by
  constructor
  · intro h
    induction h with
    | refl => exact ⟨F, rfl, .refl⟩
    | @tail _ y _ hstep ih =>
      obtain ⟨f, rfl, hf⟩ := ih
      cases y with
      | none => exact absurd hstep (hdirect f hf)
      | some g => exact ⟨g, rfl, hf.tail hstep⟩
  · rintro ⟨f, rfl, hf⟩
    exact Relation.ReflTransGen.lift (p := fun x y => y ∈ M.called x) some (fun _ _ hcall => hcall) _ _ hf

theorem computeReachableFunctions_eq (hF : F < M.functions.length) (hdirect : M.DirectCalls F) :
    ∃ fns, M.computeReachableFunctions [F] = pure (some fns) ∧ ∀ f, f ∈ fns ↔ M.Reached F f := by
  have hwork : ∀ x ∈ [some F], x ∈ M.nodes := by
    rintro x hx
    rw [List.mem_singleton.1 hx]
    exact List.mem_cons_of_mem _ (List.mem_map_of_mem (List.mem_range.2 hF))
  obtain ⟨out, hout⟩ := Worklist.run_isSome (fun x _ => called_mem_nodes x) hwork
    (le_refl (Worklist.turns M.called M.nodes [some F]))
  have hmem : ∀ x, x ∈ out ↔ ∃ f, x = some f ∧ M.Reached F f := by
    intro x
    rw [Worklist.mem_run hout, ← reaches_iff hdirect]
    simp only [List.mem_singleton, exists_eq_left]
  refine ⟨(out.filterMap id).reverse, ?_, fun f => ?_⟩
  · have hsome : out.all Option.isSome = true := by
      rw [List.all_eq_true]
      intro x hx
      obtain ⟨f, rfl, -⟩ := (hmem x).1 hx
      rfl
    unfold computeReachableFunctions
    simp only [List.map_cons, List.map_nil, List.reverse_singleton, hout, Option.getD_some, hsome]
    rfl
  · rw [List.mem_reverse, List.mem_filterMap]
    simp only [id_eq, exists_eq_right, hmem, Option.some.injEq, exists_eq_left']

/-! ## The copy -/

section Copy
variable {fns gvs : List Nat} {ks : Option (List (List (Value Mapped)))} (hfns : ∀ f, f ∈ fns ↔ M.Reached F f)
  (hgvs : ∀ v, v ∈ gvs ↔ M.Seen F v)

/-- The copies of some elements of a list, with their numbers. -/
theorem mem_copies {α β : Type} {is : List Nat} {xs : List α} {c : α → β} {i : Nat} {y : β} :
    (i, y) ∈ is.filterMap (fun i => (xs[i]?).map fun x => (i, c x)) ↔ i ∈ is ∧ ∃ x, xs[i]? = some x ∧ y = c x := by
  simp only [List.mem_filterMap, Option.map_eq_some_iff, Prod.mk.injEq]
  constructor
  · rintro ⟨j, hj, x, hx, rfl, rfl⟩
    exact ⟨hj, x, hx, rfl⟩
  · rintro ⟨hi, x, hx, rfl⟩
    exact ⟨i, hi, x, hx, rfl, rfl⟩

theorem mem_copies_fst {α β : Type} {is : List Nat} {xs : List α} {c : α → β} (his : ∀ i ∈ is, i < xs.length) {i : Nat} :
    i ∈ (is.filterMap fun i => (xs[i]?).map fun x => (i, c x)).map Prod.fst ↔ i ∈ is := by
  rw [List.mem_map]
  constructor
  · rintro ⟨⟨j, y⟩, hmem, rfl⟩
    exact (mem_copies.1 hmem).1
  · intro hi
    exact ⟨_, mem_copies.2 ⟨hi, _, List.getElem?_eq_getElem (his i hi), rfl⟩, rfl⟩

theorem mem_functions_copy {i : Nat} {f' : Function Mapped} : (i, f') ∈ (M.copy F fns gvs ks).functions ↔
    i ∈ fns ∧ ∃ f, M.functions[i]? = some f ∧ f' = f.clone (mapGlobal fns gvs) := mem_copies

theorem mem_globals_copy {i : Nat} {v' : GlobalVariable Mapped} : (i, v') ∈ (M.copy F fns gvs ks).globals ↔
    i ∈ gvs ∧ ∃ v, M.globals[i]? = some v ∧ v' = v.map (mapGlobal fns gvs) := mem_copies

include hfns hgvs

theorem mapGlobal_eq_new (g : GlobalId) : (∃ h, mapGlobal fns gvs g = .new h) ↔ M.Extracted F g := by
  cases g with
  | function i =>
    rw [mapGlobal, Extracted, ← hfns]
    by_cases hi : i ∈ fns <;> simp [hi]
  | globalVariable i =>
    rw [mapGlobal, Extracted, ← hgvs]
    by_cases hi : i ∈ gvs <;> simp [hi]

theorem contains_copy (hF : F < M.functions.length) (g : GlobalId) :
    (M.copy F fns gvs ks).Contains g ↔ M.Extracted F g := by
  cases g with
  | function i =>
    rw [KernelModule.Contains, Extracted, ← hfns]
    exact mem_copies_fst fun j hj => ((hfns j).1 hj).lt hF
  | globalVariable i =>
    rw [KernelModule.Contains, Extracted, ← hgvs]
    exact mem_copies_fst fun j hj => ((hgvs j).1 hj).lt

theorem forall_map_new (l : List GlobalId) :
    (∀ k ∈ l.map (mapGlobal fns gvs), ∃ h, k = .new h) ↔ ∀ g ∈ l, M.Extracted F g := by
  rw [List.forall_mem_map]
  exact forall₂_congr fun g _ => mapGlobal_eq_new hfns hgvs g

/-- The references of the copies, without those of a list of kernels. -/
theorem noOld_iff (hks : ks.getD [] = []) :
    (∀ k ∈ (M.copy F fns gvs ks).refs, ∃ g, k = .new g) ↔
      (∀ i f, M.Reached F i → M.functions[i]? = some f →
        ∀ g, g ∈ f.refs ∨ (f.isDeclaration = false ∧ g ∈ f.metadataRefs) → M.Extracted F g) ∧
      ∀ i v, M.Seen F i → M.globals[i]? = some v → ∀ g ∈ v.refs, M.Extracted F g := by
  have hmetadata : ∀ f : Function GlobalId, (∀ k ∈ (f.clone (mapGlobal fns gvs)).metadataRefs, ∃ h, k = .new h) ↔
      ∀ g, f.isDeclaration = false ∧ g ∈ f.metadataRefs → M.Extracted F g := by
    intro f
    rw [f.metadataRefs_clone]
    cases f.isDeclaration with
    | true => simp
    | false => simpa using forall_map_new hfns hgvs f.metadataRefs
  have hrefs : ∀ k, k ∈ (M.copy F fns gvs ks).refs ↔
      (∃ p ∈ (M.copy F fns gvs ks).functions, k ∈ p.2.refs ∨ k ∈ p.2.metadataRefs) ∨
        ∃ p ∈ (M.copy F fns gvs ks).globals, k ∈ p.2.refs := by
    intro k
    have hkernels : ((M.copy F fns gvs ks).openclKernels.getD []) = [] := hks
    simp only [KernelModule.refs, hkernels, List.flatMap_nil, List.append_nil, List.mem_append, List.mem_flatMap]
  simp only [hrefs]
  constructor
  · intro h
    refine ⟨fun i f hi hf g hg => ?_, fun i v hi hv g hg => ?_⟩
    · have hmem : (i, f.clone (mapGlobal fns gvs)) ∈ (M.copy F fns gvs ks).functions :=
        mem_functions_copy.2 ⟨(hfns i).2 hi, f, hf, rfl⟩
      rcases hg with hg | hg
      · exact (forall_map_new hfns hgvs f.refs).1
          (fun k hk => h k (.inl ⟨_, hmem, .inl ((f.refs_clone _).symm ▸ hk)⟩)) g hg
      · exact (hmetadata f).1 (fun k hk => h k (.inl ⟨_, hmem, .inr hk⟩)) g hg
    · have hmem : (i, v.map (mapGlobal fns gvs)) ∈ (M.copy F fns gvs ks).globals :=
        mem_globals_copy.2 ⟨(hgvs i).2 hi, v, hv, rfl⟩
      exact (forall_map_new hfns hgvs v.refs).1 (fun k hk => h k (.inr ⟨_, hmem, (v.refs_map _).symm ▸ hk⟩)) g hg
  · rintro ⟨hfunctions, hglobals⟩ k (⟨⟨i, f'⟩, hmem, hk⟩ | ⟨⟨i, v'⟩, hmem, hk⟩)
    · obtain ⟨hi, f, hf, rfl⟩ := mem_functions_copy.1 hmem
      have hextracted := hfunctions i f ((hfns i).1 hi) hf
      rcases hk with hk | hk
      · rw [f.refs_clone] at hk
        exact (forall_map_new hfns hgvs f.refs).2 (fun g hg => hextracted g (.inl hg)) k hk
      · exact (hmetadata f).2 (fun g hg => hextracted g (.inr hg)) k hk
    · obtain ⟨hi, v, hv, rfl⟩ := mem_globals_copy.1 hmem
      rw [v.refs_map] at hk
      exact (forall_map_new hfns hgvs v.refs).2 (hglobals i v ((hgvs i).1 hi) hv) k hk

end Copy

theorem mem_refs_function (f : Function GlobalId) (g : GlobalId) : g ∈ f.refs ↔
    (∃ o ∈ f.instructions.flatMap Instruction.operands, ∃ i ∈ o.seen, g = .globalVariable i) ∨ g ∈ f.hidden := by
  have hoperands : f.instructions.flatMap Instruction.refs =
      (f.instructions.flatMap Instruction.operands).flatMap Value.refs := by
    rw [List.flatMap_assoc]
    rfl
  have hmem : g ∈ (f.instructions.flatMap Instruction.operands).flatMap Value.refs ↔
      (∃ o ∈ f.instructions.flatMap Instruction.operands, ∃ i ∈ o.seen, g = .globalVariable i) ∨
        g ∈ (f.instructions.flatMap Instruction.operands).flatMap Value.hidden := by
    simp only [List.mem_flatMap (f := Value.refs), List.mem_flatMap (f := Value.hidden), Value.mem_refs_iff, and_or_left,
      exists_or]
  rw [Function.refs, Function.hidden, hoperands, List.mem_append, List.mem_append, hmem, or_left_comm]

/-- Of the references, those that are seen are to what is extracted. -/
theorem hidden_iff : (∀ g, M.Hidden F g → M.Extracted F g) ↔
    (∀ i f, M.Reached F i → M.functions[i]? = some f →
      ∀ g, g ∈ f.refs ∨ (f.isDeclaration = false ∧ g ∈ f.metadataRefs) → M.Extracted F g) ∧
    ∀ i v, M.Seen F i → M.globals[i]? = some v → ∀ g ∈ v.refs, M.Extracted F g := by
  constructor
  · intro h
    refine ⟨fun i f hi hf g hg => ?_, fun i v hi hv g hg => h g (.inr ⟨i, v, hi, hv, hg⟩)⟩
    rw [mem_refs_function, or_assoc] at hg
    rcases hg with ⟨o, ho, j, hj, rfl⟩ | hg
    · exact ⟨i, hi, o, mem_operandValues.2 ⟨f, hf, ho⟩, hj⟩
    · exact h g (.inl ⟨i, f, hi, hf, hg⟩)
  · rintro ⟨hfunctions, hglobals⟩ g (⟨i, f, hi, hf, hg⟩ | ⟨i, v, hi, hv, hg⟩)
    · exact hfunctions i f hi hf g (hg.imp_left fun hhidden => (mem_refs_function f g).2 (.inr hhidden))
    · exact hglobals i v hi hv g hg

section Extraction
variable {fns gvs : List Nat} {ks : Option (List (List (Value Mapped)))}

theorem isKernel_clone (φ : GlobalId → Mapped) (f : Function GlobalId) : (f.clone φ).isKernel = f.isKernel := by
  cases hbody : f.body <;> simp [Function.isKernel, Function.clone, Function.isDeclaration, hbody]

/-- The kernels are marked in the copy as in the module. -/
theorem mem_kernels_copy (henum : M.info.isSPIR = true → M.openclKernels = some []) (hks : ks.getD [] = [])
    (hfns : ∀ f ∈ fns, f < M.functions.length) (k : Mapped) :
    k ∈ (M.copy F fns gvs ks).kernels ↔ ∃ g, k = .new g ∧ (M.copy F fns gvs ks).Contains g ∧ g ∈ M.kernels := by
  have hspir : (M.copy F fns gvs ks).isSPIR = M.info.isSPIR := rfl
  have hlist : (M.copy F fns gvs ks).openclKernels.getD [] = [] := hks
  rw [KernelModule.kernels, kernels, hspir, hlist]
  cases hmode : M.info.isSPIR with
  | true => simp [henum hmode, listedKernels]
  | false =>
    simp only [Bool.false_eq_true, if_false, List.mem_map, List.mem_filter, List.mem_range]
    constructor
    · rintro ⟨⟨i, f'⟩, ⟨hmem, hkernel⟩, rfl⟩
      obtain ⟨hi, f, hf, rfl⟩ := mem_functions_copy.1 hmem
      refine ⟨.function i, rfl, List.mem_map.2 ⟨_, hmem, rfl⟩, i, ⟨hfns i hi, ?_⟩, rfl⟩
      rwa [hf, Option.any_some, ← isKernel_clone]
    · rintro ⟨g, rfl, hcontains, i, ⟨-, hkernel⟩, rfl⟩
      obtain ⟨⟨j, f'⟩, hmem, rfl⟩ := List.mem_map.1 hcontains
      obtain ⟨hi, f, hf, rfl⟩ := mem_functions_copy.1 hmem
      refine ⟨_, ⟨hmem, ?_⟩, rfl⟩
      rwa [hf, Option.any_some, ← isKernel_clone] at hkernel

theorem isClosed_copy_iff (hF : F < M.functions.length) (hfns : ∀ f, f ∈ fns ↔ M.Reached F f)
    (hgvs : ∀ v, v ∈ gvs ↔ M.Seen F v) (henum : M.info.isSPIR = true → M.openclKernels = some []) (hks : ks.getD [] = []) :
    M.IsClosed F (M.copy F fns gvs ks) ↔ ∀ g, M.Hidden F g → M.Extracted F g := by
  rw [hidden_iff]
  constructor
  · intro h
    exact (noOld_iff hfns hgvs hks).1 h.noOld
  · intro h
    have hcontains : ∀ g, (M.copy F fns gvs ks).Contains g ↔ M.Extracted F g := contains_copy hfns hgvs hF
    constructor
    case kernel => exact (hcontains _).2 .refl
    case bodies =>
      intro i f hi hf g hg
      exact (hcontains g).2 (h.1 i f ((hcontains _).1 hi) hf g (.inl hg))
    case initializers =>
      intro i v hi hv g hg
      exact (hcontains g).2 (h.2 i v ((hcontains _).1 hi) hv g hg)
    case kernels => exact mem_kernels_copy henum hks fun f hf => ((hfns f).1 hf).lt hF
    case noOld => exact (noOld_iff hfns hgvs hks).2 h

theorem extractKernelModule_eq (hF : F < M.functions.length) (hdirect : M.DirectCalls F) :
    ∃ fns gvs, (∀ f, f ∈ fns ↔ M.Reached F f) ∧ (∀ v, v ∈ gvs ↔ M.Seen F v) ∧
      M.extractKernelModule F = if M.info.isSPIR then do
          let newKernels ← M.regenerateKernels F fns gvs
          pure (newKernels.map fun ks => M.copy F fns gvs (some ks))
        else pure (some (M.copy F fns gvs none)) := by
  obtain ⟨fns, hrun, hfns⟩ := computeReachableFunctions_eq hF hdirect
  obtain ⟨gvs, hloop, hgvs⟩ := computeReachableGlobalVariables_eq (M := M) fns
  refine ⟨fns, gvs, hfns, fun v => ?_, ?_⟩
  · rw [hgvs]
    simp only [hfns, Seen]
  · unfold extractKernelModule
    rw [hrun, pure_bind]
    dsimp only
    rw [hloop]

/-- Where some kernels are listed, or there is no list, the loop over them fails. -/
theorem not_ok_regenerateKernels (hmode : M.info.isSPIR = true) (hks : M.openclKernels ≠ some []) :
    (M.regenerateKernels F fns gvs).ok = false := by
  unfold regenerateKernels
  rw [Checked.ok_bind]
  rcases hlist : M.openclKernels with _ | _ | ⟨md, rest⟩
  · rfl
  · exact absurd hlist hks
  · have hinfo : M.info.openclKernels = some (md.map Value.toMetadata :: rest.map (List.map Value.toMetadata)) := by
      rw [info, hlist]
      rfl
    have hget : (M.info.get (M.getName F)).ok = false := by
      unfold ModuleInfo.Module.get ModuleInfo.Module.contains ModuleInfo.Module.find
      rw [Checked.ok_bind, Checked.ok_bind, Checked.ok_bind, ModuleInfo.begin_listed hmode hinfo]
      rfl
    rw [Option.getD_some, List.foldlM_cons, Checked.ok_bind, Checked.ok_bind, hget, Bool.false_and, Bool.false_and,
      Bool.and_false]

/-- The new module is closed if and only if what the loops do not look at they find elsewhere. -/
theorem extractsClosed_iff (M : Module) (F : Nat) (hF : F < M.functions.length) (hdirect : M.DirectCalls F) :
    M.ExtractsClosed F ↔
      (M.info.isSPIR = true → M.openclKernels = some []) ∧ ∀ g, M.Hidden F g → M.Extracted F g := by
  obtain ⟨fns, gvs, hfns, hgvs, hextract⟩ := extractKernelModule_eq hF hdirect
  unfold ExtractsClosed
  rw [hextract]
  cases hmode : M.info.isSPIR with
  | false =>
    have henum : M.info.isSPIR = true → M.openclKernels = some [] := fun h => by rw [hmode] at h; cases h
    rw [if_neg Bool.false_ne_true]
    constructor
    · rintro ⟨N, hN, hclosed⟩
      cases congrArg Checked.val hN
      exact ⟨nofun, (isClosed_copy_iff hF hfns hgvs henum rfl).1 hclosed⟩
    · rintro ⟨-, hhidden⟩
      exact ⟨_, rfl, (isClosed_copy_iff hF hfns hgvs henum rfl).2 hhidden⟩
  | true =>
    rw [if_pos rfl]
    by_cases hks : M.openclKernels = some []
    · have hregenerate : M.regenerateKernels F fns gvs = pure (some []) := by
        unfold regenerateKernels
        rw [hks]
        rfl
      rw [hregenerate, pure_bind, Option.map_some]
      constructor
      · rintro ⟨N, hN, hclosed⟩
        cases congrArg Checked.val hN
        exact ⟨fun _ => hks, (isClosed_copy_iff hF hfns hgvs (fun _ => hks) rfl).1 hclosed⟩
      · rintro ⟨-, hhidden⟩
        exact ⟨_, rfl, (isClosed_copy_iff hF hfns hgvs (fun _ => hks) rfl).2 hhidden⟩
    · refine iff_of_false ?_ fun h => hks (h.1 rfl)
      rintro ⟨N, hN, -⟩
      have hok := congrArg Checked.ok hN
      rw [Checked.ok_bind, not_ok_regenerateKernels hmode hks, Bool.false_and] at hok
      cases hok

end Extraction

end Module

/-! ### Two kernels -/

/-- The kernel calls a function; between them, they use the two variables, of which one is initialized with the other. -/
def counterModule : Module where
  dataLayout := ""
  targetTriple := "x86_64-unknown-linux-gnu"
  functions :=
    [⟨"k", "external", .spirKernel, none, [("kernel_arg_type", [.node (.mdString "int*") ![]])],
      some [⟨"call", [.node (.localValue 0) ![], .global (.function 1)], []⟩,
        ⟨"load", [.node (.constantExpr "getelementptr") ![.global (.globalVariable 0), .node (.constantInt 1) ![]]], []⟩]⟩,
    ⟨"f", "internal", .spirFunc, none, [],
      some [⟨"store", [.node (.localValue 0) ![], .global (.globalVariable 1)], []⟩]⟩,
    ⟨"other", "external", .spirKernel, none, [], some [⟨"call", [.global (.function 1)], []⟩]⟩]
  globals :=
    [⟨"table", "internal", true, 2, some (.node .aggregate ![.node (.constantInt 3) ![], .node (.constantInt 5) ![]])⟩,
    ⟨"next", "internal", false, 1, some (.node (.constantExpr "addrspacecast") ![.global (.globalVariable 0)])⟩]
  openclKernels := none
  functions_in := by decide
  globals_in := by decide

theorem reached_counter {f : Nat} (h : counterModule.Reached 0 f) : f = 0 ∨ f = 1 := by
  induction h with
  | refl => exact .inl rfl
  | @tail f g _ hcall ih =>
    rcases ih with rfl | rfl
    · have hcalled : counterModule.called (some 0) = [some 1] := by decide
      rw [Module.Calls, hcalled, List.mem_singleton, Option.some.injEq] at hcall
      exact .inr hcall
    · have hcalled : counterModule.called (some 1) = [] := by decide
      rw [Module.Calls, hcalled] at hcall
      cases hcall

theorem counter_extracted : counterModule.ExtractsClosed 0 := by
  refine (Module.extractsClosed_iff counterModule 0 (by decide) ?_).2 ⟨nofun, ?_⟩
  · intro f hf
    rcases reached_counter hf with rfl | rfl <;> decide
  · have hfunctions : ∀ i ∈ [0, 1], ∀ f ∈ counterModule.functions[i]?, ∀ g ∈ f.hidden ++ f.metadataRefs, g = .function 1 := by
      decide
    have hglobals : ∀ v ∈ counterModule.globals, ∀ g ∈ v.refs, g = .globalVariable 0 := by decide
    rintro g (⟨i, f, hi, hf, hg⟩ | ⟨i, v, -, hv, hg⟩)
    · have hi' : i ∈ [0, 1] := by simpa using reached_counter hi
      rw [hfunctions i hi' f hf g (List.mem_append.2 (hg.imp_right And.right))]
      exact .single (by unfold Module.Calls; decide)
    · rw [hglobals v (List.mem_of_getElem? hv) g hg]
      exact ⟨0, .refl, by decide⟩

/-- The kernel reads a pointer, which is initialized with the address of another variable. -/
def pointerModule : Module where
  dataLayout := ""
  targetTriple := "x86_64-unknown-linux-gnu"
  functions := [⟨"k", "external", .spirKernel, none, [], some [⟨"load", [.global (.globalVariable 0)], []⟩]⟩]
  globals :=
    [⟨"a", "internal", true, 2, some (.global (.globalVariable 1))⟩,
    ⟨"b", "internal", true, 2, some (.node (.constantInt 1) ![])⟩]
  openclKernels := none
  functions_in := by decide
  globals_in := by decide

/-- The copy of the pointer still points into the old module. -/
theorem pointer_left : ¬ pointerModule.ExtractsClosed 0 ∧
    (pointerModule.extractKernelModule 0).val.map KernelModule.refs =
      some [.new (.globalVariable 0), .old (.globalVariable 1)] := by
  have hrefs : (pointerModule.extractKernelModule 0).val.map KernelModule.refs =
      some [.new (.globalVariable 0), .old (.globalVariable 1)] := by decide
  refine ⟨?_, hrefs⟩
  rintro ⟨N, hN, hclosed⟩
  rw [hN, Checked.val_pure, Option.map_some, Option.some.injEq] at hrefs
  obtain ⟨g, hg⟩ := hclosed.noOld (.old (.globalVariable 1)) (by rw [hrefs]; decide)
  cases hg

end OpenCRun.KernelExtraction
