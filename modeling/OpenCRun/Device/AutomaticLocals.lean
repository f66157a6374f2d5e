import Mathlib.Data.Fin.VecNotation
import Mathlib.Data.List.Forall2
import Mathlib.Data.List.Nodup
import OpenCRun.Lib.Worklist
/-!
# Automatic local variables

The pass that moves the automatic local variables of kernels into a struct. The
functions that need one get a hidden parameter, the pointer to the struct; the
uses of a variable become its field there, and calls pass the pointer on.
-/
open Lib

namespace OpenCRun.AutomaticLocals

/-! ## Modules -/

/-- An operand. `inserted` and `structGEP` are instructions that the pass puts right before the user, or, under `endOf`,
at the end of a block. -/
inductive Value where
  | global (name : String)
  | argument (i : Nat)
  | result (n : Nat)
  | constant (c : Int)
  | constantExpr (op : String) {n : Nat} (operands : Fin n → Value)
  | inserted (op : String) {n : Nat} (operands : Fin n → Value)
  | structGEP (ptr : Value) (field : Nat)
  | endOf (block : String) (v : Value)

/-- The global variables in an operand. -/
def Value.globals : Value → List String
  | global g => [g]
  | constantExpr _ vs | inserted _ vs => (List.finRange _).flatMap fun i => (vs i).globals
  | structGEP ptr _ => ptr.globals
  | endOf _ v => v.globals
  | argument _ | result _ | constant _ => []

/-- Instructions, with the functions that they call. -/
inductive Instruction (ρ : Type) where
  | call (callee : ρ) (args : List Value)
  | phi (incoming : List (String × Value))
  | other (opcode : String) (operands : List Value)

namespace Instruction

variable {ρ : Type}

def operands : Instruction ρ → List Value
  | call _ args => args
  | phi incoming => incoming.map Prod.snd
  | other _ operands => operands

def globals (i : Instruction ρ) : List String := i.operands.flatMap Value.globals

def calls [DecidableEq ρ] (callee : ρ) : Instruction ρ → Bool
  | call callee' _ => callee' = callee
  | _ => false

def withCallee {ρ' : Type} (f : ρ → ρ') : Instruction ρ → Instruction ρ'
  | call callee args => call (f callee) args
  | phi incoming => phi incoming
  | other opcode operands => other opcode operands

end Instruction

structure GlobalVariable where
  name : String
  hasInternalLinkage : Bool
  isConstant : Bool
  type : String
  deriving DecidableEq, Repr

inductive CallingConv where
  | c | spirFunc | spirKernel
  deriving DecidableEq, Repr

/-- The types of parameters; the hidden one is a pointer to the struct of the variables. -/
inductive Param where
  | declared (type : String)
  | automaticLocals (fields : List String)
  deriving DecidableEq, Repr

structure Function (ρ : Type) where
  fn : ρ
  params : List Param
  linkage : String
  callingConv : CallingConv
  attributes : List String
  metadata : List String
  body : List (Instruction ρ)

structure Module (ρ : Type) where
  /-- The target triple begins with `spir`. -/
  spir : Bool
  globals : List GlobalVariable
  functions : List (Function ρ)
  /-- The functions of `opencl.kernels`, where it is there. -/
  kernels : Option (List ρ)

namespace Function

variable {ρ : Type}

def isDeclaration (f : Function ρ) : Bool := f.body.isEmpty

def isKernel (f : Function ρ) : Bool := !f.isDeclaration && f.callingConv = .spirKernel

end Function

/-- A function that the pass has made takes the name of the one before it. -/
inductive FunctionRef where
  | original (name : String)
  | regenerated (name : String)
  deriving DecidableEq, Repr

def FunctionRef.name : FunctionRef → String
  | original name => name
  | regenerated name => name

/-- The kernels that `ModuleInfo` goes through. The information that is made of a listed kernel has no function, so that its
assertion fails, and `getName` has nothing to ask: with SPIR metadata only an empty list can be gone through. -/
def Module.kernelInfos {ρ : Type} (m : Module ρ) : Option (List ρ) :=
  if m.spir then if (m.kernels.map List.isEmpty).getD false then some [] else none
  else some ((m.functions.filter (·.isKernel)).map (·.fn))

/-! ## The pass -/

/-- The name before the separator. -/
def candidateKernel (name : String) : Option (List Char) :=
  if '.' ∈ name.toList then some (name.toList.takeWhile (· ≠ '.')) else none

namespace Module

def useEmpty (m : Module String) (name : String) : Bool :=
  m.functions.all fun f => f.body.all fun i => name ∉ i.globals

def isAutomaticLocal (m : Module String) (gv : GlobalVariable) : Bool :=
  gv.hasInternalLinkage && !m.useEmpty gv.name &&
    match candidateKernel gv.name with
    | none => false
    | some candidate => (m.kernelInfos.getD []).any (·.toList = candidate)

/-- `AutomaticLocals::create`; the number of a field is the position here. -/
def automaticLocals (m : Module String) : List GlobalVariable := m.globals.filter m.isAutomaticLocal

end Module

/-- The constant expressions with one of the variables become instructions. -/
def Value.expand (locals : List String) : Value → Value
  | constantExpr op vs =>
    if ∃ g ∈ (constantExpr op vs).globals, g ∈ locals then inserted op fun i => (vs i).expand locals
    else constantExpr op vs
  | inserted op vs => inserted op fun i => (vs i).expand locals
  | structGEP ptr field => structGEP (ptr.expand locals) field
  | endOf block v => endOf block (v.expand locals)
  | v => v

/-- Of a PHI node, at the end of the incoming block. -/
def expandIncoming (locals : List String) : String × Value → String × Value
  | (block, .constantExpr op vs) =>
    if ∃ g ∈ (Value.constantExpr op vs).globals, g ∈ locals then
      (block, .endOf block ((Value.constantExpr op vs).expand locals))
    else (block, .constantExpr op vs)
  | (block, v) => (block, v.expand locals)

def Instruction.expand {ρ : Type} (locals : List String) : Instruction ρ → Instruction ρ
  | call callee args => call callee (args.map (·.expand locals))
  | phi incoming => phi (incoming.map (expandIncoming locals))
  | other opcode operands => other opcode (operands.map (·.expand locals))

def Function.mapBody {ρ ρ' : Type} (fn : ρ → ρ') (φ : Instruction ρ → Instruction ρ') (f : Function ρ) : Function ρ' where
  fn := fn f.fn
  params := f.params
  linkage := f.linkage
  callingConv := f.callingConv
  attributes := f.attributes
  metadata := f.metadata
  body := f.body.map φ

namespace Module

def expandConstantExprUsersOf (m : Module String) (name : String) : Module String :=
  { m with functions := m.functions.map (Function.mapBody id (Instruction.expand [name])) }

end Module

/-- What is on the work list. -/
inductive Node where
  | global (name : String)
  | function (name : String)
  deriving DecidableEq, Repr

def Node.function? : Node → Option String
  | global _ => none
  | function name => some name

namespace Module

/-- The functions with an instruction that uses the node. -/
def users (m : Module String) : Node → List Node
  | .global g => m.functions.flatMap fun f => (f.body.filter fun i => g ∈ i.globals).map fun _ => .function f.fn
  | .function callee => m.functions.flatMap fun f => (f.body.filter (·.calls callee)).map fun _ => .function f.fn

def nodes (m : Module String) : List Node := m.globals.map (.global ·.name) ++ m.functions.map (.function ·.fn)

/-- The set of functions to modify. A variable is on the work list once, so that it makes no difference that it counts as
seen. -/
def functionsToModify (m : Module String) (locals : List String) : Option (List String) :=
  let workList := (locals.map Node.global).reverse
  (Worklist.run m.users (Worklist.turns m.users m.nodes workList) workList []).map (List.filterMap Node.function?)

end Module

/-- The attributes have the calling convention with them. -/
def regenerateFunction (spir : Bool) (fields : List String) (f : Function String) : Function FunctionRef where
  fn := .regenerated f.fn
  params := f.params ++ [.automaticLocals fields]
  linkage := f.linkage
  callingConv := if spir then .c else f.callingConv
  attributes := if spir then [] else f.attributes
  metadata := if spir then [] else f.metadata
  body := f.body.map (·.withCallee .original)

/-- The calls in `caller`. The hidden argument is `arg_end()`, which is past the last argument. The loop goes on to the
next use from the call that has just been erased; here it finds all of them. -/
def updateCallUsers (lookup : String → Option (Function FunctionRef)) (caller : Function FunctionRef) :
    Instruction FunctionRef → Instruction FunctionRef
  | .call (.original callee) args =>
    match lookup callee with
    | some newCallee =>
      let hiddenArg := .argument caller.params.length
      let hiddenArgPos := newCallee.params.length - 1
      .call newCallee.fn (args.take hiddenArgPos ++ hiddenArg :: args.drop hiddenArgPos)
    | none => .call (.original callee) args
  | i => i

/-- The uses of the variables become fields of the struct. -/
def Value.replaceUses (locals : List String) (hiddenArg : Value) : Value → Value
  | global g =>
    match locals.idxOf? g with
    | some field => structGEP hiddenArg field
    | none => global g
  | inserted op vs => inserted op fun i => replaceUses locals hiddenArg (vs i)
  | structGEP ptr field => structGEP (replaceUses locals hiddenArg ptr) field
  | endOf block v => endOf block (replaceUses locals hiddenArg v)
  | v => v

/-- An instruction for a use of a PHI node is put right before the node too. -/
def Instruction.replaceUses {ρ : Type} (locals : List String) (hiddenArg : Value) : Instruction ρ → Instruction ρ
  | call callee args => call callee (args.map (Value.replaceUses locals hiddenArg))
  | phi incoming => phi (incoming.map fun e => (e.1, Value.replaceUses locals hiddenArg e.2))
  | other opcode operands => other opcode (operands.map (Value.replaceUses locals hiddenArg))

namespace Module

/-- `F2FMap`. -/
def lookup (m : Module String) (fields fns : List String) (name : String) : Option (Function FunctionRef) :=
  if name ∈ fns then (m.functions.find? (·.fn = name)).map (regenerateFunction m.spir fields) else none

/-- A function after its calls and its uses of the variables have been replaced; `std::prev(arg_end())` is the last
argument. -/
def rewrite (m : Module String) (locals fields fns : List String) (f : Function String) : Function FunctionRef :=
  let f := if f.fn ∈ fns then regenerateFunction m.spir fields f else f.mapBody .original (·.withCallee .original)
  let f := f.mapBody id (updateCallUsers (m.lookup fields fns) f)
  f.mapBody id (·.replaceUses locals (.argument (f.params.length - 1)))

/-- The function of a kernel that is not in `F2FMap` is null, which the metadata cannot be made of. -/
def runOnModule (m : Module String) : Option (Module FunctionRef) :=
  let locals := m.automaticLocals.map (·.name)
  let fields := m.automaticLocals.map (·.type)
  if m.kernelInfos.isNone then none
  else if m.automaticLocals = [] then
    some { m with functions := m.functions.map (Function.mapBody .original (·.withCallee .original))
                  kernels := m.kernels.map (List.map .original) }
  else do
    let expanded := locals.foldl expandConstantExprUsersOf m
    let fns ← expanded.functionsToModify locals
    -- `opencl.kernels` has the functions of a SPIR module.
    let kernels ←
      if m.spir then ((m.kernels.getD []).mapM fun k => (expanded.lookup fields fns k).map (·.fn)).map some
      else some (m.kernels.map (List.map .original))
    some { spir := m.spir
           globals := m.globals.filter fun gv => !m.isAutomaticLocal gv
           functions := expanded.functions.map (expanded.rewrite locals fields fns)
           kernels }

end Module

/-! ## What the pass is for -/

/-- An operand with the variables as fields of the struct. -/
def Value.translated (locals : List String) (hiddenArg : Value) : Value → Value
  | global g =>
    match locals.idxOf? g with
    | some field => structGEP hiddenArg field
    | none => global g
  | constantExpr op vs =>
    if ∃ g ∈ (constantExpr op vs).globals, g ∈ locals then inserted op fun i => translated locals hiddenArg (vs i)
    else constantExpr op vs
  | inserted op vs => inserted op fun i => translated locals hiddenArg (vs i)
  | structGEP ptr field => structGEP (translated locals hiddenArg ptr) field
  | endOf block v => endOf block (translated locals hiddenArg v)
  | v => v

/-- What a PHI node has for a block is computed at the end of it. -/
def translatedIncoming (locals : List String) (hiddenArg : Value) (e : String × Value) : String × Value :=
  if ∃ g ∈ e.2.globals, g ∈ locals then (e.1, .endOf e.1 (Value.translated locals hiddenArg e.2)) else e

namespace Module

/-- The automatic local variables; the variables of a kernel in constant memory have such names too. -/
def locals (m : Module String) : List GlobalVariable := m.automaticLocals.filter fun gv => !gv.isConstant

def localNames (m : Module String) : List String := m.locals.map (·.name)

/-- The function uses one of the variables, or calls one that needs them. -/
inductive Needs (m : Module String) (locals : List String) : String → Prop
  | uses {f : Function String} {i : Instruction String} {g : String} :
      f ∈ m.functions → i ∈ f.body → g ∈ i.globals → g ∈ locals → Needs m locals f.fn
  | calls {f : Function String} {callee : String} {args : List Value} :
      f ∈ m.functions → .call callee args ∈ f.body → Needs m locals callee → Needs m locals f.fn

/-- What becomes of an instruction in a function with `n` parameters. -/
inductive InstructionOf (m : Module String) (locals : List String) (n : Nat) :
    Instruction String → Instruction FunctionRef → Prop
  | call {callee : String} (args : List Value) : ¬ m.Needs locals callee →
      InstructionOf m locals n (.call callee args)
        (.call (.original callee) (args.map (Value.translated locals (.argument n))))
  | callRewritten {callee : String} (args : List Value) : m.Needs locals callee →
      InstructionOf m locals n (.call callee args)
        (.call (.regenerated callee) (args.map (Value.translated locals (.argument n)) ++ [.argument n]))
  | phi (incoming : List (String × Value)) :
      InstructionOf m locals n (.phi incoming) (.phi (incoming.map (translatedIncoming locals (.argument n))))
  | other (opcode : String) (operands : List Value) :
      InstructionOf m locals n (.other opcode operands)
        (.other opcode (operands.map (Value.translated locals (.argument n))))

/-- What becomes of a function. -/
structure FunctionOf (m : Module String) (locals fields : List String) (f : Function String) (f' : Function FunctionRef) :
    Prop where
  name : f'.fn.name = f.fn
  hidden : m.Needs locals f.fn → f'.params = f.params ++ [.automaticLocals fields]
  same : ¬ m.Needs locals f.fn → f'.params = f.params
  body : List.Forall₂ (m.InstructionOf locals f.params.length) f.body f'.body
  linkage : f'.linkage = f.linkage
  kept : m.spir = false → f'.callingConv = f.callingConv ∧ f'.attributes = f.attributes ∧ f'.metadata = f.metadata

/-- The functions that need the variables are rewritten, and those alone; the instructions do what they did, with the
variables in fields of their own; and the kernels are listed. -/
structure Translated (m : Module String) (m' : Module FunctionRef) : Prop where
  rewritten : ∀ name, .regenerated name ∈ m'.functions.map Function.fn ↔ m.Needs m.localNames name
  functions : List.Forall₂ (m.FunctionOf m.localNames (m.locals.map (·.type))) m.functions m'.functions
  distinct : ∀ g g' field, m.localNames.idxOf? g = some field → m.localNames.idxOf? g' = some field → g = g'
  kernels : ∃ ks ks', m.kernelInfos = some ks ∧ m'.kernelInfos = some ks' ∧
    List.Forall₂ (fun k k' => k'.name = k ∧ k' ∈ m'.functions.map Function.fn) ks ks'

end Module

/-! ## Operands -/

theorem exists_mem_append {gs L L' : List String} (h : ¬ ∃ g ∈ gs, g ∈ L) :
    (∃ g ∈ gs, g ∈ L ++ L') ↔ ∃ g ∈ gs, g ∈ L' := by
  constructor
  · rintro ⟨g, hg, hL⟩
    exact ⟨g, hg, (List.mem_append.1 hL).resolve_left fun hL => h ⟨g, hg, hL⟩⟩
  · rintro ⟨g, hg, hL⟩
    exact ⟨g, hg, List.mem_append_right _ hL⟩

namespace Value

variable {L L' : List String} {v : Value}

theorem globals_expand (L : List String) (v : Value) : (v.expand L).globals = v.globals := by
  induction v with
  | constantExpr op vs ih =>
    rw [expand]
    split
    · simp only [globals, ih]
    · rfl
  | inserted op vs ih => simp only [expand, globals, ih]
  | structGEP ptr field ih => rw [expand, globals, ih, globals]
  | endOf block v ih => rw [expand, globals, ih, globals]
  | _ => rfl

theorem expand_of_disjoint (h : ∀ g ∈ v.globals, g ∉ L) : v.expand L = v := by
  induction v with
  | constantExpr op vs ih => exact if_neg fun ⟨g, hg, hL⟩ => h g hg hL
  | inserted op vs ih =>
    rw [expand]
    congr
    funext i
    exact ih i fun g hg => h g (List.mem_flatMap.2 ⟨i, List.mem_finRange i, hg⟩)
  | structGEP ptr field ih => rw [expand, ih h]
  | endOf block v ih => rw [expand, ih h]
  | _ => rfl

/-- Variables can be expanded one after the other. -/
theorem expand_expand (L L' : List String) (v : Value) : (v.expand L).expand L' = v.expand (L ++ L') := by
  induction v with
  | constantExpr op vs ih =>
    by_cases hL : ∃ g ∈ (constantExpr op vs).globals, g ∈ L
    · obtain ⟨g, hg, hgL⟩ := hL
      rw [expand, if_pos ⟨g, hg, hgL⟩, expand, expand, if_pos ⟨g, hg, List.mem_append_left _ hgL⟩]
      simp only [ih]
    · have hdisjoint : ∀ i, (vs i).expand L = vs i := fun i => expand_of_disjoint fun g hg hgL =>
        hL ⟨g, List.mem_flatMap.2 ⟨i, List.mem_finRange i, hg⟩, hgL⟩
      rw [expand, if_neg hL, expand, expand]
      simp only [← ih, hdisjoint, exists_mem_append hL]
  | inserted op vs ih => simp only [expand, ih]
  | structGEP ptr field ih => rw [expand, expand, expand, ih]
  | endOf block v ih => rw [expand, expand, expand, ih]
  | _ => rfl

theorem replaceUses_of_disjoint {hiddenArg : Value} (h : ∀ g ∈ v.globals, g ∉ L) : replaceUses L hiddenArg v = v := by
  induction v with
  | global g =>
    have hnone : L.idxOf? g = none := List.idxOf?_eq_none_iff.2 (h g List.mem_cons_self)
    rw [replaceUses, hnone]
  | inserted op vs ih =>
    rw [replaceUses]
    congr
    funext i
    exact ih i fun g hg => h g (List.mem_flatMap.2 ⟨i, List.mem_finRange i, hg⟩)
  | structGEP ptr field ih => rw [replaceUses, ih h]
  | endOf block v ih => rw [replaceUses, ih h]
  | _ => rfl

/-- The two steps of the pass together. -/
theorem replaceUses_expand (L : List String) (hiddenArg v : Value) :
    replaceUses L hiddenArg (v.expand L) = translated L hiddenArg v := by
  induction v with
  | constantExpr op vs ih =>
    rw [expand, translated]
    split
    · simp only [replaceUses, ih]
    · rfl
  | inserted op vs ih => simp only [expand, replaceUses, translated, ih]
  | structGEP ptr field ih => rw [expand, replaceUses, translated, ih]
  | endOf block v ih => rw [expand, replaceUses, translated, ih]
  | _ => rfl

theorem translated_of_disjoint {hiddenArg : Value} (h : ∀ g ∈ v.globals, g ∉ L) : translated L hiddenArg v = v := by
  rw [← replaceUses_expand, expand_of_disjoint h, replaceUses_of_disjoint h]

/-- The variables are gone, and nothing else is. -/
theorem mem_globals_translated {hiddenArg : Value} (hhidden : hiddenArg.globals = []) {g : String} :
    g ∈ (translated L hiddenArg v).globals ↔ g ∈ v.globals ∧ g ∉ L := by
  induction v with
  | global x =>
    rw [translated]
    cases hx : L.idxOf? x with
    | none =>
      rw [List.idxOf?_eq_none_iff] at hx
      refine ⟨fun hg => ⟨hg, ?_⟩, And.left⟩
      rwa [List.mem_singleton.1 hg]
    | some field =>
      have hmem : x ∈ L := by
        rw [← List.isSome_idxOf?, hx]
        rfl
      refine ⟨fun hg => ?_, fun ⟨hg, hnot⟩ => absurd ?_ hnot⟩
      · rw [globals, hhidden] at hg
        cases hg
      · rwa [List.mem_singleton.1 hg]
  | constantExpr op vs ih =>
    rw [translated]
    split
    · simp only [globals, List.mem_flatMap, ih]
      exact ⟨fun ⟨i, hi, hg, hnot⟩ => ⟨⟨i, hi, hg⟩, hnot⟩, fun ⟨⟨i, hi, hg⟩, hnot⟩ => ⟨i, hi, hg, hnot⟩⟩
    · rename_i hnone
      exact ⟨fun hg => ⟨hg, fun hL => hnone ⟨g, hg, hL⟩⟩, And.left⟩
  | inserted op vs ih =>
    simp only [translated, globals, List.mem_flatMap, ih]
    exact ⟨fun ⟨i, hi, hg, hnot⟩ => ⟨⟨i, hi, hg⟩, hnot⟩, fun ⟨⟨i, hi, hg⟩, hnot⟩ => ⟨i, hi, hg, hnot⟩⟩
  | structGEP ptr field ih => rw [translated, globals, globals, ih]
  | endOf block v ih => rw [translated, globals, globals, ih]
  | _ => exact ⟨nofun, fun h => h.1⟩

end Value

section Instructions
variable {ρ : Type} {L L' : List String}

theorem expandIncoming_fst (L : List String) (e : String × Value) : (expandIncoming L e).1 = e.1 := by
  obtain ⟨block, v⟩ := e
  cases v with
  | constantExpr op vs =>
    rw [expandIncoming]
    split <;> rfl
  | _ => rfl

theorem globals_expandIncoming (L : List String) (e : String × Value) :
    (expandIncoming L e).2.globals = e.2.globals := by
  obtain ⟨block, v⟩ := e
  cases v with
  | constantExpr op vs =>
    rw [expandIncoming]
    split
    · exact Value.globals_expand L _
    · rfl
  | _ => exact Value.globals_expand L _

theorem expandIncoming_of_disjoint {e : String × Value} (h : ∀ g ∈ e.2.globals, g ∉ L) : expandIncoming L e = e := by
  obtain ⟨block, v⟩ := e
  cases v with
  | constantExpr op vs => exact if_neg fun ⟨g, hg, hL⟩ => h g hg hL
  | _ => exact congrArg (Prod.mk block) (Value.expand_of_disjoint h)

theorem expandIncoming_expandIncoming (L L' : List String) (e : String × Value) :
    expandIncoming L' (expandIncoming L e) = expandIncoming (L ++ L') e := by
  obtain ⟨block, v⟩ := e
  cases v with
  | constantExpr op vs =>
    by_cases hL : ∃ g ∈ (Value.constantExpr op vs).globals, g ∈ L
    · obtain ⟨g, hg, hgL⟩ := hL
      have hfirst : expandIncoming L (block, .constantExpr op vs) =
          (block, .endOf block ((Value.constantExpr op vs).expand L)) := if_pos ⟨g, hg, hgL⟩
      have hboth : expandIncoming (L ++ L') (block, .constantExpr op vs) =
          (block, .endOf block ((Value.constantExpr op vs).expand (L ++ L'))) :=
        if_pos ⟨g, hg, List.mem_append_left _ hgL⟩
      rw [hfirst, hboth, ← Value.expand_expand]
      rfl
    · rw [expandIncoming_of_disjoint fun g hg hgL => hL ⟨g, hg, hgL⟩]
      rw [expandIncoming, expandIncoming]
      simp only [exists_mem_append hL]
      rw [← Value.expand_expand, Value.expand_of_disjoint fun g hg hgL => hL ⟨g, hg, hgL⟩]
  | inserted op vs => exact congrArg (Prod.mk block) (Value.expand_expand L L' (.inserted op vs))
  | structGEP ptr field => exact congrArg (Prod.mk block) (Value.expand_expand L L' (.structGEP ptr field))
  | endOf label v => exact congrArg (Prod.mk block) (Value.expand_expand L L' (.endOf label v))
  | _ => rfl

namespace Instruction

theorem globals_expand (L : List String) (i : Instruction ρ) : (i.expand L).globals = i.globals := by
  cases i with
  | phi incoming =>
    simp only [expand, globals, operands, List.flatMap_map, globals_expandIncoming]
  | _ => simp only [expand, globals, operands, List.flatMap_map, Value.globals_expand]

theorem calls_expand [DecidableEq ρ] (L : List String) (i : Instruction ρ) (callee : ρ) :
    (i.expand L).calls callee = i.calls callee := by
  cases i <;> rfl

theorem expand_of_disjoint {i : Instruction ρ} (h : ∀ g ∈ i.globals, g ∉ L) : i.expand L = i := by
  have hdisjoint : ∀ v ∈ i.operands, ∀ g ∈ v.globals, g ∉ L := fun v hv g hg => h g (List.mem_flatMap.2 ⟨v, hv, hg⟩)
  cases i with
  | call callee args =>
    exact congrArg (call callee) ((List.map_congr_left fun v hv => Value.expand_of_disjoint (hdisjoint v hv)).trans args.map_id)
  | phi incoming =>
    exact congrArg phi ((List.map_congr_left fun e he => expandIncoming_of_disjoint
      (hdisjoint e.2 (List.mem_map_of_mem he))).trans incoming.map_id)
  | other opcode operands =>
    have hoperands := List.map_congr_left fun v hv => Value.expand_of_disjoint (hdisjoint v hv)
    exact congrArg (other opcode) (hoperands.trans operands.map_id)

theorem expand_expand (L L' : List String) (i : Instruction ρ) : (i.expand L).expand L' = i.expand (L ++ L') := by
  cases i with
  | phi incoming =>
    simp only [expand, List.map_map, Function.comp_def, expandIncoming_expandIncoming]
  | _ => simp only [expand, List.map_map, Function.comp_def, Value.expand_expand]

end Instruction

end Instructions

/-! ## The functions to modify -/

def Instruction.uses (i : Instruction String) : Node → Prop
  | .global g => g ∈ i.globals
  | .function callee => i.calls callee = true

namespace Module

variable {m : Module String} {L : List String}

/-- All the variables expanded. -/
def expanded (m : Module String) (L : List String) : Module String :=
  { m with functions := m.functions.map (Function.mapBody id (Instruction.expand L)) }

theorem foldl_expandConstantExprUsersOf (m : Module String) (L : List String) :
    L.foldl expandConstantExprUsersOf m = m.expanded L := by
  induction L generalizing m with
  | nil =>
    have hself : ∀ f ∈ m.functions, Function.mapBody id (Instruction.expand []) f = id f := fun f _ => by
      rw [Function.mapBody, List.map_congr_left fun i _ => Instruction.expand_of_disjoint fun _ _ => List.not_mem_nil,
        List.map_id']
      rfl
    rw [List.foldl_nil, expanded, List.map_congr_left hself, List.map_id]
  | cons g L ih =>
    have hboth : ∀ f : Function String, Function.mapBody id (Instruction.expand L)
        (f.mapBody id (Instruction.expand [g])) = f.mapBody id (Instruction.expand (g :: L)) := fun f => by
      simp only [Function.mapBody, List.map_map, Function.comp_def, id, Instruction.expand_expand, List.singleton_append]
    rw [List.foldl_cons, ih, expanded, expandConstantExprUsersOf, List.map_map]
    exact congrArg (fun φ => { m with functions := m.functions.map φ }) (funext hboth)

theorem mem_users {a b : Node} :
    b ∈ m.users a ↔ ∃ f ∈ m.functions, ∃ i ∈ f.body, i.uses a ∧ b = .function f.fn := by
  cases a <;> simp only [users, Instruction.uses, List.mem_flatMap, List.mem_map, List.mem_filter, decide_eq_true_eq,
    and_assoc, @eq_comm _ b]

theorem users_expanded (m : Module String) (L : List String) : (m.expanded L).users = m.users := by
  funext a
  cases a <;> simp [users, expanded, Function.mapBody, List.flatMap_map, List.filter_map, Function.comp_def,
    Instruction.globals_expand, Instruction.calls_expand]

theorem functionsToModify_expanded (m : Module String) (L L' : List String) :
    (m.expanded L).functionsToModify L' = m.functionsToModify L' := by
  have hnodes : (m.expanded L).nodes = m.nodes := by
    simp [nodes, expanded, Function.mapBody, Function.comp_def]
  rw [functionsToModify, users_expanded, hnodes]
  rfl

theorem calls_iff {i : Instruction String} {callee : String} :
    i.calls callee = true ↔ ∃ args, i = .call callee args := by
  cases i with
  | call callee' args =>
    simp only [Instruction.calls, decide_eq_true_eq, Instruction.call.injEq]
    exact ⟨fun h => ⟨args, h, rfl⟩, fun ⟨_, h, _⟩ => h⟩
  | _ => exact ⟨nofun, nofun⟩

/-- What is reached from a variable on the work list is the variable itself, and functions that need it. -/
theorem needs_of_reaches {g : String} (hg : g ∈ L) {b : Node} (h : Worklist.Reaches m.users (.global g) b) :
    b = .global g ∨ ∃ name, b = .function name ∧ m.Needs L name := by
  induction h with
  | refl => exact .inl rfl
  | tail _ hstep ih =>
    obtain ⟨f, hf, i, hi, huses, rfl⟩ := mem_users.1 hstep
    refine .inr ⟨f.fn, rfl, ?_⟩
    rcases ih with rfl | ⟨callee, rfl, hneeds⟩
    · exact .uses hf hi huses hg
    · obtain ⟨args, rfl⟩ := calls_iff.1 huses
      exact .calls hf hi hneeds

theorem reaches_of_needs {name : String} (h : m.Needs L name) :
    ∃ g ∈ L, Worklist.Reaches m.users (.global g) (.function name) := by
  induction h with
  | uses hf hi huses hg => exact ⟨_, hg, .single (mem_users.2 ⟨_, hf, _, hi, huses, rfl⟩)⟩
  | calls hf hi _ ih =>
    obtain ⟨g, hg, hpath⟩ := ih
    exact ⟨g, hg, hpath.tail (mem_users.2 ⟨_, hf, _, hi, calls_iff.2 ⟨_, rfl⟩, rfl⟩)⟩

/-- The loop finds the functions that need the variables. -/
theorem mem_functionsToModify {fns : List String} (h : m.functionsToModify L = some fns) (name : String) :
    name ∈ fns ↔ m.Needs L name := by
  obtain ⟨nodes, hnodes, rfl⟩ := Option.map_eq_some_iff.1 h
  have hfunction : ∀ b : Node, b.function? = some name ↔ b = .function name := fun b => by
    cases b <;> simp [Node.function?]
  simp only [List.mem_filterMap, hfunction, exists_eq_right, Worklist.mem_run hnodes, List.mem_reverse, List.mem_map]
  constructor
  · rintro ⟨_, ⟨g, hg, rfl⟩, hpath⟩
    rcases needs_of_reaches hg hpath with hglobal | ⟨name', hname, hneeds⟩
    · cases hglobal
    · cases hname
      exact hneeds
  · intro hneeds
    obtain ⟨g, hg, hpath⟩ := reaches_of_needs hneeds
    exact ⟨_, ⟨g, hg, rfl⟩, hpath⟩

/-- The loop comes to an end. -/
theorem functionsToModify_isSome (hL : ∀ g ∈ L, g ∈ m.globals.map (·.name)) : ∃ fns, m.functionsToModify L = some fns := by
  have hnext : ∀ a ∈ m.nodes, ∀ b ∈ m.users a, b ∈ m.nodes := by
    intro a _ b hb
    obtain ⟨f, hf, _, _, _, rfl⟩ := mem_users.1 hb
    exact List.mem_append_right _ (List.mem_map_of_mem hf)
  have hwork : ∀ a ∈ (L.map Node.global).reverse, a ∈ m.nodes := by
    intro a ha
    obtain ⟨g, hg, rfl⟩ := List.mem_map.1 (List.mem_reverse.1 ha)
    obtain ⟨gv, hgv, rfl⟩ := List.mem_map.1 (hL g hg)
    exact List.mem_append_left _ (List.mem_map_of_mem hgv)
  obtain ⟨out, hout⟩ := Worklist.run_isSome hnext hwork (le_refl (Worklist.turns m.users m.nodes _))
  exact ⟨_, Option.map_eq_some_iff.2 ⟨out, hout, rfl⟩⟩

end Module

/-! ## When the pass does so -/

def Value.isInserted : Value → Bool
  | inserted _ _ | structGEP _ _ | endOf _ _ => true
  | _ => false

namespace Module

/-- What holds of a module that has been verified; functions with variable arguments are only declared. -/
structure WellFormed (m : Module String) : Prop where
  functions : (m.functions.map (·.fn)).Nodup
  globals : (m.globals.map (·.name)).Nodup
  arguments : ∀ f ∈ m.functions, ∀ i ∈ f.body, ∀ g ∈ m.functions, i.calls g.fn = true → g.isDeclaration = false →
    i.operands.length = g.params.length
  operands : ∀ f ∈ m.functions, ∀ i ∈ f.body, ∀ v ∈ i.operands, v.isInserted = false

/-- No kernel is listed in SPIR metadata, the variables are not constants, no function that needs them is called, and no
PHI node has the address of one. -/
structure Handled (m : Module String) : Prop where
  listed : m.spir = true → m.kernels = some []
  constants : ∀ gv ∈ m.globals, m.isAutomaticLocal gv = true → gv.isConstant = false
  calls : ∀ f ∈ m.functions, ∀ callee args, .call callee args ∈ f.body → ¬ m.Needs m.localNames callee
  phis : ∀ f ∈ m.functions, ∀ incoming, .phi incoming ∈ f.body → ∀ e ∈ incoming, ∀ g ∈ m.localNames, e.2 ≠ .global g

section Rewriting
variable {m : Module String} {L F fns : List String} {n : Nat} {i : Instruction String}

theorem translatedIncoming_of_disjoint {e : String × Value} {h : Value} (hdisjoint : ∀ g ∈ e.2.globals, g ∉ L) :
    translatedIncoming L h e = e :=
  if_neg fun ⟨g, hg, hL⟩ => hdisjoint g hg hL

/-- An instruction that the variables have nothing to do with can stay as it is. -/
theorem instructionOf_unchanged (hdisjoint : ∀ g ∈ i.globals, g ∉ L)
    (hcalls : ∀ callee args, i = .call callee args → ¬ m.Needs L callee) :
    m.InstructionOf L n i (i.withCallee .original) := by
  have hoperand : ∀ v ∈ i.operands, Value.translated L (.argument n) v = v := fun v hv =>
    Value.translated_of_disjoint fun g hg => hdisjoint g (List.mem_flatMap.2 ⟨v, hv, hg⟩)
  cases i with
  | call callee args =>
    have hargs : args.map (Value.translated L (.argument n)) = args := (List.map_congr_left hoperand).trans args.map_id
    have hcall := InstructionOf.call (n := n) args (hcalls callee args rfl)
    rwa [hargs] at hcall
  | phi incoming =>
    have hincoming : incoming.map (translatedIncoming L (.argument n)) = incoming :=
      (List.map_congr_left fun e he => translatedIncoming_of_disjoint fun g hg =>
        hdisjoint g (List.mem_flatMap.2 ⟨e.2, List.mem_map_of_mem he, hg⟩)).trans incoming.map_id
    have hphi : m.InstructionOf L n (.phi incoming) _ := .phi incoming
    rwa [hincoming] at hphi
  | other opcode operands =>
    have hargs : operands.map (Value.translated L (.argument n)) = operands :=
      (List.map_congr_left hoperand).trans operands.map_id
    have hother : m.InstructionOf L n (.other opcode operands) _ := .other opcode operands
    rwa [hargs] at hother

variable (lookup : String → Option (Function FunctionRef)) (caller : Function FunctionRef)

/-- What the pass makes of an instruction. -/
def rewriteInstruction (L : List String) (i : Instruction String) : Instruction FunctionRef :=
  (updateCallUsers lookup caller ((i.expand L).withCallee .original)).replaceUses L (.argument (caller.params.length - 1))

variable {lookup caller}

theorem map_replaceUses_expand (L : List String) (h : Value) (vs : List Value) :
    (vs.map (·.expand L)).map (Value.replaceUses L h) = vs.map (Value.translated L h) := by
  rw [List.map_map]
  exact List.map_congr_left fun v _ => Value.replaceUses_expand L h v

theorem rewriteInstruction_call_none {callee : String} (h : lookup callee = none) (args : List Value) :
    rewriteInstruction lookup caller L (.call callee args) =
      .call (.original callee) (args.map (Value.translated L (.argument (caller.params.length - 1)))) := by
  rw [← map_replaceUses_expand]
  simp only [rewriteInstruction, Instruction.expand, Instruction.withCallee, updateCallUsers, h, Instruction.replaceUses]

/-- The argument that is passed on is past the last one of the caller. -/
theorem rewriteInstruction_call_some {callee : String} {newCallee : Function FunctionRef}
    (h : lookup callee = some newCallee) {args : List Value} (hargs : args.length = newCallee.params.length - 1) :
    rewriteInstruction lookup caller L (.call callee args) =
      .call newCallee.fn (args.map (Value.translated L (.argument (caller.params.length - 1))) ++
        [.argument caller.params.length]) := by
  have hlength : (args.map (·.expand L)).length = newCallee.params.length - 1 := by rw [List.length_map, hargs]
  rw [← map_replaceUses_expand]
  simp only [rewriteInstruction, Instruction.expand, Instruction.withCallee, updateCallUsers, h, Instruction.replaceUses,
    ← hlength, List.take_length, List.drop_length, List.map_append]
  rfl

theorem rewriteInstruction_phi (incoming : List (String × Value)) :
    rewriteInstruction lookup caller L (.phi incoming) = .phi (incoming.map fun e =>
      (e.1, Value.replaceUses L (.argument (caller.params.length - 1)) (expandIncoming L e).2)) := by
  simp only [rewriteInstruction, Instruction.expand, Instruction.withCallee, updateCallUsers, Instruction.replaceUses,
    List.map_map, Function.comp_def, expandIncoming_fst]

theorem rewriteInstruction_other (opcode : String) (operands : List Value) :
    rewriteInstruction lookup caller L (.other opcode operands) =
      .other opcode (operands.map (Value.translated L (.argument (caller.params.length - 1)))) := by
  rw [← map_replaceUses_expand]
  rfl

/-- Of a PHI node, where it has not the address of a variable itself. -/
theorem replaceUses_expandIncoming {e : String × Value} (h : Value) (hsource : e.2.isInserted = false)
    (hdirect : ∀ g ∈ L, e.2 ≠ .global g) :
    (e.1, Value.replaceUses L h (expandIncoming L e).2) = translatedIncoming L h e := by
  obtain ⟨block, v⟩ := e
  cases v with
  | global g =>
    have hdisjoint : ∀ x ∈ (Value.global g).globals, x ∉ L := by
      intro x hx hL
      obtain rfl := List.mem_singleton.1 hx
      exact hdirect x hL rfl
    rw [translatedIncoming_of_disjoint hdisjoint, expandIncoming_of_disjoint hdisjoint,
      Value.replaceUses_of_disjoint hdisjoint]
  | constantExpr op vs =>
    rw [expandIncoming, translatedIncoming]
    split
    · rw [Value.replaceUses, Value.replaceUses_expand]
    · rfl
  | inserted | structGEP | endOf => cases hsource
  | argument | result | constant => rfl

/-- Where no function that is called has been regenerated, the instruction is what it should be. -/
theorem instructionOf_rewriteInstruction
    (hoperand : ∀ v ∈ i.operands,
      Value.translated L (.argument (caller.params.length - 1)) v = Value.translated L (.argument n) v)
    (hcalls : ∀ callee args, i = .call callee args → lookup callee = none ∧ ¬ m.Needs L callee)
    (hphis : ∀ incoming, i = .phi incoming → ∀ e ∈ incoming, e.2.isInserted = false ∧ ∀ g ∈ L, e.2 ≠ .global g) :
    m.InstructionOf L n i (rewriteInstruction lookup caller L i) := by
  cases i with
  | call callee args =>
    obtain ⟨hnone, hneeds⟩ := hcalls callee args rfl
    have hargs : args.map (Value.translated L (.argument (caller.params.length - 1))) =
        args.map (Value.translated L (.argument n)) := List.map_congr_left hoperand
    rw [rewriteInstruction_call_none hnone, hargs]
    exact .call args hneeds
  | phi incoming =>
    have hincoming : ∀ e ∈ incoming, (e.1, Value.replaceUses L (.argument (caller.params.length - 1))
        (expandIncoming L e).2) = translatedIncoming L (.argument n) e := by
      intro e he
      obtain ⟨hsource, hdirect⟩ := hphis incoming rfl e he
      rw [replaceUses_expandIncoming _ hsource hdirect, translatedIncoming, translatedIncoming,
        hoperand e.2 (List.mem_map_of_mem he)]
    rw [rewriteInstruction_phi, List.map_congr_left hincoming]
    exact .phi incoming
  | other opcode operands =>
    have hargs : operands.map (Value.translated L (.argument (caller.params.length - 1))) =
        operands.map (Value.translated L (.argument n)) := List.map_congr_left hoperand
    rw [rewriteInstruction_other, hargs]
    exact .other opcode operands

theorem Needs.function {name : String} (h : m.Needs L name) :
    ∃ f ∈ m.functions, f.fn = name ∧ f.isDeclaration = false := by
  have hbody : ∀ {f : Function String} {j : Instruction String}, j ∈ f.body → f.isDeclaration = false := fun hj =>
    List.isEmpty_eq_false_iff.2 (List.ne_nil_of_mem hj)
  cases h with
  | uses hf hi => exact ⟨_, hf, rfl, hbody hi⟩
  | calls hf hi => exact ⟨_, hf, rfl, hbody hi⟩

theorem eq_of_fn_eq (h : m.WellFormed) {f g : Function String} (hf : f ∈ m.functions) (hg : g ∈ m.functions)
    (hfn : f.fn = g.fn) : f = g :=
  List.inj_on_of_nodup_map h.functions hf hg hfn

theorem lookup_of_notMem {name : String} (h : name ∉ fns) : m.lookup F fns name = none := if_neg h

theorem lookup_of_mem {f : Function String} (h : m.WellFormed) (hf : f ∈ m.functions) (hmem : f.fn ∈ fns) :
    (m.expanded L).lookup F fns f.fn =
      some (regenerateFunction m.spir F (f.mapBody id (Instruction.expand L))) := by
  have hfind : m.functions.find? (fun g => decide (g.fn = f.fn)) = some f := by
    cases hg : m.functions.find? fun g => decide (g.fn = f.fn) with
    | none => exact absurd (decide_eq_true rfl) (List.find?_eq_none.1 hg f hf)
    | some g =>
      have hfn : g.fn = f.fn := by simpa using List.find?_some hg
      rw [eq_of_fn_eq h (List.mem_of_find?_eq_some hg) hf hfn]
  rw [lookup, if_pos hmem, expanded, List.find?_map]
  exact congrArg (Option.map _) (congrArg (Option.map _) hfind)

section Functions
variable {f : Function String}

theorem rewrite_of_mem (h : f.fn ∈ fns) :
    (m.expanded L).rewrite L F fns (f.mapBody id (Instruction.expand L)) =
      { regenerateFunction m.spir F f with
        body := f.body.map (rewriteInstruction ((m.expanded L).lookup F fns)
          (regenerateFunction m.spir F (f.mapBody id (Instruction.expand L))) L) } := by
  have hfn : (f.mapBody id (Instruction.expand L)).fn ∈ fns := h
  simp only [rewrite, if_pos hfn]
  simp only [Function.mapBody, regenerateFunction, List.map_map, id]
  rfl

theorem rewrite_of_notMem (h : f.fn ∉ fns) :
    (m.expanded L).rewrite L F fns (f.mapBody id (Instruction.expand L)) =
      { f.mapBody .original (·.withCallee .original) with
        body := f.body.map (rewriteInstruction ((m.expanded L).lookup F fns)
          ((f.mapBody id (Instruction.expand L)).mapBody .original (·.withCallee .original)) L) } := by
  have hfn : (f.mapBody id (Instruction.expand L)).fn ∉ fns := h
  simp only [rewrite, if_neg hfn]
  simp only [Function.mapBody, List.map_map, id]
  rfl

theorem functionOf_rewrite (h : m.WellFormed) (hfns : ∀ name, name ∈ fns ↔ m.Needs L name)
    (hcalls : ∀ f ∈ m.functions, ∀ callee args, .call callee args ∈ f.body → ¬ m.Needs L callee)
    (hphis : ∀ f ∈ m.functions, ∀ incoming, .phi incoming ∈ f.body → ∀ e ∈ incoming, ∀ g ∈ L, e.2 ≠ .global g)
    (hf : f ∈ m.functions) :
    m.FunctionOf L F f ((m.expanded L).rewrite L F fns (f.mapBody id (Instruction.expand L))) := by
  have hcalls' : ∀ i ∈ f.body, ∀ callee args, i = .call callee args →
      (m.expanded L).lookup F fns callee = none ∧ ¬ m.Needs L callee := by
    rintro _ hi callee args rfl
    have hnot := hcalls f hf callee args hi
    exact ⟨lookup_of_notMem fun hmem => hnot ((hfns callee).1 hmem), hnot⟩
  have hphis' : ∀ i ∈ f.body, ∀ incoming, i = .phi incoming → ∀ e ∈ incoming,
      e.2.isInserted = false ∧ ∀ g ∈ L, e.2 ≠ .global g := by
    rintro _ hi incoming rfl e he
    exact ⟨h.operands f hf _ hi e.2 (List.mem_map_of_mem he), hphis f hf incoming hi e he⟩
  by_cases hmem : f.fn ∈ fns
  · rw [rewrite_of_mem hmem]
    refine ⟨rfl, fun _ => rfl, fun hnot => absurd ((hfns f.fn).1 hmem) hnot, ?_, rfl, fun hspir => ?_⟩
    · rw [List.forall₂_map_right_iff, List.forall₂_same]
      refine fun i hi => instructionOf_rewriteInstruction (fun v _ => ?_) (hcalls' i hi) (hphis' i hi)
      have hlast : (f.params ++ [Param.automaticLocals F]).length - 1 = f.params.length := by simp
      exact congrArg (fun k => Value.translated L (.argument k) v) hlast
    · simp [regenerateFunction, hspir]
  · rw [rewrite_of_notMem hmem]
    have hneeds : ¬ m.Needs L f.fn := fun hneeds => hmem ((hfns f.fn).2 hneeds)
    refine ⟨rfl, fun hneeds' => absurd hneeds' hneeds, fun _ => rfl, ?_, rfl, fun _ => ⟨rfl, rfl, rfl⟩⟩
    rw [List.forall₂_map_right_iff, List.forall₂_same]
    refine fun i hi => instructionOf_rewriteInstruction (fun v hv => ?_) (hcalls' i hi) (hphis' i hi)
    have hdisjoint : ∀ g ∈ v.globals, g ∉ L := fun g hg hL =>
      hneeds (.uses hf hi (List.mem_flatMap.2 ⟨v, hv, hg⟩) hL)
    rw [Value.translated_of_disjoint hdisjoint, Value.translated_of_disjoint hdisjoint]

theorem FunctionOf.isKernel {f' : Function FunctionRef} (h : m.FunctionOf L F f f') (hspir : m.spir = false) :
    f'.isKernel = f.isKernel := by
  have hbody : f'.isDeclaration = f.isDeclaration := by
    rw [Function.isDeclaration, Function.isDeclaration, Bool.eq_iff_iff, List.isEmpty_iff_length_eq_zero,
      List.isEmpty_iff_length_eq_zero, h.body.length_eq]
  rw [Function.isKernel, Function.isKernel, hbody, (h.kept hspir).1]

end Functions

/-- The result in functions, one for one, and the kernels that are listed with them. -/
theorem translated_of_functionOf {m' : Module FunctionRef} {ψ : Function String → Function FunctionRef}
    (hspir : m'.spir = m.spir) (hfunctions : m'.functions = m.functions.map ψ)
    (hkernels : m.spir = true → m.kernels = some [] ∧ m'.kernels = some [])
    (hψ : ∀ f ∈ m.functions, m.FunctionOf m.localNames (m.locals.map (·.type)) f (ψ f))
    (hneeds : ∀ f ∈ m.functions, (ψ f).fn = .regenerated f.fn ↔ m.Needs m.localNames f.fn) : m.Translated m' := by
  refine ⟨fun name => ?_, ?_, fun g g' field hg hg' => ?_, ?_⟩
  · rw [hfunctions, List.map_map, List.mem_map]
    constructor
    · rintro ⟨f, hf, hfn⟩
      have hname : f.fn = name := (hψ f hf).name.symm.trans (congrArg FunctionRef.name hfn)
      exact hname ▸ (hneeds f hf).1 (hname ▸ hfn)
    · intro h
      obtain ⟨f, hf, rfl, -⟩ := h.function
      exact ⟨f, hf, (hneeds f hf).2 h⟩
  · rw [hfunctions, List.forall₂_map_right_iff, List.forall₂_same]
    exact hψ
  · obtain ⟨_, hfirst, -⟩ := List.idxOf?_eq_some_iff.1 hg
    obtain ⟨_, hsecond, -⟩ := List.idxOf?_eq_some_iff.1 hg'
    rw [← hfirst, hsecond]
  · cases hs : m.spir with
    | true =>
      obtain ⟨hempty, hempty'⟩ := hkernels hs
      refine ⟨[], [], ?_, ?_, .nil⟩
      · rw [kernelInfos, hs, hempty]
        rfl
      · rw [kernelInfos, hspir, hs, hempty']
        rfl
    | false =>
      refine ⟨_, _, if_neg (by simp [hs]), if_neg (by simp [hspir, hs]), ?_⟩
      have hfilter : (m.functions.map ψ).filter (·.isKernel) = (m.functions.filter (·.isKernel)).map ψ := by
        rw [List.filter_map]
        congr 1
        exact List.filter_congr fun f hf => (hψ f hf).isKernel hs
      rw [hfunctions, hfilter, List.forall₂_map_right_iff, List.forall₂_map_right_iff, List.forall₂_map_left_iff,
        List.forall₂_same]
      intro f hf
      have hmem := (List.mem_filter.1 hf).1
      refine ⟨(hψ f hmem).name, ?_⟩
      rw [List.map_map]
      exact List.mem_map_of_mem hmem

/-- What the pass makes of a module with variables. -/
def resultOf (m : Module String) (L F fns : List String) : Module FunctionRef where
  spir := m.spir
  globals := m.globals.filter fun gv => !m.isAutomaticLocal gv
  functions := m.functions.map fun f => (m.expanded L).rewrite L F fns (f.mapBody id (Instruction.expand L))
  kernels := m.kernels.map (List.map .original)

/-- With SPIR metadata no variable is found to be one of a kernel. -/
theorem spir_of_ne (hne : m.automaticLocals ≠ []) : m.spir = false := by
  refine Bool.eq_false_iff.2 fun hspir => hne (List.filter_eq_nil_iff.2 fun gv _ => ?_)
  have hnone : m.kernelInfos.getD [] = [] := by
    rw [kernelInfos, if_pos hspir]
    split <;> rfl
  rw [isAutomaticLocal, hnone]
  cases candidateKernel gv.name <;> simp

/-- The pass comes to an end. -/
theorem runOnModule_eq_some (hne : m.automaticLocals ≠ []) :
    ∃ fns, (∀ name, name ∈ fns ↔ m.Needs (m.automaticLocals.map (·.name)) name) ∧
      m.runOnModule = some (m.resultOf (m.automaticLocals.map (·.name)) (m.automaticLocals.map (·.type)) fns) := by
  have hnames : ∀ g ∈ m.automaticLocals.map (·.name), g ∈ m.globals.map (·.name) := fun g hg => by
    obtain ⟨gv, hgv, rfl⟩ := List.mem_map.1 hg
    exact List.mem_map_of_mem (List.mem_filter.1 hgv).1
  obtain ⟨fns, hsome⟩ := functionsToModify_isSome hnames
  have hspir := spir_of_ne hne
  have hinfos : m.kernelInfos.isNone = false := by
    rw [kernelInfos, hspir]
    rfl
  have hfunctions : ∀ L F : List String, (m.expanded L).functions.map ((m.expanded L).rewrite L F fns) =
      m.functions.map fun f => (m.expanded L).rewrite L F fns (f.mapBody id (Instruction.expand L)) :=
    fun _ _ => List.map_map
  refine ⟨fns, mem_functionsToModify hsome, ?_⟩
  simp only [runOnModule, hinfos, if_neg hne, foldl_expandConstantExprUsersOf, functionsToModify_expanded, hsome,
    Option.bind_eq_bind, Option.bind_some, hfunctions, resultOf, hspir, Bool.false_eq_true, if_false]

/-! What the result says about the module. -/

theorem InstructionOf.call_inv {callee : String} {args : List Value} {j : Instruction FunctionRef}
    (h : m.InstructionOf L n (.call callee args) j) (hneeds : m.Needs L callee) :
    j = .call (.regenerated callee) (args.map (Value.translated L (.argument n)) ++ [.argument n]) := by
  cases h with
  | call _ hnot => exact absurd hneeds hnot
  | callRewritten => rfl

theorem InstructionOf.phi_inv {incoming : List (String × Value)} {j : Instruction FunctionRef}
    (h : m.InstructionOf L n (.phi incoming) j) : j = .phi (incoming.map (translatedIncoming L (.argument n))) := by
  cases h with
  | phi => rfl

/-- Other variables are still used. -/
theorem InstructionOf.globals {j : Instruction FunctionRef} (h : m.InstructionOf L n i j) {g : String}
    (hg : g ∈ i.globals) (hL : g ∉ L) : g ∈ j.globals := by
  obtain ⟨v, hv, hgv⟩ := List.mem_flatMap.1 hg
  have htranslated : g ∈ (Value.translated L (.argument n) v).globals := (Value.mem_globals_translated rfl).2 ⟨hgv, hL⟩
  cases h with
  | call args => exact List.mem_flatMap.2 ⟨_, List.mem_map_of_mem hv, htranslated⟩
  | callRewritten args =>
    exact List.mem_flatMap.2 ⟨_, List.mem_append_left _ (List.mem_map_of_mem hv), htranslated⟩
  | phi incoming =>
    obtain ⟨e, he, rfl⟩ := List.mem_map.1 hv
    refine List.mem_flatMap.2 ⟨_, List.mem_map_of_mem (List.mem_map_of_mem he), ?_⟩
    unfold translatedIncoming
    split
    · exact htranslated
    · exact hgv
  | other opcode operands => exact List.mem_flatMap.2 ⟨_, List.mem_map_of_mem hv, htranslated⟩

/-- The variables of the pass are not used afterwards. -/
theorem globals_rewriteInstruction {g : String} (hg : g ∈ L) : g ∉ (rewriteInstruction lookup caller L i).globals := by
  have htranslated : ∀ k v, g ∉ (Value.translated L (.argument k) v).globals := fun k v h =>
    ((Value.mem_globals_translated rfl).1 h).2 hg
  have hexpanded : ∀ k v, g ∉ (Value.replaceUses L (.argument k) (Value.expand L v)).globals := fun k v => by
    rw [Value.replaceUses_expand]
    exact htranslated k v
  intro h
  obtain ⟨x, hx, hgx⟩ := List.mem_flatMap.1 h
  cases i with
  | call callee args =>
    cases hl : lookup callee with
    | none =>
      rw [rewriteInstruction_call_none hl] at hx
      obtain ⟨v, -, rfl⟩ := List.mem_map.1 hx
      exact htranslated _ v hgx
    | some newCallee =>
      simp only [rewriteInstruction, Instruction.expand, Instruction.withCallee, updateCallUsers, hl,
        Instruction.replaceUses, Instruction.operands, List.mem_map] at hx
      obtain ⟨y, hy, rfl⟩ := hx
      -- The hidden argument stands among the arguments from before, wherever it is put.
      have harg : y ∈ args.map (·.expand L) ∨ y = .argument caller.params.length := by
        rcases List.mem_append.1 hy with hy | hy
        · exact .inl (List.mem_of_mem_take hy)
        · rcases List.mem_cons.1 hy with rfl | hy
          · exact .inr rfl
          · exact .inl (List.mem_of_mem_drop hy)
      rcases harg with hy | rfl
      · obtain ⟨v, -, rfl⟩ := List.mem_map.1 hy
        exact hexpanded _ v hgx
      · cases hgx
  | phi incoming =>
    rw [rewriteInstruction_phi] at hx
    obtain ⟨_, he', rfl⟩ := List.mem_map.1 hx
    obtain ⟨⟨block, v⟩, -, rfl⟩ := List.mem_map.1 he'
    cases v with
    | constantExpr op vs =>
      rw [expandIncoming] at hgx
      split at hgx
      · exact hexpanded _ _ hgx
      -- An expression that is left alone uses none of the variables.
      · rename_i hnone
        exact hnone ⟨g, hgx, hg⟩
    | _ => exact hexpanded _ _ hgx
  | other opcode operands =>
    rw [rewriteInstruction_other] at hx
    obtain ⟨v, -, rfl⟩ := List.mem_map.1 hx
    exact htranslated _ v hgx

end Rewriting

section Agreement
variable {m : Module String}

theorem not_needs_nil {name : String} : ¬ m.Needs [] name := by
  intro h
  induction h with
  | uses _ _ _ hg => cases hg
  | calls _ _ _ ih => exact ih

theorem locals_of_nil (hnil : m.automaticLocals = []) : m.locals = [] := by
  rw [locals, hnil]
  rfl

theorem localNames_of_nil (hnil : m.automaticLocals = []) : m.localNames = [] := by
  rw [localNames, locals_of_nil hnil]
  rfl

/-- The kernels can be gone through unless some are listed, or a list is missing. -/
theorem kernelInfos_isNone_iff : m.kernelInfos.isNone = false ↔ (m.spir = true → m.kernels = some []) := by
  unfold kernelInfos
  cases m.spir with
  | false => simp
  | true =>
    match m.kernels with
    | none => simp
    | some [] => simp
    | some (_ :: _) => simp

/-- A module without variables stays as it is. -/
theorem translated_of_nil (hlisted : m.spir = true → m.kernels = some []) (hnil : m.automaticLocals = []) :
    ∃ m', m.runOnModule = some m' ∧ m.Translated m' := by
  have hnames := localNames_of_nil hnil
  have hinfos := kernelInfos_isNone_iff.2 hlisted
  refine ⟨_, (if_neg (by simp [hinfos])).trans (if_pos hnil), translated_of_functionOf rfl rfl ?_ ?_ ?_⟩
  · intro hspir
    rw [hlisted hspir]
    exact ⟨rfl, rfl⟩
  · intro f _
    rw [hnames]
    refine ⟨rfl, fun hneeds => absurd hneeds not_needs_nil, fun _ => rfl, ?_, rfl, fun _ => ⟨rfl, rfl, rfl⟩⟩
    exact List.forall₂_map_right_iff.2 (List.forall₂_same.2 fun i _ =>
      instructionOf_unchanged (fun _ _ => List.not_mem_nil) fun _ _ _ => not_needs_nil)
  · intro f _
    rw [hnames]
    exact iff_of_false nofun not_needs_nil

theorem handled_of_nil (hlisted : m.spir = true → m.kernels = some []) (hnil : m.automaticLocals = []) : m.Handled := by
  have hnames := localNames_of_nil hnil
  refine ⟨hlisted, fun gv hgv hlocal => ?_, fun _ _ _ _ _ => ?_, fun _ _ _ _ _ _ g hg => ?_⟩
  · have hmem : gv ∈ m.automaticLocals := List.mem_filter.2 ⟨hgv, hlocal⟩
    rw [hnil] at hmem
    cases hmem
  · rw [hnames]
    exact not_needs_nil
  · rw [hnames] at hg
    cases hg

theorem locals_eq (h : ∀ gv ∈ m.globals, m.isAutomaticLocal gv = true → gv.isConstant = false) :
    m.locals = m.automaticLocals := by
  refine List.filter_eq_self.2 fun gv hgv => ?_
  obtain ⟨hmem, hlocal⟩ := List.mem_filter.1 hgv
  rw [h gv hmem hlocal]
  rfl

theorem regenerated_iff (L F fns : List String) (f : Function String) :
    ((m.expanded L).rewrite L F fns (f.mapBody id (Instruction.expand L))).fn = .regenerated f.fn ↔ f.fn ∈ fns := by
  by_cases hmem : f.fn ∈ fns
  · rw [rewrite_of_mem hmem]
    exact iff_of_true rfl hmem
  · rw [rewrite_of_notMem hmem]
    exact iff_of_false nofun hmem

theorem translated_of_handled (h : m.WellFormed) (hhandled : m.Handled) {fns : List String}
    (hfns : ∀ name, name ∈ fns ↔ m.Needs m.localNames name) :
    m.Translated (m.resultOf m.localNames (m.locals.map (·.type)) fns) := by
  refine translated_of_functionOf rfl rfl (fun hspir => ?_) (fun f hf => ?_) (fun f _ => ?_)
  · rw [resultOf, hhandled.listed hspir]
    exact ⟨rfl, rfl⟩
  · exact functionOf_rewrite h hfns hhandled.calls hhandled.phis hf
  · exact (regenerated_iff _ _ _ f).trans (hfns f.fn)

section Converse
variable {L F fns : List String}

/-- What the instructions of a function have become. -/
theorem Translated.instructionOf (h : m.Translated (m.resultOf L F fns)) {f : Function String} (hf : f ∈ m.functions)
    (hmem : f.fn ∈ fns) {i : Instruction String} (hi : i ∈ f.body) :
    m.InstructionOf m.localNames f.params.length i (rewriteInstruction ((m.expanded L).lookup F fns)
      (regenerateFunction m.spir F (f.mapBody id (Instruction.expand L))) L i) := by
  have hfunction := List.forall₂_same.1 (List.forall₂_map_right_iff.1 h.functions) f hf
  rw [rewrite_of_mem hmem] at hfunction
  exact List.forall₂_same.1 (List.forall₂_map_right_iff.1 hfunction.body) i hi

/-- A constant would be used still, but is not. -/
theorem Translated.constants (h : m.Translated (m.resultOf (m.automaticLocals.map (·.name)) F fns)) (hwf : m.WellFormed)
    (hfns : ∀ name, name ∈ fns ↔ m.Needs (m.automaticLocals.map (·.name)) name) {gv : GlobalVariable}
    (hgv : gv ∈ m.globals) (hlocal : m.isAutomaticLocal gv = true) : gv.isConstant = false := by
  by_contra hconstant
  rw [Bool.not_eq_false] at hconstant
  have hmem : gv.name ∈ m.automaticLocals.map (·.name) := List.mem_map_of_mem (List.mem_filter.2 ⟨hgv, hlocal⟩)
  have hnot : gv.name ∉ m.localNames := by
    intro hname
    obtain ⟨gv', hgv', heq⟩ := List.mem_map.1 hname
    obtain ⟨hpass, hvariable⟩ := List.mem_filter.1 hgv'
    obtain rfl := List.inj_on_of_nodup_map hwf.globals (List.mem_filter.1 hpass).1 hgv heq
    rw [hconstant] at hvariable
    cases hvariable
  have hused : ∃ f ∈ m.functions, ∃ i ∈ f.body, gv.name ∈ i.globals := by
    simp only [isAutomaticLocal, useEmpty, Bool.and_eq_true, Bool.not_eq_true', List.all_eq_false, List.all_eq_true,
      decide_eq_true_eq, not_forall, not_not] at hlocal
    obtain ⟨⟨-, f, hf, i, hi, hg⟩, -⟩ := hlocal
    exact ⟨f, hf, i, hi, hg⟩
  obtain ⟨f, hf, i, hi, hg⟩ := hused
  have hinstruction := h.instructionOf hf ((hfns f.fn).2 (.uses hf hi hg hmem)) hi
  exact globals_rewriteInstruction hmem (hinstruction.globals hg hnot)

/-- The call would pass the hidden argument on, but what it passes is past it. -/
theorem Translated.calls (h : m.Translated (m.resultOf m.localNames F fns)) (hwf : m.WellFormed)
    (hfns : ∀ name, name ∈ fns ↔ m.Needs m.localNames name) {f : Function String} (hf : f ∈ m.functions)
    {callee : String} {args : List Value} (hcall : .call callee args ∈ f.body) : ¬ m.Needs m.localNames callee := by
  intro hneeds
  obtain ⟨g, hg, rfl, hdefined⟩ := hneeds.function
  have hlength : args.length = g.params.length := hwf.arguments f hf _ hcall g hg (decide_eq_true rfl) hdefined
  have hargs : args.length = (g.params ++ [Param.automaticLocals F]).length - 1 := by
    rw [hlength]
    simp
  have hinstruction := (h.instructionOf hf ((hfns f.fn).2 (.calls hf hcall hneeds)) hcall).call_inv hneeds
  rw [rewriteInstruction_call_some (lookup_of_mem hwf hg ((hfns _).2 hneeds)) hargs] at hinstruction
  have hlast := (List.append_inj' (Instruction.call.inj hinstruction).2 rfl).2
  have hpast : (f.params ++ [Param.automaticLocals F]).length = f.params.length :=
    Value.argument.inj (List.head_eq_of_cons_eq hlast)
  simp at hpast

/-- The field would be computed at the end of the incoming block, but is before the node. -/
theorem Translated.phis (h : m.Translated (m.resultOf m.localNames F fns))
    (hfns : ∀ name, name ∈ fns ↔ m.Needs m.localNames name) {f : Function String} (hf : f ∈ m.functions)
    {incoming : List (String × Value)} (hphi : .phi incoming ∈ f.body) {e : String × Value} (he : e ∈ incoming) {g : String}
    (hg : g ∈ m.localNames) : e.2 ≠ .global g := by
  obtain ⟨block, v⟩ := e
  rintro rfl
  have hmentions : g ∈ (.phi incoming : Instruction String).globals :=
    List.mem_flatMap.2 ⟨_, List.mem_map_of_mem he, List.mem_singleton_self g⟩
  have hinstruction := (h.instructionOf hf ((hfns f.fn).2 (.uses hf hphi hmentions hg)) hphi).phi_inv
  rw [rewriteInstruction_phi] at hinstruction
  have hincoming := List.map_inj_left.1 (Instruction.phi.inj hinstruction) _ he
  rw [translatedIncoming, if_pos ⟨g, List.mem_singleton_self g, hg⟩, Prod.mk.injEq] at hincoming
  obtain ⟨field, hfield⟩ := Option.isSome_iff_exists.1 (List.isSome_idxOf?.2 hg)
  have hdirect : ∀ hiddenArg, Value.replaceUses m.localNames hiddenArg (.global g) = .structGEP hiddenArg field :=
    fun _ => by rw [Value.replaceUses, hfield]
  cases (hdirect _).symm.trans hincoming.2

end Converse

theorem handled_of_translated (h : m.WellFormed) {m' : Module FunctionRef} (hm' : m.runOnModule = some m')
    (htranslated : m.Translated m') : m.Handled := by
  have hlisted : m.spir = true → m.kernels = some [] := by
    refine kernelInfos_isNone_iff.1 (Bool.eq_false_iff.2 fun hnone => ?_)
    rw [runOnModule, if_pos hnone] at hm'
    cases hm'
  by_cases hnil : m.automaticLocals = []
  · exact handled_of_nil hlisted hnil
  obtain ⟨fns, hfns, hrun⟩ := runOnModule_eq_some hnil
  obtain rfl := Option.some.inj (hm'.symm.trans hrun)
  have hconstants : ∀ gv ∈ m.globals, m.isAutomaticLocal gv = true → gv.isConstant = false :=
    fun gv hgv hlocal => htranslated.constants h hfns hgv hlocal
  have hnames : m.automaticLocals.map (·.name) = m.localNames := by rw [localNames, locals_eq hconstants]
  rw [hnames] at htranslated hfns
  exact ⟨hlisted, hconstants, fun f hf callee args => htranslated.calls h hfns hf,
    fun f hf incoming hphi e he g hg => htranslated.phis hfns hf hphi he hg⟩

/-- The pass does what it is for exactly on the modules that it handles. -/
theorem translated_iff (h : m.WellFormed) : (∃ m', m.runOnModule = some m' ∧ m.Translated m') ↔ m.Handled := by
  constructor
  · rintro ⟨m', hm', htranslated⟩
    exact handled_of_translated h hm' htranslated
  · intro hhandled
    by_cases hnil : m.automaticLocals = []
    · exact translated_of_nil hhandled.listed hnil
    obtain ⟨fns, hfns, hrun⟩ := runOnModule_eq_some hnil
    have hlocals := locals_eq hhandled.constants
    have hnames : m.automaticLocals.map (·.name) = m.localNames := by rw [localNames, hlocals]
    rw [hnames, ← hlocals] at hrun
    rw [hnames] at hfns
    exact ⟨_, hrun, translated_of_handled h hhandled hfns⟩

end Agreement

/-- A kernel with an array. -/
def array : Module String where
  spir := false
  globals := [⟨"foo.x", true, false, "[10 x i32]"⟩]
  functions := [⟨"foo", [], "external", .spirKernel, [], [],
    [.call "use" [.constantExpr "getelementptr" ![.global "foo.x", .constant 0, .constant 0]], .other "ret" []]⟩]
  kernels := none

theorem array_translated : (∃ m', array.runOnModule = some m' ∧ array.Translated m') ↔ array.Handled :=
  translated_iff ⟨by decide, by decide, by decide, by decide⟩

def bar : Function String :=
  ⟨"bar", [], "external", .spirKernel, [], [], [.other "store" [.constant 0, .global "bar.x"]]⟩

/-- A kernel that a function calls. -/
def multiple : Module String where
  spir := false
  globals := [⟨"bar.x", true, false, "[10 x i32]"⟩]
  functions := [bar, ⟨"baz", [], "external", .spirFunc, [], [], [.call "bar" [], .other "ret" []]⟩]
  kernels := none

/-- The call passes what is past the only argument of its caller. -/
theorem past_the_last_argument :
    multiple.WellFormed ∧
    (∃ m', multiple.runOnModule = some m' ∧ ∃ f ∈ m'.functions, f.fn = .regenerated "baz" ∧ f.params.length = 1 ∧
      f.body = [.call (.regenerated "bar") [.argument 1], .other "ret" []]) ∧
    ¬ ∃ m', multiple.runOnModule = some m' ∧ multiple.Translated m' := by
  have hwf : multiple.WellFormed := ⟨by decide, by decide, by decide, by decide⟩
  refine ⟨hwf, ⟨_, rfl, _, .tail _ (.head _), rfl, rfl, rfl⟩, ?_⟩
  rintro ⟨m', hm', htranslated⟩
  have hneeds : multiple.Needs multiple.localNames "bar" :=
    .uses (f := bar) (i := .other "store" [.constant 0, .global "bar.x"]) (g := "bar.x") (.head _) (.head _) (by decide)
      (by decide)
  exact (handled_of_translated hwf hm' htranslated).calls _ (.tail _ (.head _)) "bar" [] (.head _) hneeds

end Module

end OpenCRun.AutomaticLocals
