import Mathlib.Data.Finset.Union
/-!
# Prototypes and definitions of builtins

For each builtin `EmitOCLBuiltinDefs` writes a prototype for every signature
that its variants expand to, and `EmitOCLBuiltinImpls` a definition for those
with an implementation. Both decide for themselves which of them are overloads.
-/
namespace OpenCRun.OCLGen.Overloads

/-! ## Types -/

inductive AddressSpaceKind where
  | asPrivate | asGlobal | asLocal | asConstant
  deriving DecidableEq, Repr

namespace AddressSpaceKind

def toNat : AddressSpaceKind → Nat
  | asPrivate => 0
  | asGlobal => 1
  | asLocal => 2
  | asConstant => 3

/-- `AddressSpaceQualifier` -/
def qualifier : AddressSpaceKind → String
  | asPrivate => "__private"
  | asGlobal => "__global"
  | asLocal => "__local"
  | asConstant => "__constant"

end AddressSpaceKind

/-- A macro that a guard tests, by its full name. -/
inductive OCLPredicate where
  | oclExtension (fullName : String)
  | oclAddressSpace (fullName : String) (addressSpace : AddressSpaceKind)
  | oclMacro (fullName : String)
  deriving DecidableEq, Repr

abbrev PredicateSet := Finset OCLPredicate

/-- Objects of types are told apart by the records that define them. -/
inductive OCLScalarType where
  | integer (record : String) (bitWidth : Nat) (isUnsigned : Bool) (predicates : PredicateSet)
  | real (record : String) (bitWidth : Nat) (predicates : PredicateSet)
  deriving DecidableEq

inductive Qualifier where
  | readOnly | writeOnly | readWrite
  deriving DecidableEq, Repr

def Qualifier.toNat : Qualifier → Nat
  | readOnly => 1
  | writeOnly => 2
  | readWrite => 4

/-- The flags of the modifiers. -/
structure Modifiers where
  isConst : Bool := false
  isRestrict : Bool := false
  isVolatile : Bool := false
  deriving DecidableEq, Repr

/-- Qualified types and pointers that the types table makes for the members of a group have no record. -/
inductive OCLBasicType where
  | scalar (s : OCLScalarType)
  | vector (record : String) (base : OCLScalarType) (width : Nat)
  | opaqueType (record name : String) (predicates : PredicateSet)
  | qualified (record : Option String) (unqual : OCLBasicType) (qual : Qualifier) (predicates : PredicateSet)
  | pointer (record : Option String) (base : OCLBasicType) (as : AddressSpaceKind) (mods : Modifiers)
    (predicates : PredicateSet)
  deriving DecidableEq

namespace OCLScalarType

def predicates : OCLScalarType → PredicateSet
  | integer _ _ _ p | real _ _ p => p

/-- The record's name without `ocl_`. -/
def getName : OCLScalarType → String
  | integer r _ _ _ | real r _ _ => (r.drop 4).toString

def compareLess : OCLScalarType → OCLScalarType → Bool
  | integer _ w u _, integer _ w' u' _ => (!u && u') || (u == u' && decide (w < w'))
  | integer .., real .. => true
  | real .., integer .. => false
  | real _ w _, real _ w' _ => decide (w < w')

end OCLScalarType

namespace OCLBasicType

def compareLess : OCLBasicType → OCLBasicType → Bool
  | scalar s, scalar t => s.compareLess t
  | scalar s, vector _ base _ => s == base || s.compareLess base
  | scalar _, _ => true
  | vector _ base _, scalar t => base.compareLess t
  | vector _ base w, vector _ base' w' => base.compareLess base' || (base == base' && decide (w < w'))
  | vector .., _ => true
  | opaqueType .., scalar _ | opaqueType .., vector .. => false
  | opaqueType _ n _, opaqueType _ n' _ => decide (n < n')
  | opaqueType .., _ => true
  | qualified .., scalar _ | qualified .., vector .. | qualified .., opaqueType .. => false
  | qualified _ t q _, qualified _ t' q' _ => t.compareLess t' || decide (q.toNat < q'.toNat)
  | qualified .., pointer .. => true
  | pointer .., scalar _ | pointer .., vector .. | pointer .., opaqueType .. => false
  | pointer _ t as _ _, pointer _ t' as' _ _ => t.compareLess t' || (t == t' && decide (as.toNat < as'.toNat))
  | pointer .., qualified .. => true

/-- The predicates that `ComputePredicates` collects for a type. -/
def predicates : OCLBasicType → PredicateSet
  | scalar s => s.predicates
  | vector _ base _ => base.predicates
  | opaqueType _ _ p => p
  | qualified _ t _ p => p ∪ t.predicates
  | pointer _ t _ _ p => p ∪ t.predicates

/-- `EmitOCLTypeSignature` -/
def signature : OCLBasicType → String
  | scalar s => s.getName
  | vector _ base w => base.getName ++ toString w
  | opaqueType _ n _ => n
  | qualified _ t q _ =>
    (match q with
      | .readOnly => "read_only "
      | .writeOnly => "write_only "
      | .readWrite => "read_write ") ++ t.signature
  | pointer _ t as mods _ =>
    (if mods.isConst then "const " else "") ++ (if mods.isRestrict then "restrict " else "") ++
      (if mods.isVolatile then "volatile " else "") ++ t.signature ++ " " ++ as.qualifier ++ " *"

end OCLBasicType

/-- The type of an operand: a group stands for its members, and a qualified type or a pointer over a group
for those over its members. The outermost pointer comes first. -/
inductive OCLType where
  | basic (t : OCLBasicType)
  | group (members : List OCLBasicType)
  | qualifiedGroup (members : List OCLBasicType) (qual : Qualifier)
  | pointerGroup (members : List OCLBasicType) (chain : List (AddressSpaceKind × Modifiers))

/-- `OCLTypesTable::getPointerType` -/
def getPointerType (base : OCLBasicType) (ptrS : List (AddressSpaceKind × Modifiers)) : OCLBasicType :=
  ptrS.foldr (fun d t => .pointer none t d.1 d.2 ∅) base

/-- `ExpandPointerType`: what is made of the innermost pointer goes into the next, with the pointers so far. -/
def expandPointerType (chain : List (AddressSpaceKind × Modifiers)) (member : OCLBasicType) : OCLBasicType :=
  -- The pointers so far are put on what has been made of them already.
  (chain.reverse.foldl (fun s d => (getPointerType s.1 (d :: s.2), d :: s.2)) (member, [])).1

def OCLType.members : OCLType → List OCLBasicType
  | basic t => [t]
  | group ms => ms
  | qualifiedGroup ms q => ms.map fun t => .qualified none t q ∅
  | pointerGroup ms chain => ms.map (expandPointerType chain)

/-! ## Signatures -/

/-- The type that is returned is the first one. -/
structure BuiltinSign where
  tys : List OCLBasicType
  predicates : PredicateSet
  deriving DecidableEq

def BuiltinSign.ret (s : BuiltinSign) : Option OCLBasicType := s.tys.head?

/-- `BuiltinSignCompare`, on the types: those at the first place where they differ, else the numbers. -/
def compareTypes : List OCLBasicType → List OCLBasicType → Bool
  | t :: ts, t' :: ts' => if t = t' then compareTypes ts ts' else t.compareLess t'
  | [], _ :: _ => true
  | _, [] => false

def builtinSignCompare (s s' : BuiltinSign) : Bool := compareTypes s.tys s'.tys

/-- A constraint looks at operands up to the last one that it names. -/
structure OCLTypeConstraint where
  maxOperand : Nat
  apply : List OCLBasicType → Bool

structure OCLBuiltinVariant where
  operands : List OCLType
  constraints : List OCLTypeConstraint
  predicates : PredicateSet

/-- `IsConsistent` -/
def isConsistent (constraints : List OCLTypeConstraint) (tys : List OCLBasicType) : Bool :=
  constraints.all fun c => c.maxOperand != tys.length - 1 || c.apply tys

def enumerateSigns (constraints : List OCLTypeConstraint) : List OCLType → List OCLBasicType → List (List OCLBasicType)
  | [], tmp => [tmp]
  | op :: ops, tmp => op.members.flatMap fun t =>
    if isConsistent constraints (tmp ++ [t]) then enumerateSigns constraints ops (tmp ++ [t]) else []

def expandSigns (v : OCLBuiltinVariant) : List BuiltinSign :=
  (enumerateSigns v.constraints v.operands []).map fun tys => { tys, predicates := v.predicates }

/-- `ComputePredicates`; the address spaces are those of the predicates table. -/
def computePredicates (addressSpaces : PredicateSet) (sign : BuiltinSign) (ignoreAS : Bool) : PredicateSet :=
  let preds := sign.predicates ∪ sign.tys.foldr (fun t p => t.predicates ∪ p) ∅
  if ignoreAS then preds \ addressSpaces else preds

/-! ## Builtins and implementations -/

inductive BuiltinKind where
  | generic
  | convert (hasSaturation : Bool) (roundingMode : String)
  | reinterpret
  deriving DecidableEq, Repr

def BuiltinKind.isCast : BuiltinKind → Bool
  | generic => false
  | _ => true

/-- The variants are in the order of their names. -/
structure OCLBuiltin where
  record : String
  kind : BuiltinKind
  name : String
  variants : List (String × OCLBuiltinVariant)

structure OCLBuiltinImpl where
  /-- The record of the builtin. -/
  builtin : String
  variantName : String
  isTarget : Bool
  deriving DecidableEq, Repr

/-- What the two emitters read. -/
structure Tables where
  addressSpaces : PredicateSet
  builtins : List OCLBuiltin
  impls : List OCLBuiltinImpl

namespace OCLBuiltin

/-- The name without its prefix, which for a cast depends on the type that is returned. -/
def getExternalName (B : OCLBuiltin) (sign : BuiltinSign) : String :=
  let castName := B.name ++ "_" ++ (sign.ret.map OCLBasicType.signature).getD ""
  match B.kind with
  | .generic => B.name
  | .convert hasSaturation roundingMode => castName ++ (if hasSaturation then "_sat" else "") ++ "_" ++ roundingMode
  | .reinterpret => castName

def getInternalName (B : OCLBuiltin) (sign : BuiltinSign) : String := "__builtin_ocl_" ++ B.getExternalName sign

/-- All signatures, one for each choice of members, as they are expanded. -/
def expanded (B : OCLBuiltin) : List BuiltinSign := B.variants.flatMap fun v => expandSigns v.2

/-- `Alts`, after it is sorted. -/
def alternatives (B : OCLBuiltin) : List BuiltinSign := B.expanded.mergeSort fun s s' => !builtinSignCompare s' s

/-- `CurVariants`: the variant of the name; without a name, all. -/
def curVariants (B : OCLBuiltin) (impl : OCLBuiltinImpl) : List OCLBuiltinVariant :=
  match B.variants.lookup impl.variantName with
  | some v => [v]
  | none => if impl.variantName = "" then B.variants.map Prod.snd else []

end OCLBuiltin

/-- A map that is ordered by `builtinSignCompare`. -/
abbrev SignatureImplMap := List (BuiltinSign × OCLBuiltinImpl)

namespace SignatureImplMap

def find (sign : BuiltinSign) : SignatureImplMap → Option OCLBuiltinImpl
  | [] => none
  | (k, impl) :: m =>
    if builtinSignCompare k sign then find sign m else if builtinSignCompare sign k then none else some impl

/-- A key that is there stays as it is. -/
def set (sign : BuiltinSign) (impl : OCLBuiltinImpl) : SignatureImplMap → SignatureImplMap
  | [] => [(sign, impl)]
  | (k, impl') :: m =>
    if builtinSignCompare k sign then (k, impl') :: set sign impl m
    else if builtinSignCompare sign k then (sign, impl) :: (k, impl') :: m
    else (k, impl) :: m

/-- The body of the loop over the signatures of an implementation. -/
def insert (impl : OCLBuiltinImpl) (m : SignatureImplMap) (sign : BuiltinSign) : SignatureImplMap :=
  match m.find sign with
  | none => m.set sign impl
  | some old => if impl.isTarget || old.variantName == "" then m.set sign impl else m

end SignatureImplMap

/-- `Impls[&B]` -/
def implsOf (B : OCLBuiltin) (impls : List OCLBuiltinImpl) : SignatureImplMap :=
  impls.foldl (fun m impl =>
    if impl.builtin = B.record then ((B.curVariants impl).flatMap expandSigns).foldl (.insert impl) m else m) []

/-- The keys of the map. -/
def implemented (B : OCLBuiltin) (impls : List OCLBuiltinImpl) : List BuiltinSign := (implsOf B impls).map Prod.fst

/-! ## The emitters -/

/-- The head of a prototype or of a definition, within its guard. -/
structure Declaration where
  name : String
  /-- The type that is returned, and those of the parameters. -/
  tys : List OCLBasicType
  /-- `__opencrun_overload` -/
  overloadable : Bool
  guard : PredicateSet
  deriving DecidableEq

/-- `PredicatesGuardEmitter::Push`: which guard is open after it. -/
def push (current preds : PredicateSet) : PredicateSet := if preds = current then current else preds

/-- The rest of `ComputeSignsRanges` at place `i`, in a range of signatures that return `ret`. -/
def rangesFrom (ret : Option OCLBasicType) : Nat → Nat → List BuiltinSign → List (Nat × Nat)
  | i, count, [] => [(count, i)]
  | i, count, s :: signs =>
    if s.ret ≠ ret then (count, i) :: rangesFrom s.ret (i + 1) 1 signs else rangesFrom ret (i + 1) (count + 1) signs

/-- How many signatures there are before each place where a range begins, and before the end. -/
def computeSignsRanges (signs : List BuiltinSign) : List (Nat × Nat) :=
  (0, 0) :: rangesFrom (signs.head?.bind BuiltinSign.ret) 0 0 signs

section Emitters
variable (B : OCLBuiltin) (preds : BuiltinSign → PredicateSet)

/-- The loop for a generic builtin. -/
def emitGenericFrom (overloadable : Bool) : PredicateSet → List BuiltinSign → List Declaration
  | _, [] => []
  | current, s :: signs =>
    let current := push current (preds s)
    { name := B.getInternalName s, tys := s.tys, overloadable, guard := current } ::
      emitGenericFrom overloadable current signs

def emitGeneric (signs : List BuiltinSign) : List Declaration :=
  emitGenericFrom B preds (decide (1 < signs.length)) ∅ signs

/-- The loop for a cast. Where a range begins the prototypes end their guard (`finalizes`). -/
def emitCastFrom (finalizes : Bool) : Nat → List (Nat × Nat) → PredicateSet → List BuiltinSign → List Declaration
  | _, _, _, [] => []
  | i, ranges, current, s :: signs =>
    let begins := ranges.head?.map Prod.snd = some i
    let ranges := if begins then ranges.tail else ranges
    let current := push (if begins ∧ finalizes then ∅ else current) (preds s)
    { name := B.getInternalName s, tys := s.tys
      overloadable := decide (1 < (ranges.head?.map Prod.fst).getD 0), guard := current } ::
      emitCastFrom finalizes (i + 1) ranges current signs

def emitCast (finalizes : Bool) (signs : List BuiltinSign) : List Declaration :=
  emitCastFrom B preds finalizes 0 (computeSignsRanges signs) ∅ signs

end Emitters

section Declarations
variable (T : Tables)

/-- `EmitOCLGenericBuiltinPrototype`, `EmitOCLCastBuiltinPrototype` -/
def emitPrototypes (B : OCLBuiltin) : List Declaration :=
  let preds sign := computePredicates T.addressSpaces sign true
  if B.kind.isCast then emitCast B preds true B.alternatives else emitGeneric B preds B.alternatives

/-- `EmitOCLGenericBuiltinImpls`, `EmitOCLCastBuiltinImpls` -/
def emitImpls (B : OCLBuiltin) : List Declaration :=
  let preds sign := computePredicates T.addressSpaces sign false
  if B.kind.isCast then emitCast B preds false (implemented B T.impls)
  else emitGeneric B preds (implemented B T.impls)

def emitOCLBuiltinDefs : List Declaration := T.builtins.flatMap (emitPrototypes T)

def emitOCLBuiltinImpls : List Declaration := T.builtins.flatMap (emitImpls T)

end Declarations

/-! ## What is emitted -/

/-- The type that the signature at a place returns. -/
def retAt (signs : List BuiltinSign) (i : Nat) : Option (Option OCLBasicType) := signs[i]?.map BuiltinSign.ret

/-- The only signature; for a cast, one whose neighbours return other types. -/
def alone (B : OCLBuiltin) (signs : List BuiltinSign) (i : Nat) : Bool :=
  if B.kind.isCast then (i == 0 || retAt signs (i - 1) != retAt signs i) && retAt signs (i + 1) != retAt signs i
  else signs.length == 1

/-- What is emitted for the signature at place `i` of some signatures. -/
def declare (B : OCLBuiltin) (preds : BuiltinSign → PredicateSet) (signs : List BuiltinSign) (i : Nat)
    (s : BuiltinSign) : Declaration :=
  { name := B.getInternalName s, tys := s.tys, overloadable := !alone B signs i, guard := preds s }

section Emitted
variable {B : OCLBuiltin} {preds : BuiltinSign → PredicateSet}

theorem push_eq (current preds : PredicateSet) : push current preds = preds := by
  unfold push
  split
  · next h => exact h.symm
  · rfl

theorem emitGenericFrom_eq (overloadable : Bool) (current : PredicateSet) (signs : List BuiltinSign) :
    emitGenericFrom B preds overloadable current signs =
      signs.map fun s => { name := B.getInternalName s, tys := s.tys, overloadable, guard := preds s } := by
  induction signs generalizing current with
  | nil => rfl
  | cons s signs ih => rw [emitGenericFrom, push_eq, ih, List.map_cons]

theorem emitGeneric_eq (h : B.kind.isCast = false) (signs : List BuiltinSign) :
    emitGeneric B preds signs = signs.mapIdx (declare B preds signs) := by
  -- With a signature at the place there is at least one.
  have hov : ∀ i, signs ≠ [] → (!alone B signs i) = decide (1 < signs.length) := by
    intro i hne
    have hpos : 0 < signs.length := List.length_pos_iff.2 hne
    rw [alone, h, if_neg Bool.false_ne_true]
    by_cases hone : signs.length = 1
    · simp [hone]
    · simp only [beq_eq_false_iff_ne.2 hone, Bool.not_false]
      exact (decide_eq_true (by omega)).symm
  rw [emitGeneric, emitGenericFrom_eq]
  refine List.ext_getElem? fun i => ?_
  rw [List.getElem?_map, List.getElem?_mapIdx]
  cases hi : signs[i]? with
  | none => rfl
  | some s =>
    have hne : signs ≠ [] := fun hnil => by simp [hnil] at hi
    simp [declare, hov i hne]

/-- How many of the first signatures return the type. -/
def runLength (ret : Option OCLBasicType) (signs : List BuiltinSign) : Nat :=
  (signs.takeWhile fun s => decide (s.ret = ret)).length

/-- The first range ends where another type is returned. -/
theorem rangesFrom_head (ret : Option OCLBasicType) (i count : Nat) (signs : List BuiltinSign) :
    (rangesFrom ret i count signs).head? = some (count + runLength ret signs, i + runLength ret signs) := by
  induction signs generalizing i count with
  | nil => rfl
  | cons s signs ih =>
    rw [rangesFrom, runLength]
    by_cases hret : s.ret = ret
    · rw [if_neg (not_not.2 hret), ih, List.takeWhile_cons_of_pos (by simpa using hret), List.length_cons]
      simp only [runLength]
      congr 2 <;> omega
    · rw [if_pos hret, List.takeWhile_cons_of_neg (by simpa using hret)]
      rfl

theorem runLength_pos_iff (ret : Option OCLBasicType) (signs : List BuiltinSign) :
    0 < runLength ret signs ↔ signs.head?.map BuiltinSign.ret = some ret := by
  cases signs with
  | nil => simp [runLength]
  | cons s signs =>
    rw [runLength]
    by_cases hret : s.ret = ret
    · simp [hret]
    · simp [hret]

/-- What the loop for a cast emits after a signature that returns `prev`. -/
def declareFrom (B : OCLBuiltin) (preds : BuiltinSign → PredicateSet) (prev : Option (Option OCLBasicType)) :
    List BuiltinSign → List Declaration
  | [] => []
  | s :: signs =>
    { name := B.getInternalName s, tys := s.tys
      overloadable := decide (prev = some s.ret ∨ signs.head?.map BuiltinSign.ret = some s.ret), guard := preds s } ::
      declareFrom B preds (some s.ret) signs

/-- Within a range, of which some signatures have passed, the front of the ranges counts them all. -/
theorem emitCastFrom_eq (finalizes : Bool) {ret : Option OCLBasicType} {i count : Nat} (hcount : 0 < count)
    (current : PredicateSet) (signs : List BuiltinSign) :
    emitCastFrom B preds finalizes i (rangesFrom ret i count signs) current signs =
      declareFrom B preds (some ret) signs := by
  induction signs generalizing ret i count current with
  | nil => rfl
  | cons s signs ih =>
    rw [emitCastFrom, declareFrom, rangesFrom]
    by_cases hret : s.ret = ret
    · -- The range goes on.
      subst hret
      have hgoes : ¬ some (i + 1 + runLength s.ret signs) = some i := by
        rw [Option.some.injEq]
        omega
      have hmany : 1 < count + 1 + runLength s.ret signs := by omega
      simp only [ne_eq, not_true_eq_false, if_false, rangesFrom_head, Option.map_some, if_neg hgoes, push_eq,
        ih (Nat.succ_pos count), Option.getD_some, hmany, true_or, decide_true]
    · -- A range begins.
      simp only [if_pos hret, List.head?_cons, Option.map_some, if_true, List.tail_cons, push_eq, rangesFrom_head,
        ih Nat.one_pos, Option.getD_some, Option.some.injEq, Ne.symm hret, false_or, ← runLength_pos_iff]
      simp

theorem declareFrom_getElem? (prev : Option (Option OCLBasicType)) (signs : List BuiltinSign) (i : Nat) :
    (declareFrom B preds prev signs)[i]? = signs[i]?.map fun s =>
      { name := B.getInternalName s, tys := s.tys
        overloadable := decide ((if i = 0 then prev else retAt signs (i - 1)) = some s.ret ∨
          retAt signs (i + 1) = some s.ret)
        guard := preds s } := by
  induction signs generalizing prev i with
  | nil => rfl
  | cons s signs ih =>
    cases i with
    | zero =>
      simp [declareFrom, retAt, List.head?_eq_getElem?]
    | succ i =>
      rw [declareFrom, List.getElem?_cons_succ, ih, List.getElem?_cons_succ]
      cases i with
      | zero => simp [retAt]
      | succ i => simp [retAt]

theorem emitCast_eq (h : B.kind.isCast = true) (finalizes : Bool) (signs : List BuiltinSign) :
    emitCast B preds finalizes signs = signs.mapIdx (declare B preds signs) := by
  have hstart : emitCast B preds finalizes signs = declareFrom B preds none signs := by
    cases signs with
    | nil => rfl
    | cons s signs =>
      simp only [emitCast, computeSignsRanges, emitCastFrom, declareFrom, rangesFrom, List.head?_cons, Option.bind_some,
        Option.map_some, if_true, List.tail_cons, ne_eq, not_true_eq_false, if_false, Nat.zero_add, push_eq,
        rangesFrom_head, emitCastFrom_eq finalizes Nat.one_pos, Option.getD_some, reduceCtorEq, false_or,
        ← runLength_pos_iff]
      simp
  rw [hstart]
  refine List.ext_getElem? fun i => ?_
  rw [declareFrom_getElem?, List.getElem?_mapIdx]
  cases hi : signs[i]? with
  | none => rfl
  | some s =>
    have hret : retAt signs i = some s.ret := by rw [retAt, hi]; rfl
    simp only [Option.map_some, declare, alone, h, if_true, hret]
    rw [Option.some.injEq, Declaration.mk.injEq, Bool.eq_iff_iff]
    by_cases hzero : i = 0
    · simp [hzero]
    · simp only [hzero, if_false, true_and, and_true, decide_eq_true_eq, Bool.not_eq_true', Bool.and_eq_false_iff,
        Bool.or_eq_false_iff, beq_eq_false_iff_ne, bne_eq_false_iff_eq, ne_eq, not_false_eq_true]

end Emitted

section Declared
variable (T : Tables) (B : OCLBuiltin)

theorem emitPrototypes_eq : emitPrototypes T B =
    B.alternatives.mapIdx (declare B (computePredicates T.addressSpaces · true) B.alternatives) := by
  rw [emitPrototypes]
  split
  · next h => exact emitCast_eq h true _
  · next h => exact emitGeneric_eq (Bool.eq_false_iff.2 h) _

theorem emitImpls_eq : emitImpls T B = (implemented B T.impls).mapIdx
    (declare B (computePredicates T.addressSpaces · false) (implemented B T.impls)) := by
  rw [emitImpls]
  split
  · next h => exact emitCast_eq h false _
  · next h => exact emitGeneric_eq (Bool.eq_false_iff.2 h) _

end Declared

/-! ## Implemented signatures -/

section Implemented
variable {B : OCLBuiltin} {m : SignatureImplMap} {impl : OCLBuiltinImpl} {sign s : BuiltinSign}

theorem mem_keys_set (h : s ∈ (m.set sign impl).map Prod.fst) : s = sign ∨ s ∈ m.map Prod.fst := by
  induction m with
  | nil =>
    rw [SignatureImplMap.set] at h
    exact .inl (List.mem_singleton.1 h)
  | cons k m ih =>
    rw [SignatureImplMap.set] at h
    split at h
    · rcases List.mem_cons.1 h with hk | h
      · exact .inr (List.mem_cons.2 (.inl hk))
      · exact (ih h).imp id (List.mem_cons_of_mem _)
    · split at h
      · exact List.mem_cons.1 h
      · exact .inr h

theorem mem_keys_insert (h : s ∈ (m.insert impl sign).map Prod.fst) : s = sign ∨ s ∈ m.map Prod.fst := by
  unfold SignatureImplMap.insert at h
  split at h
  · exact mem_keys_set h
  · split at h
    · exact mem_keys_set h
    · exact .inr h

theorem mem_keys_foldl {signs : List BuiltinSign} (h : s ∈ (signs.foldl (.insert impl) m).map Prod.fst) :
    s ∈ signs ∨ s ∈ m.map Prod.fst := by
  induction signs generalizing m with
  | nil => exact .inr h
  | cons sign signs ih =>
    rcases ih h with h | h
    · exact .inl (List.mem_cons_of_mem _ h)
    · exact (mem_keys_insert h).imp (fun heq => List.mem_cons.2 (.inl heq)) id

theorem curVariants_subset {v : OCLBuiltinVariant} (h : v ∈ B.curVariants impl) : v ∈ B.variants.map Prod.snd := by
  unfold OCLBuiltin.curVariants at h
  split at h
  · next v' hv' =>
    obtain rfl := List.mem_singleton.1 h
    obtain ⟨l₁, l₂, hsplit, -⟩ := List.lookup_eq_some_iff.1 hv'
    rw [hsplit]
    simp
  · split at h
    · exact h
    · cases h

/-- Only signatures that the variants expand to are implemented. -/
theorem implemented_subset (impls : List OCLBuiltinImpl) (h : s ∈ implemented B impls) : s ∈ B.alternatives := by
  rw [OCLBuiltin.alternatives, List.mem_mergeSort]
  -- Over the implementations: a key is there already, or comes from a variant of this builtin.
  have hrun : ∀ (rest : List OCLBuiltinImpl) (m : SignatureImplMap), s ∈ (rest.foldl (fun m impl =>
      if impl.builtin = B.record then ((B.curVariants impl).flatMap expandSigns).foldl (.insert impl) m else m) m).map
      Prod.fst → s ∈ m.map Prod.fst ∨ s ∈ B.expanded := by
    intro rest
    induction rest with
    | nil => exact fun m hs => .inl hs
    | cons impl rest ih =>
      intro m hs
      refine (ih _ hs).elim (fun hs => ?_) .inr
      dsimp only at hs
      split at hs
      · rcases mem_keys_foldl hs with hs | hs
        · obtain ⟨v, hv, hs⟩ := List.mem_flatMap.1 hs
          obtain ⟨w, hw, rfl⟩ := List.mem_map.1 (curVariants_subset hv)
          exact .inr (List.mem_flatMap.2 ⟨w, hw, hs⟩)
        · exact .inl hs
      · exact .inl hs
  exact (hrun impls [] h).resolve_left (by simp)

end Implemented

/-! ## Agreement -/

/-- Each definition has a prototype with its name, its types and its marker, of which the guard holds where that of
the definition does. Prototypes that share a name are marked. -/
structure Agree (T : Tables) : Prop where
  declared : ∀ d ∈ emitOCLBuiltinImpls T, ∃ p ∈ emitOCLBuiltinDefs T, p.name = d.name ∧ p.tys = d.tys ∧
    p.overloadable = d.overloadable ∧
      ∀ defined : OCLPredicate → Prop, (∀ x ∈ d.guard, defined x) → ∀ x ∈ p.guard, defined x
  marked : (emitOCLBuiltinDefs T).Pairwise fun p q =>
    p.name = q.name → p.overloadable = true ∧ q.overloadable = true

/-- The internal names of all alternatives, each with whether it stands alone in its builtin. -/
def namedAlternatives (T : Tables) : List (String × Bool) :=
  T.builtins.flatMap fun B => B.alternatives.mapIdx fun i s => (B.getInternalName s, alone B B.alternatives i)

/-- An implemented signature stands alone among those that are implemented exactly when it does among the
alternatives, and no alternative that stands alone shares its name. -/
structure Consistent (T : Tables) : Prop where
  implemented : ∀ B ∈ T.builtins, ∀ i j s, (implemented B T.impls)[i]? = some s → B.alternatives[j]? = some s →
    alone B (implemented B T.impls) i = alone B B.alternatives j
  shared : (namedAlternatives T).Pairwise fun a b => a.1 = b.1 → a.2 = false ∧ b.2 = false

theorem map_emitOCLBuiltinDefs (T : Tables) :
    (emitOCLBuiltinDefs T).map (fun p => (p.name, !p.overloadable)) = namedAlternatives T := by
  rw [emitOCLBuiltinDefs, namedAlternatives, List.map_flatMap]
  refine congrArg (List.flatMap · T.builtins) (funext fun B => ?_)
  rw [emitPrototypes_eq]
  refine List.ext_getElem? fun i => ?_
  simp [List.getElem?_mapIdx, declare, Function.comp_def]

/-- Prototypes that share a name are marked exactly when none of them stands alone. -/
theorem marked_iff (T : Tables) : ((emitOCLBuiltinDefs T).Pairwise fun p q =>
      p.name = q.name → p.overloadable = true ∧ q.overloadable = true) ↔
    (namedAlternatives T).Pairwise fun a b => a.1 = b.1 → a.2 = false ∧ b.2 = false := by
  rw [← map_emitOCLBuiltinDefs, List.pairwise_map]
  simp only [Bool.not_eq_false']

theorem mem_prototypes_iff {T : Tables} {p : Declaration} : p ∈ emitOCLBuiltinDefs T ↔
    ∃ B ∈ T.builtins, ∃ j s, B.alternatives[j]? = some s ∧
      declare B (computePredicates T.addressSpaces · true) B.alternatives j s = p := by
  rw [emitOCLBuiltinDefs, List.mem_flatMap]
  refine exists_congr fun B => and_congr_right fun _ => ?_
  rw [emitPrototypes_eq, List.mem_iff_getElem?]
  refine exists_congr fun j => ?_
  rw [List.getElem?_mapIdx, Option.map_eq_some_iff]

theorem mem_impls_iff {T : Tables} {d : Declaration} : d ∈ emitOCLBuiltinImpls T ↔
    ∃ B ∈ T.builtins, ∃ i s, (implemented B T.impls)[i]? = some s ∧
      declare B (computePredicates T.addressSpaces · false) (implemented B T.impls) i s = d := by
  rw [emitOCLBuiltinImpls, List.mem_flatMap]
  refine exists_congr fun B => and_congr_right fun _ => ?_
  rw [emitImpls_eq, List.mem_iff_getElem?]
  refine exists_congr fun i => ?_
  rw [List.getElem?_mapIdx, Option.map_eq_some_iff]

/-- The guard of a prototype has nothing that the one of the definition has not. -/
theorem computePredicates_subset (addressSpaces : PredicateSet) (s : BuiltinSign) :
    computePredicates addressSpaces s true ⊆ computePredicates addressSpaces s false := by
  rw [computePredicates, computePredicates, if_pos rfl, if_neg Bool.false_ne_true]
  exact Finset.sdiff_subset

/-- When declarations and definitions agree. -/
theorem declarations_agree_iff (T : Tables) : Agree T ↔ Consistent T := by
  constructor
  · rintro ⟨hdeclared, hmarked⟩
    refine ⟨fun B hB i j s hi hj => ?_, (marked_iff T).1 hmarked⟩
    obtain ⟨p, hp, hname, -, hov, -⟩ := hdeclared _ (mem_impls_iff.2 ⟨B, hB, i, s, hi, rfl⟩)
    have hown := mem_prototypes_iff.2 ⟨B, hB, j, s, hj, rfl⟩
    have heq : p.overloadable = !alone B B.alternatives j := by
      -- Another prototype of the same name is marked, and so is the own one.
      by_cases hsame : p = declare B (computePredicates T.addressSpaces · true) B.alternatives j s
      · rw [hsame]
        rfl
      · have hsymm : Std.Symm fun p q : Declaration =>
            p.name = q.name → p.overloadable = true ∧ q.overloadable = true :=
          ⟨fun p q h hn => (h hn.symm).symm⟩
        obtain ⟨h₁, h₂⟩ := hmarked.forall hp hown hsame hname
        exact h₁.trans h₂.symm
    exact Bool.not_inj (hov.symm.trans heq)
  · rintro ⟨himplemented, hshared⟩
    refine ⟨fun d hd => ?_, (marked_iff T).2 hshared⟩
    obtain ⟨B, hB, i, s, hi, rfl⟩ := mem_impls_iff.1 hd
    obtain ⟨j, hj⟩ := List.mem_iff_getElem?.1 (implemented_subset T.impls (List.mem_of_getElem? hi))
    refine ⟨_, mem_prototypes_iff.2 ⟨B, hB, j, s, hj, rfl⟩, rfl, rfl, ?_, fun defined hdefined x hx => hdefined x ?_⟩
    · exact congrArg Bool.not (himplemented B hB i j s hi hj).symm
    · exact computePredicates_subset T.addressSpaces s hx

/-- A builtin for two types of integers, which is implemented for the first. -/
def halfImplemented : Tables :=
  let int := .scalar (.integer "ocl_int" 32 false ∅)
  let uint := .scalar (.integer "ocl_uint" 32 true ∅)
  let counter t := .pointer none t .asGlobal { isVolatile := true } ∅
  { addressSpaces := ∅
    builtins := [{
      record := "blt_atomic_inc", kind := .generic, name := "atomic_inc"
      variants := [("UnP1Un", { operands := [.basic uint, .basic (counter uint)], constraints := [], predicates := ∅ }),
        ("nP1n", { operands := [.basic int, .basic (counter int)], constraints := [], predicates := ∅ })] }]
    impls := [{ builtin := "blt_atomic_inc", variantName := "nP1n", isTarget := false }] }

/-- The definition is not marked, both prototypes are. -/
theorem half_implemented_disagree : ¬ Agree halfImplemented := by
  intro h
  have hdefined : (emitOCLBuiltinImpls halfImplemented).map Declaration.overloadable = [false] := by decide
  obtain ⟨d, hd, hfree⟩ := List.mem_map.1 (hdefined ▸ List.mem_singleton_self false)
  obtain ⟨p, hp, -, -, hov, -⟩ := h.declared d hd
  obtain ⟨B, hB, j, s, -, rfl⟩ := mem_prototypes_iff.1 hp
  have hmany : alone B B.alternatives j = false := by
    obtain rfl := List.mem_singleton.1 hB
    refine beq_false_of_ne ?_
    -- Sorting keeps both signatures.
    rw [OCLBuiltin.alternatives, List.length_mergeSort]
    decide
  have hmarked : (!alone B B.alternatives j) = false := hov.trans hfree
  rw [hmany] at hmarked
  exact absurd hmarked (by decide)

end OpenCRun.OCLGen.Overloads
