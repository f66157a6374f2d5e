import OpenCRun.Lib.Interning
import OpenCRun.Util.OpenCLTypeSystem
/-!
# Type descriptors

`OpenCLTypeSystem.h`: a `Type` is a metadata node, and so is the body of a
record. The accessors read the operands; an assertion that fails, and an
operand that is not there, are `none`.
-/
open Lib.Interning

namespace OpenCRun.OpenCLTypeSystem

/-! ## Qualifiers -/

inductive AddressSpace where
  | asPrivate | asGlobal | asConstant | asLocal
  deriving DecidableEq, Repr

namespace AddressSpace

def toUInt32 : AddressSpace → UInt32
  | asPrivate => 0
  | asGlobal => 1
  | asConstant => 2
  | asLocal => 3

def ofUInt32 (n : UInt32) : Option AddressSpace := [asPrivate, asGlobal, asConstant, asLocal][n.toNat]?

end AddressSpace

inductive ImageAccess where
  | invalid | readOnly | writeOnly
  deriving DecidableEq, Repr

namespace ImageAccess

def toUInt32 : ImageAccess → UInt32
  | invalid => 0
  | readOnly => 1
  | writeOnly => 2

def ofUInt32 (n : UInt32) : Option ImageAccess := [invalid, readOnly, writeOnly][n.toNat]?

end ImageAccess

structure Qualifiers where
  mask : UInt32
  deriving DecidableEq, Repr

namespace Qualifiers

def const : UInt32 := (1 : UInt32) <<< 0
def volatile : UInt32 := (1 : UInt32) <<< 1
def restrict : UInt32 := (1 : UInt32) <<< 2
def imageAccessShAmt : UInt32 := 3
def imageAccessMask : UInt32 := (3 : UInt32) <<< imageAccessShAmt
def addressSpaceShAmt : UInt32 := 5
def addressSpaceMask : UInt32 := (3 : UInt32) <<< addressSpaceShAmt

def isConst (q : Qualifiers) : Bool := q.mask &&& const != 0
def isVolatile (q : Qualifiers) : Bool := q.mask &&& volatile != 0
def isRestrict (q : Qualifiers) : Bool := q.mask &&& restrict != 0

def getAddressSpace (q : Qualifiers) : Option AddressSpace :=
  AddressSpace.ofUInt32 ((q.mask &&& addressSpaceMask) >>> addressSpaceShAmt)

def getImageAccess (q : Qualifiers) : Option ImageAccess :=
  ImageAccess.ofUInt32 ((q.mask &&& imageAccessMask) >>> imageAccessShAmt)

def addConst (q : Qualifiers) : Qualifiers := ⟨q.mask ||| const⟩
def addVolatile (q : Qualifiers) : Qualifiers := ⟨q.mask ||| volatile⟩
def addRestrict (q : Qualifiers) : Qualifiers := ⟨q.mask ||| restrict⟩

def addAddressSpace (q : Qualifiers) (as : AddressSpace) : Qualifiers :=
  ⟨(q.mask &&& ~~~addressSpaceMask) ||| as.toUInt32 <<< addressSpaceShAmt⟩

def addImageAccess (q : Qualifiers) (ia : ImageAccess) : Qualifiers :=
  ⟨(q.mask &&& ~~~imageAccessMask) ||| ia.toUInt32 <<< imageAccessShAmt⟩

def empty (q : Qualifiers) : Bool := q.mask == 0

end Qualifiers

/-! ## Nodes -/

inductive Constant where
  | int (bits : Nat) (value : UInt64)
  | string (s : String)
  deriving DecidableEq, Repr

abbrev Metadata := Lib.Interning.Operand Constant
abbrev Context := Store Constant

/-- `getIntegerMD` -/
def getIntegerMD (bits : Nat) (value : UInt64) : Metadata := .value (.int bits value)

def idType : UInt64 := 0
def idQualType : UInt64 := 1
def idRecordTypeBody : UInt64 := 2

inductive Kind where
  | primitive | vector | image | array | pointer | struct | union
  deriving DecidableEq, Repr

def Kind.values : List Kind := [.primitive, .vector, .image, .array, .pointer, .struct, .union]

def PrimitiveClass.values : List PrimitiveClass :=
  [.bool, .char, .uChar, .short, .uShort, .int, .uInt, .long, .uLong, .half, .float, .double, .event]

def ImageClass.values : List ImageClass :=
  [.image1d, .image1dArray, .image1dBuffer, .image2d, .image2dArray, .image3d, .sampler]

def Kind.toUInt64 (k : Kind) : UInt64 := .ofNat (values.idxOf k)
def PrimitiveClass.toUInt64 (c : PrimitiveClass) : UInt64 := .ofNat (values.idxOf c)
def ImageClass.toUInt64 (c : ImageClass) : UInt64 := .ofNat (values.idxOf c)

def Kind.ofUInt64 (v : UInt64) : Option Kind := values[v.toNat]?
def PrimitiveClass.ofUInt64 (v : UInt64) : Option PrimitiveClass := values[v.toNat]?
def ImageClass.ofUInt64 (v : UInt64) : Option ImageClass := values[v.toNat]?

@[simp] theorem Kind.ofUInt64_toUInt64 (k : Kind) : ofUInt64 k.toUInt64 = some k := by cases k <;> decide

@[simp] theorem PrimitiveClass.ofUInt64_toUInt64 (c : PrimitiveClass) : ofUInt64 c.toUInt64 = some c := by
  cases c <;> decide

@[simp] theorem ImageClass.ofUInt64_toUInt64 (c : ImageClass) : ofUInt64 c.toUInt64 = some c := by cases c <;> decide

/-! ## Types -/

/-- `MD->getOperand(k)` -/
def getOperand (ctx : Context) (md k : Nat) : Option Metadata := do (← ctx[md]?).operands[k]?

/-- `mdconst::extract<ConstantInt>(MD->getOperand(k))->getZExtValue()` -/
def getInt (ctx : Context) (md k : Nat) : Option UInt64 :=
  match getOperand ctx md k with
  | some (.value (.int _ v)) => some v
  | _ => none

/-- `cast<MDNode>(MD->getOperand(k))` -/
def getNode (ctx : Context) (md k : Nat) : Option Nat :=
  match getOperand ctx md k with
  | some (.node i) => some i
  | _ => none

/-- `cast<MDString>(MD->getOperand(k))->getString()` -/
def getString (ctx : Context) (md k : Nat) : Option String :=
  match getOperand ctx md k with
  | some (.value (.string s)) => some s
  | _ => none

def isQualType (ctx : Context) (md : Nat) : Option Bool := do some ((← getInt ctx md 0) == idQualType)

def isRawType (ctx : Context) (md : Nat) : Option Bool := do some ((← getInt ctx md 0) == idType)

/-- The constructor of `Type`. -/
def toType (ctx : Context) (md : Nat) : Option Nat := do
  if ← isRawType ctx md then some md
  else
    guard (← isQualType ctx md)
    guard (← isRawType ctx (← getNode ctx md 2))
    some md

def getUnqualifiedType (ctx : Context) (md : Nat) : Option Nat := do
  if ← isQualType ctx md then toType ctx (← getNode ctx md 2) else some md

def getQualifiers (ctx : Context) (md : Nat) : Option Qualifiers := do
  if ← isQualType ctx md then some ⟨(← getInt ctx md 1).toUInt32⟩ else some ⟨0⟩

/-- What the tests `isPrimitive`, `isVector` and so on compare. -/
def getKind (ctx : Context) (md : Nat) : Option Kind := do
  let md ← getUnqualifiedType ctx md
  Kind.ofUInt64 (← getInt ctx md 1)

def getPrimitiveClass (ctx : Context) (md : Nat) : Option PrimitiveClass := do
  let md ← getUnqualifiedType ctx md
  guard ((← getKind ctx md) = .primitive)
  PrimitiveClass.ofUInt64 (← getInt ctx md 2)

def getImageClass (ctx : Context) (md : Nat) : Option ImageClass := do
  let md ← getUnqualifiedType ctx md
  guard ((← getKind ctx md) = .image)
  ImageClass.ofUInt64 (← getInt ctx md 2)

def getElementType (ctx : Context) (md : Nat) : Option Nat := do
  let md ← getUnqualifiedType ctx md
  guard ((← getKind ctx md) ∈ [.array, .vector, .pointer])
  toType ctx (← getNode ctx md 2)

def getNumElements (ctx : Context) (md : Nat) : Option UInt32 := do
  let md ← getUnqualifiedType ctx md
  guard ((← getKind ctx md) ∈ [.array, .vector])
  some (← getInt ctx md 3).toUInt32

/-- Unlike the others, this accessor does not look behind the qualifiers. -/
def isRecordTypeAnonymous (ctx : Context) (md : Nat) : Option Bool := do some ((← getInt ctx md 3) != 0)

def getRecordTypeName (ctx : Context) (md : Nat) : Option String := do
  let md ← getUnqualifiedType ctx md
  guard ((← getKind ctx md) ∈ [.struct, .union])
  guard (!(← isRecordTypeAnonymous ctx md))
  getString ctx md 2

namespace RecordTypeBody

def isRecordBody (ctx : Context) (md : Nat) : Option Bool := do some ((← getInt ctx md 0) == idRecordTypeBody)

def getSizeInBits (ctx : Context) (md : Nat) : Option UInt64 := getInt ctx md 1

def getAlignment (ctx : Context) (md : Nat) : Option UInt64 := getInt ctx md 2

def getPacked (ctx : Context) (md : Nat) : Option Bool := do some ((← getInt ctx md 3) != 0)

def getNumFields (ctx : Context) (md : Nat) : Option Nat := do some (((← ctx[md]?).operands.length - 4) / 2)

def getField (ctx : Context) (md i : Nat) : Option Nat := do
  guard (i < (← getNumFields ctx md))
  toType ctx (← getNode ctx md (i * 2 + 4))

def getFieldOffset (ctx : Context) (md i : Nat) : Option UInt64 := do
  guard (i < (← getNumFields ctx md))
  getInt ctx md (i * 2 + 5)

end RecordTypeBody

/-- The constructor of `RecordTypeBody` checks that the operand is a body. -/
def getRecordTypeBody (ctx : Context) (md : Nat) : Option Nat := do
  let md ← getUnqualifiedType ctx md
  guard ((← getKind ctx md) ∈ [.struct, .union])
  let body ← getNode ctx md 4
  guard (← RecordTypeBody.isRecordBody ctx body)
  some body

/-! ## Reading nodes -/

section Reading
variable {ctx : Context} {md raw k : Nat} {n : Node Constant} {mask : UInt32}

theorem getOperand_node (h : ctx[md]? = some n) (k : Nat) : getOperand ctx md k = n.operands[k]? := by
  simp [getOperand, h]

theorem getInt_node {bits : Nat} {v : UInt64} (h : ctx[md]? = some n) (hop : n.operands[k]? = some (getIntegerMD bits v)) :
    getInt ctx md k = some v := by
  rw [getInt, getOperand_node h, hop]
  rfl

theorem getNode_node {i : Nat} (h : ctx[md]? = some n) (hop : n.operands[k]? = some (.node i)) :
    getNode ctx md k = some i := by
  rw [getNode, getOperand_node h, hop]

theorem getString_node {str : String} (h : ctx[md]? = some n) (hop : n.operands[k]? = some (.value (.string str))) :
    getString ctx md k = some str := by
  rw [getString, getOperand_node h, hop]

/-- A type without qualifiers is a type, and its own unqualified type. -/
theorem isRawType_spec (h : getInt ctx md 0 = some idType) : isQualType ctx md = some false ∧
    isRawType ctx md = some true ∧ toType ctx md = some md ∧ getUnqualifiedType ctx md = some md ∧
    getQualifiers ctx md = some ⟨0⟩ := by
  have hq : isQualType ctx md = some false := by rw [isQualType, h]; decide
  have hr : isRawType ctx md = some true := by rw [isRawType, h]; decide
  refine ⟨hq, hr, ?_, ?_, ?_⟩
  · simp [toType, hr]
  · simp [getUnqualifiedType, hq]
  · simp [getQualifiers, hq]

theorem isQualType_spec (h : getInt ctx md 0 = some idQualType) (hmask : getInt ctx md 1 = some mask.toUInt64)
    (hraw : getNode ctx md 2 = some raw) (hrawType : getInt ctx raw 0 = some idType) : toType ctx md = some md ∧
    getUnqualifiedType ctx md = some raw ∧ getQualifiers ctx md = some ⟨mask⟩ := by
  have hq : isQualType ctx md = some true := by rw [isQualType, h]; decide
  have hr : isRawType ctx md = some false := by rw [isRawType, h]; decide
  obtain ⟨-, hr', ht', -, -⟩ := isRawType_spec hrawType
  refine ⟨?_, ?_, ?_⟩
  · simp [toType, hr, hq, hraw, hr']
  · simp [getUnqualifiedType, hq, hraw, ht']
  · simp [getQualifiers, hq, hmask]

end Reading

end OpenCRun.OpenCLTypeSystem
