import OpenCRun.Lib.CInteger
/-!
# Saturating conversions of integers

The bodies of `Convert.td` and the constants that `OCLBuiltinImplEmitter.cpp`
declares in front of them. A comparison is a parameter of a body, so that what
C compares can be put beside what is meant.
-/
open Lib Lib.CInteger

namespace OpenCRun.Library

/-! ## Limits -/

/-- A literal in C, as `APInt::toString` formats a number in hexadecimal. -/
structure HexLiteral where
  minus : Bool
  digits : List (Fin 16)
  deriving DecidableEq, Repr

namespace HexLiteral

/-- The number that the digits denote. -/
def nat (l : HexLiteral) : Nat := l.digits.foldl (fun n d => 16 * n + d.val) 0

/-- The number that is written. -/
def int (l : HexLiteral) : Int := if l.minus then -l.nat else l.nat

/-- The literal as an initialiser of a constant. -/
def expr (t : IntType) (l : HexLiteral) : Expr t := if l.minus then cast t (neg (hexLit l.nat)) else cast t (hexLit l.nat)

end HexLiteral

/-- `APInt::toString`, of a number that is signed or not, with the radix 16 and as a C literal. -/
abbrev ApIntToString := (w : Nat) → BitVec w → Bool → HexLiteral

/-- The number is written, with a minus if it is negative. -/
def Writes (toString : ApIntToString) : Prop :=
  ∀ (w : Nat) (v : BitVec w) (isSigned : Bool), (toString w v isSigned).int = if isSigned then v.toInt else v.toNat

def emitOCLTypeValue (toString : ApIntToString) (t : IntType) (isMin : Bool) : HexLiteral :=
  let isUnsigned := !t.signed
  let value : BitVec t.width :=
    if isMin && isUnsigned then 0#t.width
    else if isUnsigned then BitVec.allOnes t.width
    else if isMin then BitVec.intMin t.width
    else BitVec.intMax t.width
  toString t.width value (!isUnsigned)

/-- `const T RetMin = ...`, and `RetMax`. -/
def emitOCLDecl (toString : ApIntToString) (t : IntType) (isMin : Bool) : Expr t :=
  (emitOCLTypeValue toString t isMin).expr t

/-! ## Conversions -/

/-- The comparisons of a body. -/
structure Comparisons where
  lt : {s t : IntType} → Expr s → Expr t → Checked Bool
  gt : {s t : IntType} → Expr s → Expr t → Checked Bool

/-- Those of C. -/
def Comparisons.c : Comparisons := ⟨CInteger.lt, CInteger.gt⟩

/-- Those of the numbers. -/
def Comparisons.exact : Comparisons where
  lt a b := do
    let x ← a
    let y ← b
    pure (decide (x.int < y.int))
  gt a b := do
    let x ← a
    let y ← b
    pure (decide (x.int > y.int))

/-- A comparison, with the assertion that another one has the same result. -/
def asserted (r e : Checked Bool) : Checked Bool := do
  let r ← r
  let e ← e
  Checked.check (r == e)
  pure r

/-- Those of C, each asserted to be that of the numbers. -/
def Comparisons.asserted : Comparisons where
  lt a b := Library.asserted (CInteger.lt a b) (Comparisons.exact.lt a b)
  gt a b := Library.asserted (CInteger.gt a b) (Comparisons.exact.gt a b)

section Bodies
variable {s t : IntType} (cmp : Comparisons)

/-- Variant `SiSi`. -/
def convertSatSiSi (retMin retMax : Expr t) (param1 : Expr s) : Expr t := do
  if ← cmp.lt param1 retMin then retMin
  else if ← cmp.gt param1 retMax then retMax
  else cast t param1

/-- Variant `UiUi`. -/
def convertSatUiUi (retMax : Expr t) (param1 : Expr s) : Expr t := do
  if ← cmp.gt param1 retMax then retMax
  else cast t param1

/-- Variant `UiSi`. `UTYPE` is the unsigned type of the parameter. -/
def convertSatUiSi (retMax : Expr t) (param1 : Expr s) : Expr t := do
  if ← cmp.lt param1 (lit 0) then cast t (lit 0)
  else if ← cmp.gt (cast s.unsigned param1) retMax then retMax
  else cast t param1

/-- Variant `SiUi`. `UTYPE` is the unsigned type of the result. -/
def convertSatSiUi (retMax : Expr t) (param1 : Expr s) : Expr t := do
  if ← cmp.gt param1 (cast t.unsigned retMax) then retMax
  else cast t param1

/-- `convert_T_sat`, with the constants in front of the body. -/
def convertSat (toString : ApIntToString) (t : IntType) (param1 : Expr s) : Expr t :=
  match t.signed, s.signed with
  | true, true => do
    let retMin ← emitOCLDecl toString t true
    let retMax ← emitOCLDecl toString t false
    convertSatSiSi cmp (var retMin) (var retMax) param1
  | false, false => do
    let retMax ← emitOCLDecl toString t false
    convertSatUiUi cmp (var retMax) param1
  | false, true => do
    let retMax ← emitOCLDecl toString t false
    convertSatUiSi cmp (var retMax) param1
  | true, false => do
    let retMax ← emitOCLDecl toString t false
    convertSatSiUi cmp (var retMax) param1

end Bodies

end OpenCRun.Library
