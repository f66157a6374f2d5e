import OpenCRun.Lib.CInteger
/-!
# The integer built-ins

The bodies of `Integer.td` for scalars, to which vectors are split. `TYPE` is
the type of the operands, and `UTYPE` the unsigned one.
-/
open Lib Lib.CInteger

namespace OpenCRun.Library

variable {t : IntType}

def hadd (param1 param2 : Expr t) : Expr t := cast t ((param1 + param2) >>> lit 1)

def rhadd (param1 param2 : Expr t) : Expr t := cast t ((param1 + param2 + lit 1) >>> lit 1)

def rotate (param1 param2 : Expr t) : Expr t :=
  cast t ((param1 <<< param2) ||| (cast t.unsigned param1 >>> (sizeof t * lit 8 - param2)))

/-! ## Saturation -/

/-- Variant `UiUiUi`. -/
def addSatUi (param1 param2 : Expr t) : Expr t := do
  let maxVal ← cast t (bnot (lit 0))
  cast t (ternary (gt param1 (var maxVal - param2)) (var maxVal) (param1 + param2))

/-- Variant `SiSiSi`. -/
def addSatSi (param1 param2 : Expr t) : Expr t := do
  let maxVal ← cast t.unsigned (cast t.unsigned (bnot (lit 0)) >>> lit 1)
  let minVal ← cast t.unsigned (cast t.unsigned (lit 1) <<< (sizeof t * lit 8 - lit 1))
  if ← gt param2 (lit 0) <&&> gt param1 (cast t (var maxVal) - param2) then cast t (var maxVal)
  else if ← lt param2 (lit 0) <&&> lt param1 (cast t (var minVal) - param2) then cast t (var minVal)
  else cast t (param1 + param2)

def addSat (param1 param2 : Expr t) : Expr t := if t.signed then addSatSi param1 param2 else addSatUi param1 param2

/-- Variant `UiUiUi`. -/
def subSatUi (param1 param2 : Expr t) : Expr t :=
  cast t (ternary (lt param1 param2) (lit 0) (param1 - param2))

/-- Variant `SiSiSi`. -/
def subSatSi (param1 param2 : Expr t) : Expr t := do
  let maxVal ← cast t.unsigned (cast t.unsigned (bnot (lit 0)) >>> lit 1)
  let minVal ← cast t.unsigned (cast t.unsigned (lit 1) <<< (sizeof t * lit 8 - lit 1))
  if ← gt param2 (lit 0) <&&> lt param1 (cast t (var minVal) + param2) then cast t (var minVal)
  else if ← lt param2 (lit 0) <&&> gt param1 (cast t (var maxVal) + param2) then cast t (var maxVal)
  else cast t (param1 - param2)

def subSat (param1 param2 : Expr t) : Expr t := if t.signed then subSatSi param1 param2 else subSatUi param1 param2

/-- Variant `UiUiUiUi`. -/
def madSatUi (param1 param2 param3 : Expr t) : Expr t := do
  if ← eq param1 (lit 0) <||> eq param2 (lit 0) then param3
  else
    let maxVal ← cast t (bnot (lit 0))
    cast t (ternary (ne param2 (lit 0) <&&> gt param1 ((var maxVal - param3) / param2)) (var maxVal)
      (param1 * param2 + param3))

/-- Variant `SiSiSiSi`. -/
def madSatSi (param1 param2 param3 : Expr t) : Expr t := do
  if ← eq param1 (lit 0) <||> eq param2 (lit 0) then param3
  else
    let maxVal ← cast t.unsigned (cast t.unsigned (bnot (lit 0)) >>> lit 1)
    let minVal ← cast t.unsigned (cast t.unsigned (lit 1) <<< (sizeof t * lit 8 - lit 1))
    if ← gt param3 (lit 0) <&&> gt param1 ((cast t (var maxVal) - param3) / param2) then cast t (var maxVal)
    else if ← lt param3 (lit 0) <&&> lt param1 ((cast t (var minVal) - param3) / param2) then cast t (var minVal)
    else cast t (param1 * param2 + param3)

def madSat (param1 param2 param3 : Expr t) : Expr t :=
  if t.signed then madSatSi param1 param2 param3 else madSatUi param1 param2 param3

/-! ## The high half of a product -/

def mulHi (param1 param2 : Expr t) : Expr t := do
  let shamt ← cast t (sizeof t * lit 8 / lit 2)
  let loMask ← cast t ((cast t (lit 1) <<< var shamt) - lit 1)
  let xl ← cast t (param1 &&& var loMask)
  let xh ← cast t (param1 >>> var shamt)
  let yl ← cast t (param2 &&& var loMask)
  let yh ← cast t (param2 >>> var shamt)
  let xyll ← cast t.unsigned (var xl * var yl)
  let xylh ← cast t.unsigned (var xl * var yh)
  let xyhl ← cast t.unsigned (var xh * var yl)
  let xyhh ← cast t.unsigned (var xh * var yh)
  let loTmp ← cast t.unsigned (var xyll + (var xylh <<< var shamt))
  let c ← cast t.unsigned (ofBool (lt (var loTmp) (var xyll)))
  let lo ← cast t.unsigned (var loTmp + (var xyhl <<< var shamt))
  let c ← cast t.unsigned (var c + ofBool (lt (var lo) (var loTmp)))
  cast t (var xyhh + (cast t (var xylh) >>> var shamt) + (cast t (var xyhl) >>> var shamt) + var c)

def madHi (param1 param2 param3 : Expr t) : Expr t := cast t (mulHi param1 param2 + param3)

/-! ## Counts of bits -/

/-- The variables of the loop of `clz`. -/
structure ClzState (t : IntType) where
  param1 : Value t
  shamt : Value t
  mask : Value t
  n : Value t
  deriving DecidableEq, Repr

def clzStep (s : ClzState t) : Checked (ClzState t) := do
  let s ← if ← eq (var s.param1 &&& var s.mask) (lit 0) then do
      let n ← cast t (var s.n + var s.shamt)
      let param1 ← cast t (var s.param1 <<< var s.shamt)
      pure { s with n, param1 }
    else pure s
  let shamt ← cast t (var s.shamt / lit 2)
  let mask ← cast t (var s.mask <<< var shamt)
  pure { s with shamt, mask }

def clzLoop : Nat → ClzState t → Checked (Option (ClzState t))
  | 0, _ => pure none
  | fuel + 1, s => do if ← ge (var s.shamt) (lit 1) then clzLoop fuel (← clzStep s) else pure (some s)

/-- There is no result if the loop runs out of fuel. -/
def clz (fuel : Nat) (param1 : Expr t) : Checked (Option (Value t)) := do
  let param1 ← param1
  let shamt ← cast t (sizeof t * lit 8 / lit 2)
  let mask ← cast t (cast t (bnot (lit 0)) <<< var shamt)
  let n ← cast t (lit 0)
  if ← eq (var param1) (lit 0) then do
    let w ← cast t (sizeof t * lit 8)
    pure (some w)
  else do
    let s ← clzLoop fuel { param1, shamt, mask, n }
    pure (s.map ClzState.n)

def popcount (param1 : Expr t) : Expr t := do
  let x ← cast .ulong param1
  let m1 : Value .ulong := ⟨0x5555555555555555⟩
  let m2 : Value .ulong := ⟨0x3333333333333333⟩
  let m4 : Value .ulong := ⟨0x0f0f0f0f0f0f0f0f⟩
  let h01 : Value .ulong := ⟨0x0101010101010101⟩
  let x ← cast .ulong (var x - ((var x >>> lit 1) &&& var m1))
  let x ← cast .ulong ((var x &&& var m2) + ((var x >>> lit 2) &&& var m2))
  let x ← cast .ulong ((var x + (var x >>> lit 4)) &&& var m4)
  cast t ((var x * var h01) >>> lit 56)

end OpenCRun.Library
