import OpenCRun.Lib.MixedRadix
/-!
# Iteration spaces

`DimensionInfo.h` and `DimensionInfo.cpp`. A `size_t` has 64 bits and an
`unsigned` 32, and each conversion and product is cut to its type. The sizes
that things are divided by are not zero.
-/
namespace OpenCRun

/-- The conversion to `unsigned`. -/
def toUnsigned (n : Nat) : Nat := n % 2 ^ 32

/-- The conversion to `size_t`. -/
def toSize (n : Nat) : Nat := n % 2 ^ 64

structure InfoWrapper where
  offset : Nat
  globalSize : Nat
  localSize : Nat
  deriving DecidableEq, Repr

structure DimensionInfo where
  info : List InfoWrapper
  deriving DecidableEq, Repr

/-- `DimensionInfoIterator`, less the pointer to its space. -/
structure DimensionInfoIterator where
  locals : List Nat
  workGroups : List Nat
  deriving DecidableEq, Repr

namespace DimensionInfo

variable (di : DimensionInfo)

/-- The constructor; its assertion is about the lengths. -/
def new (globalWorkOffsets globalWorkSizes localWorkSizes : List Nat) : DimensionInfo where
  info := List.zipWith3 InfoWrapper.mk globalWorkOffsets globalWorkSizes localWorkSizes

def getDimensions : Nat := di.info.length

def getGlobalWorkItems : Nat := di.info.foldl (fun size w => toUnsigned (size * w.globalSize)) 1

def getLocalWorkItems : Nat := di.info.foldl (fun size w => toUnsigned (size * w.localSize)) 1

def getWorkGroupsCount : Nat := di.getGlobalWorkItems / di.getLocalWorkItems

def getGlobalWorkItemsAt (i : Nat) : Nat :=
  match di.info[i]? with
  | none => 1
  | some w => toUnsigned w.globalSize

def getLocalWorkItemsAt (i : Nat) : Nat :=
  match di.info[i]? with
  | none => 1
  | some w => toUnsigned w.localSize

/-- The result is an `unsigned`. -/
def getGlobalOffsetAt (i : Nat) : Nat :=
  match di.info[i]? with
  | none => 0
  | some w => toUnsigned w.offset

def getWorkGroupsCountAt (i : Nat) : Nat :=
  match di.info[i]? with
  | none => 1
  | some w =>
    let count := toUnsigned (w.globalSize / w.localSize)
    if w.globalSize % w.localSize ≠ 0 then toUnsigned (count + 1) else count

def beginIter : DimensionInfoIterator where
  locals := List.replicate di.info.length 0
  workGroups := List.replicate di.info.length 0

def endIter : DimensionInfoIterator where
  locals := List.replicate di.info.length 0
  workGroups := (List.replicate di.info.length 0).set 0 (di.getWorkGroupsCountAt 0)

/-! ## The iterator -/

/-- The loops of `Advance` over the local ids and over the work-groups, from the index `i` on. -/
def advanceLoop (dimSize : Nat → Nat) : Nat → List Nat → Nat → List Nat × Nat
  | _, [], carry => ([], carry)
  | i, id :: ids, carry =>
    if carry = 0 then (id :: ids, carry)
    else
      let newId := toUnsigned (id + carry)
      let rest := advanceLoop dimSize (i + 1) ids (newId / dimSize i)
      (newId % dimSize i :: rest.1, rest.2)

def advance (n : Nat) (it : DimensionInfoIterator) : DimensionInfoIterator :=
  -- move inside the work-group
  let moved := advanceLoop di.getLocalWorkItemsAt 0 it.locals n
  -- move between work-groups
  let carried := advanceLoop di.getWorkGroupsCountAt 0 it.workGroups moved.2
  if carried.2 ≠ 0 then
    -- overflow: one work-item beyond the last one
    { locals := List.replicate it.locals.length 0
      workGroups := (List.replicate it.workGroups.length 0).set 0 (di.getWorkGroupsCountAt 0) }
  else { locals := moved.1, workGroups := carried.1 }

/-- `operator+=`; the `int` it takes is cut from a `size_t`. -/
def addAssign (n : Nat) (it : DimensionInfoIterator) : DimensionInfoIterator := di.advance (toUnsigned n) it

/-- The inner loop of `GetWorkGroup`. -/
def workGroupsBelow (i : Nat) : Nat :=
  (List.range i).foldl (fun count k => toSize (count * di.getWorkGroupsCountAt k)) 1

/-- `GetWorkGroup()`, the linear id of the work-group. -/
def getWorkGroup (it : DimensionInfoIterator) : Nat :=
  (List.range' 1 (it.workGroups.length - 1)).foldl
    (fun workGroup i => toSize (workGroup + toSize (it.workGroups.getD i 0 * di.workGroupsBelow i)))
    (it.workGroups.headD 0)

def getWorkGroupAt (it : DimensionInfoIterator) (i : Nat) : Nat :=
  if i ≥ di.getDimensions then 0 else it.workGroups.getD i 0

def getLocalId (it : DimensionInfoIterator) (i : Nat) : Nat :=
  if i ≥ di.getDimensions then 0 else it.locals.getD i 0

def getGlobalId (it : DimensionInfoIterator) (i : Nat) : Nat :=
  if i ≥ di.getDimensions then 0
  else toSize (di.getWorkGroupAt it i * di.getLocalWorkItemsAt i + it.locals.getD i 0)

end DimensionInfo

end OpenCRun
