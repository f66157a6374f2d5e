import OpenCRun.Core.MemoryObject
import OpenCRun.Lib.Checked
/-!
# The memory coherency tracker

`MemoryCoherencyTracker` of `MemoryObject.cpp`. A partition splits the object
into chunks; the bits of a chunk say which devices (and the host) hold its
current bytes. `updateRegion` brings a region to one of them before a command
accesses it.

Sums of offsets and sizes stay below the object's size for the regions the
callers pass, so offsets are plain numbers here.
-/
namespace OpenCRun

open Lib

/-- `Validity` is the set of indices of the bits that are set. -/
structure MemoryChunk where
  offset : Nat
  size : Nat
  validity : Finset Nat
  deriving DecidableEq

/-- One past the last byte of the chunk. -/
def MemoryChunk.stop (c : MemoryChunk) : Nat := c.offset + c.size

instance : Inhabited MemoryChunk := ⟨⟨0, 0, ∅⟩⟩

abbrev Partition := List MemoryChunk

/-! ## Finding and splitting chunks

Iterators are positions; `length` is `end()`. -/

/-- `std::lower_bound` from position `i` on. -/
def lowerBound (p : Partition) (i offset : Nat) : Nat :=
  i + (p.drop i).findIdx (fun c => !decide (c.offset < offset))

def findChunk (p : Partition) (i offset : Nat) : Nat :=
  let k := lowerBound p i offset
  match p[k]? with
  | some c => if c.offset = offset then k else k - 1
  | none => k - 1

/-- The range `[I, E)` of positions. -/
def findRangeFor (p : Partition) (offset size : Nat) : Nat × Nat :=
  let i := findChunk p 0 offset
  let e := findChunk p i (offset + size)
  (i, e + 1)

/-- The chunks of a range of positions. -/
def slice (p : Partition) (r : Nat × Nat) : List MemoryChunk := (p.drop r.1).take (r.2 - r.1)

/-- Update the chunks of a range of positions. -/
def mapRange (p : Partition) (r : Nat × Nat) (f : MemoryChunk → MemoryChunk) : Partition :=
  p.take r.1 ++ (slice p r).map f ++ p.drop r.2

def splitChunk (p : Partition) (i offset : Nat) : Checked (Partition × Nat) := do
  let c := p[i]!
  if c.offset = offset then return (p, i)
  Checked.check (decide (c.offset < offset) && decide (offset < c.stop))
  let newSize := c.offset + c.size - offset
  let p := p.set i { c with size := c.size - newSize }
  let p := p.insertIdx (i + 1) { c with offset := offset, size := newSize }
  return (p, i + 1)

def addRegion (p : Partition) (offset size : Nat) : Checked Partition := do
  let c := findChunk p 0 offset
  let (p, c) ← splitChunk p c offset
  let c := findChunk p c (offset + size)
  let (p, _) ← splitChunk p c (offset + size)
  return p

/-! ## The state of a tracked object -/

structure Tracker where
  partition : Partition
  storage : Storage

/-- Set the host's bit, and those of the devices known to alias with it. -/
def updateHostValidity (obj : MainObject) (st : Storage) (v : Finset Nat) : Finset Nat :=
  (List.range obj.getHostIndex).foldl (fun v idx => if st.aliasWithHostPtr obj idx then insert idx v else v)
    (insert obj.getHostIndex v)

/-- `initForDevices` maps every descriptor of a `CopyHostPtr` object; the copy it then makes
is only for storages that are the host memory already. -/
def initForDevices (obj : MainObject) (st : Storage) : Storage :=
  if obj.flags.has MemFlags.CopyHostPtr then (List.range obj.devices.length).foldl Storage.map st else st

/-- The bits of the one chunk of a new object. -/
def initialValidity (obj : MainObject) (st : Storage) : Finset Nat :=
  let v := if obj.useHostPtr then updateHostValidity obj st ∅ else ∅
  if obj.flags.has MemFlags.CopyHostPtr then insert 0 v else v

/-- `initForDevices`, then `MemoryCoherencyTracker::initialize`. -/
def initializeTracker (obj : MainObject) (st : Storage) : Tracker :=
  let st := initForDevices obj st
  { partition := [⟨0, obj.size, initialValidity obj st⟩]
    storage :=
      if obj.flags.has MemFlags.CopyHostPtr then (st.map 0).memcpy (obj.devicePtr 0) .host 0 obj.size else st }

/-! ## Transfers -/

/-- `Validity.find_first()`; the bits asked about have one set below the host's. -/
def findFirst (obj : MainObject) (v : Finset Nat) : Nat :=
  ((List.range obj.getHostIndex).find? (fun idx => decide (idx ∈ v))).getD 0

def transferToDevice (obj : MainObject) (d : Nat) (st : Storage) (c : MemoryChunk) : Checked Storage := do
  if c.validity = ∅ then return st
  if d ∈ c.validity then return st
  let st := st.map d
  if obj.getHostIndex ∈ c.validity then
    Checked.check obj.useHostPtr
    if st.aliasWithHostPtr obj d then return st
    return st.memcpy (obj.devicePtr d) .host c.offset c.size
  else
    let src := findFirst obj c.validity
    let st := st.map src
    return st.memcpy (obj.devicePtr d) (obj.devicePtr src) c.offset c.size

def transferToHost (obj : MainObject) (st : Storage) (c : MemoryChunk) : Checked Storage := do
  if c.validity = ∅ then return st
  if obj.getHostIndex ∈ c.validity then return st
  let src := findFirst obj c.validity
  let st := st.map src
  Checked.check (Loc.host != obj.devicePtr src)
  return st.memcpy .host (obj.devicePtr src) c.offset c.size

/-! ## Updating a region -/

def computeChunksToTransfer (p : Partition) (offset size : Nat) (mode : SynchronizeMode) :
    Checked (List MemoryChunk) := do
  let range := slice p (findRangeFor p offset size)
  if mode.read then return range
  Checked.check mode.write
  let first := range.headD default
  let head := if first.offset < offset then [{ first with size := offset - first.offset }] else []
  let last := range.getLastD default
  let tail :=
    if offset + size < last.stop then
      [{ last with offset := offset + size, size := last.stop - (offset + size) }]
    else []
  return head ++ tail

/-- The update selects the device's copy, unless it maps a `UseHostPtr` object. -/
def deviceUpdate (obj : MainObject) (mode : SynchronizeMode) : Bool := !(mode.map && obj.useHostPtr)

/-- Step 3 of `updateRegion`, for the bits of one chunk. -/
def updateValidity (obj : MainObject) (st : Storage) (mode : SynchronizeMode) (d : Nat) (v : Finset Nat) :
    Finset Nat :=
  let v := if mode.write then ∅ else v
  if deviceUpdate obj mode then
    let v := insert d v
    if st.aliasWithHostPtr obj d then updateHostValidity obj st v else v
  else updateHostValidity obj st v

/-- Step 2, for one chunk. -/
def transfer (obj : MainObject) (mode : SynchronizeMode) (d : Nat) (st : Storage) (c : MemoryChunk) : Checked Storage :=
  if deviceUpdate obj mode then transferToDevice obj d st c else transferToHost obj st c

/-- Step 3. -/
def updateBits (obj : MainObject) (t : Tracker) (offset size : Nat) (mode : SynchronizeMode) (d : Nat) :
    Checked Tracker := do
  let range := findRangeFor t.partition offset size
  Checked.check (decide (range.1 ≠ range.2))
  let p := mapRange t.partition range
    (fun c => { c with validity := updateValidity obj t.storage mode d c.validity })
  return { t with partition := p }

/-- Steps 1 to 3 as one sequential call. -/
def updateRegion (obj : MainObject) (t : Tracker) (offset size : Nat) (mode : SynchronizeMode) (d : Nat) :
    Checked Tracker := do
  Checked.check (mode.map || mode.read || mode.write)
  let chunks ← computeChunksToTransfer t.partition offset size mode
  let st ← chunks.foldlM (transfer obj mode d) t.storage
  updateBits obj { t with storage := st } offset size mode d

end OpenCRun
