import Mathlib.Data.Finset.Basic
import Mathlib.Data.Finset.Insert
/-!
# Memory objects and their storage

What `MemoryObject.h` and `CPUDevice.cpp` say about where the bytes of one main
memory object live: the host memory, and one storage per device of the context,
which a descriptor allocates the first time it is mapped.
-/
namespace OpenCRun

/-! ## Flags -/

/-- `getFlags()`: a word of `CL_MEM_*` bits. -/
abbrev MemFlags := BitVec 16

namespace MemFlags

def ReadWrite : MemFlags := 0x01#16
def WriteOnly : MemFlags := 0x02#16
def ReadOnly : MemFlags := 0x04#16
def UseHostPtr : MemFlags := 0x08#16
def AllocHostPtr : MemFlags := 0x10#16
def CopyHostPtr : MemFlags := 0x20#16
def HostWriteOnly : MemFlags := 0x80#16
def HostReadOnly : MemFlags := 0x100#16
def HostNoAccess : MemFlags := 0x200#16

/-- `Flags & Mask`, as a condition. -/
def has (flags mask : MemFlags) : Bool := flags &&& mask != 0#16

end MemFlags

/-- `MemoryObject::SynchronizeMode`, a combination of `SyncMap`, `SyncRead` and `SyncWrite`. -/
structure SynchronizeMode where
  map : Bool := false
  read : Bool := false
  write : Bool := false
  deriving DecidableEq, Repr

namespace SynchronizeMode

def syncRead : SynchronizeMode := { read := true }
def syncWrite : SynchronizeMode := { write := true }
def syncReadWrite : SynchronizeMode := { read := true, write := true }

end SynchronizeMode

/-! ## Objects -/

/-- How a device's descriptor places a `UseHostPtr` object: `CPUMemoryDescriptor`
uses the host memory itself, another device may keep a storage of its own. -/
inductive DescriptorKind where
  | cpu
  | separate
  deriving DecidableEq, Repr

/-- A main memory object (no `Parent`), with one descriptor for each device of its context.
A context has a device, and the builders refuse a size of zero. -/
structure MainObject where
  devices : List DescriptorKind
  size : Nat
  flags : MemFlags
  devices_pos : 0 < devices.length
  size_pos : 0 < size

/-- Part of an object: what a sub-object opens, and what a command synchronises. -/
structure Region (n : Nat) where
  offset : Nat
  size : Nat
  size_pos : 0 < size
  le : offset + size ≤ n

/-- One past the last byte of the region. -/
def Region.stop {n : Nat} (r : Region n) : Nat := r.offset + r.size

/-- A memory the object's bytes can be in; equal locations are equal pointers. The tracker only knows
the host's and the devices'; a sub-object's descriptor can allocate one of its `own`. -/
inductive Loc where
  | host
  | device (idx : Nat)
  | own (tag idx : Nat)
  deriving DecidableEq, Repr

/-- The contents of every location, and the descriptors that are `isAllocated()`. -/
structure Storage where
  allocated : Finset Nat
  mem : Loc → Nat → UInt8

namespace MainObject
variable (obj : MainObject)

def useHostPtr : Bool := obj.flags.has MemFlags.UseHostPtr

/-- The index of the host in a chunk's validity bits: one past the devices. -/
def getHostIndex : Nat := obj.devices.length

/-- The descriptor of device `idx` uses the host memory as its storage. -/
def usesHostMemory (idx : Nat) : Bool := obj.devices[idx]? = some .cpu && obj.useHostPtr

/-- The pointer `map()` returns for device `idx`. -/
def devicePtr (idx : Nat) : Loc := if obj.usesHostMemory idx then .host else .device idx

/-- The memory a validity bit is about. -/
def copyLoc (idx : Nat) : Loc := if idx = obj.getHostIndex then .host else obj.devicePtr idx

end MainObject

namespace Storage
variable (st : Storage)

/-- `map()`: allocate the storage the first time. -/
def map (idx : Nat) : Storage := { st with allocated := insert idx st.allocated }

/-- `memcpy` of `size` bytes at the same offset in two locations. -/
def memcpy (dst src : Loc) (offset size : Nat) : Storage :=
  { st with mem := fun l a => if l = dst ∧ offset ≤ a ∧ a < offset + size then st.mem src a else st.mem l a }

/-- The bytes an accessor writes to a location. -/
def write (dst : Loc) (bytes : Nat → Option UInt8) : Storage :=
  { st with mem := fun l a => if l = dst then (bytes a).getD (st.mem l a) else st.mem l a }

/-- `aliasWithHostPtr()`: the storage is allocated and it is the host memory. -/
def aliasWithHostPtr (obj : MainObject) (idx : Nat) : Bool := idx ∈ st.allocated && obj.usesHostMemory idx

end Storage

end OpenCRun
