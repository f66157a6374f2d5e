import OpenCRun.Core.Command
/-!
# Sub-objects

The classes of `MemoryObject.h`: a buffer or an image with a memory of its own,
a sub-buffer of a buffer, and an `Image1D_Buffer` over a buffer. What the rest
of the library asks of them is where they are: each knows its parent and the
offset it has there. A range in an object does not wrap around the 64 bits.
-/
namespace OpenCRun

/-- What an object without a parent is created with; `id` tells objects apart. `setGenericFlags` wants
a pointer with `UseHostPtr`. -/
structure Main where
  id : Nat
  size : Nat
  hostPtr : Option Nat
  flags : MemFlags
  hostPtr_isSome : flags.has MemFlags.UseHostPtr = true → hostPtr.isSome = true
  deriving DecidableEq

/-- A buffer of 16 bytes. -/
def sixteen : Main := ⟨0, 16, none, MemFlags.ReadWrite, fun h => by cases h⟩

inductive Buffer where
  | main (m : Main)
  | sub (id : Nat) (parent : Buffer) (origin size : Nat) (flags : MemFlags)
  deriving DecidableEq

inductive MemoryObject where
  | buffer (b : Buffer)
  | image (m : Main)
  | image1DBuffer (id : Nat) (buf : Buffer) (size : Nat) (flags : MemFlags)
  deriving DecidableEq

namespace Buffer

def getSize : Buffer → Nat
  | main m => m.size
  | sub _ _ _ size _ => size

def getFlags : Buffer → MemFlags
  | main m => m.flags
  | sub _ _ _ _ flags => flags

def isSubBuffer : Buffer → Bool
  | main _ => false
  | sub .. => true

def getParentOffset : Buffer → Nat
  | main _ => 0
  | sub _ _ origin _ _ => origin

/-- The object with the memory. -/
def root : Buffer → Main
  | main m => m
  | sub _ parent _ _ _ => parent.root

/-- Where the buffer begins in the root: the offsets add up along the chain. -/
def absoluteOrigin : Buffer → Nat
  | main _ => 0
  | sub _ parent origin _ _ => parent.absoluteOrigin + origin

/-- Where the parent begins in the root. -/
def parentOrigin : Buffer → Nat
  | main _ => 0
  | sub _ parent _ _ _ => parent.absoluteOrigin

theorem absoluteOrigin_eq (b : Buffer) : b.absoluteOrigin = b.parentOrigin + b.getParentOffset := by
  cases b <;> rfl

end Buffer

namespace MemoryObject

def getSize : MemoryObject → Nat
  | buffer b => b.getSize
  | image m => m.size
  | image1DBuffer _ _ size _ => size

/-- An image is at the offset 0 of the buffer it is over. -/
def getParentOffset : MemoryObject → Nat
  | buffer b => b.getParentOffset
  | image _ => 0
  | image1DBuffer .. => 0

def root : MemoryObject → Main
  | buffer b => b.root
  | image m => m
  | image1DBuffer _ buf _ _ => buf.root

/-- The object that the root is. -/
def main : MemoryObject → MemoryObject
  | buffer b => buffer (.main b.root)
  | image m => image m
  | image1DBuffer _ buf _ _ => buffer (.main buf.root)

def absoluteOrigin : MemoryObject → Nat
  | buffer b => b.absoluteOrigin
  | image _ => 0
  | image1DBuffer _ buf _ _ => buf.absoluteOrigin

def parentOrigin : MemoryObject → Nat
  | buffer b => b.parentOrigin
  | image _ => 0
  | image1DBuffer _ buf _ _ => buf.absoluteOrigin

/-- An object begins in its root where its parent does, and its own offset further. -/
theorem absoluteOrigin_eq (o : MemoryObject) : o.absoluteOrigin = o.parentOrigin + o.getParentOffset := by
  cases o with
  | buffer b => exact b.absoluteOrigin_eq
  | image m => rfl
  | image1DBuffer => rfl

/-! ## Regions of the tracker -/

/-- The offset that `openRegion`, `synchronizeFor` and `synchronizeRegionFor` add, each of them by itself. -/
def regionOrigin : MemoryObject → Nat
  | buffer b => if b.isSubBuffer then b.getParentOffset else 0
  | image _ => 0
  | image1DBuffer .. => 0

/-- The range of the root's tracker that `openRegion` adds. -/
def openRegion (o : MemoryObject) (offset size : Nat) : Nat × Nat := (offset + o.regionOrigin, size)

/-- The range that `synchronizeFor` updates. -/
def synchronizeFor (o : MemoryObject) : Nat × Nat := (o.regionOrigin, o.getSize)

def synchronizeRegionFor (o : MemoryObject) (offset size : Nat) : Nat × Nat := (offset + o.regionOrigin, size)

theorem regionOrigin_eq (o : MemoryObject) : o.regionOrigin = o.getParentOffset := by
  cases o with
  | buffer b => cases b <;> rfl
  | image m => rfl
  | image1DBuffer => rfl

end MemoryObject

/-! ## The objects of commands -/

namespace MemObj
variable {ctx : Context}

/-- An object of a command; `hostPtr` is what its main object was created with. -/
def object (hostPtr : (i : Nat) → { p : Option Nat // (ctx.flags i).has MemFlags.UseHostPtr = true → p.isSome = true }) :
    MemObj ctx → MemoryObject :=
  let main (i : Nat) : Buffer := .main ⟨i, ctx.size i, hostPtr i, ctx.flags i, (hostPtr i).property⟩
  fun
  | .main i => .buffer (main i)
  | .subBuffer i tag part flags => .buffer (.sub tag (main i) part.offset part.size flags)
  | .image1DBuffer i tag part flags => .image1DBuffer tag (.sub tag (main i) part.offset part.size flags) part.size flags

variable (hostPtr : (i : Nat) → { p : Option Nat // (ctx.flags i).has MemFlags.UseHostPtr = true → p.isSome = true })

/-- A command's object is synchronised in the range that its kind of object asks for. -/
theorem syncRegion_eq (o : MemObj ctx) :
    (o.syncRegion.offset, o.syncRegion.size) = (o.object hostPtr).synchronizeFor := by
  cases o <;> rfl

theorem part_eq (o : MemObj ctx) : o.part.offset = (o.object hostPtr).absoluteOrigin := by
  cases o <;> simp [part, object, MemoryObject.absoluteOrigin, Buffer.absoluteOrigin]

/-- In the host's memory, a command finds its object where the object's parent begins. -/
theorem pointer_host {o : MemObj ctx} {d : Nat} (h : (ctx.obj o.root).usesHostMemory d = true) :
    o.pointer d = (.host, (o.object hostPtr).parentOrigin) := by
  cases o with
  | main i => exact congrArg (·, 0) (if_pos h)
  | subBuffer i tag part flags => exact if_pos h
  | image1DBuffer i tag part flags =>
    refine (if_pos h).trans ?_
    simp [object, MemoryObject.parentOrigin, Buffer.absoluteOrigin]

end MemObj

end OpenCRun
