import Mathlib.Logic.Function.Basic
import OpenCRun.Core.Coherency
/-!
# Commands and their memory objects

The commands of `CommandQueue::ensureMemoryCoherency`, which synchronises each
object of a command as a whole before the device gets it. What a command then
reads and writes of its objects is up to its execution; it goes through the
pointer of the object's own descriptor.
-/
open Lib

namespace OpenCRun

open Coherency

/-! ## Objects -/

/-- The devices of a context and its main memory objects. -/
structure Context where
  devices : List DescriptorKind
  size : Nat → Nat
  flags : Nat → MemFlags
  devices_pos : 0 < devices.length
  size_pos : ∀ i, 0 < size i

def Context.obj (ctx : Context) (i : Nat) : MainObject :=
  ⟨ctx.devices, ctx.size i, ctx.flags i, ctx.devices_pos, ctx.size_pos i⟩

/-- A main object, or a part of one: a sub-buffer, or an `Image1D_Buffer` over the buffer that starts
where the part starts. `tag` tells sub-objects apart. -/
inductive MemObj (ctx : Context) where
  | main (i : Nat)
  | subBuffer (i tag : Nat) (part : Region (ctx.size i)) (flags : MemFlags)
  | image1DBuffer (i tag : Nat) (part : Region (ctx.size i)) (flags : MemFlags)

namespace MemObj
variable {ctx : Context}

def root : MemObj ctx → Nat
  | main i => i
  | subBuffer i _ _ _ => i
  | image1DBuffer i _ _ _ => i

def getFlags : MemObj ctx → MemFlags
  | main i => ctx.flags i
  | subBuffer _ _ _ flags => flags
  | image1DBuffer _ _ _ flags => flags

/-- Where the object's bytes are in the main object. -/
def part : (o : MemObj ctx) → Region (ctx.size o.root)
  | main i => ⟨0, ctx.size i, ctx.size_pos i, by simp [root]⟩
  | subBuffer _ _ part _ => part
  | image1DBuffer _ _ part _ => part

/-- The region that `synchronizeFor` asks the tracker to update: only a sub-buffer's origin counts. -/
def syncRegion : (o : MemObj ctx) → Region (ctx.size o.root)
  | main i => ⟨0, ctx.size i, ctx.size_pos i, by simp [root]⟩
  | subBuffer _ _ part _ => part
  | image1DBuffer _ _ part _ => ⟨0, part.size, part.size_pos, by have := part.le; simp only [root]; omega⟩

/-- `map()` of the object's descriptor: the memory, and the byte in it where the object starts.
`allocateStorage` of a sub-object asks its parent's descriptor for a storage again, and adds the
offset that the parent has in its own parent. -/
def pointer (d : Nat) : MemObj ctx → Loc × Nat
  | main i => ((ctx.obj i).devicePtr d, 0)
  | subBuffer i tag _ _ => if (ctx.obj i).usesHostMemory d then (.host, 0) else (.own tag d, 0)
  | image1DBuffer i tag part _ => if (ctx.obj i).usesHostMemory d then (.host, part.offset) else (.own tag d, 0)

/-- `acquireMappingAddrFor`; the host pointer of an `Image1D_Buffer` is not that of its buffer. -/
def mappingAddr (d : Nat) (o : MemObj ctx) : Loc × Nat :=
  if (ctx.obj o.root).useHostPtr then
    match o with
    | main _ => (.host, 0)
    | subBuffer _ _ part _ => (.host, part.offset)
    | image1DBuffer _ tag _ _ => (.own tag ctx.devices.length, 0)
  else o.pointer d

end MemObj

/-! ## Commands -/

/-- `CL_MAP_READ`, `CL_MAP_WRITE` and `CL_MAP_WRITE_INVALIDATE_REGION`. -/
structure MapFlags where
  read : Bool := false
  write : Bool := false
  invalidate : Bool := false

inductive KernelArg (ctx : Context) where
  | bufferArg (obj : Option (MemObj ctx))
  | imageArg (obj : Option (MemObj ctx))
  | other

def KernelArg.getObject {ctx : Context} : KernelArg ctx → Option (MemObj ctx)
  | bufferArg obj => obj
  | imageArg obj => obj
  | other => none

inductive Command (ctx : Context) where
  | readBuffer (source : MemObj ctx)
  | writeBuffer (target : MemObj ctx)
  | copyBuffer (source target : MemObj ctx)
  | readImage (source : MemObj ctx)
  | writeImage (target : MemObj ctx)
  | copyImage (source target : MemObj ctx)
  | copyImageToBuffer (source target : MemObj ctx)
  | copyBufferToImage (source target : MemObj ctx)
  | mapBuffer (source : MemObj ctx) (mapFlags : MapFlags)
  | mapImage (source : MemObj ctx) (mapFlags : MapFlags)
  | unmapMemObject (memObj : MemObj ctx)
  | readBufferRect (source : MemObj ctx)
  | writeBufferRect (target : MemObj ctx)
  | copyBufferRect (source target : MemObj ctx)
  | fillBuffer (target : MemObj ctx)
  | fillImage (target : MemObj ctx)
  | ndRangeKernel (args : List (KernelArg ctx))
  | nativeKernel (memoryLocations : List (MemObj ctx))
  | other

/-- An object of a command, how it is synchronised, and whether the command may write it. -/
structure Operand (ctx : Context) where
  obj : MemObj ctx
  mode : SynchronizeMode
  writable : Bool

namespace Operand
variable {ctx : Context}

def source (obj : MemObj ctx) : Operand ctx := ⟨obj, .syncRead, false⟩

def target (obj : MemObj ctx) : Operand ctx := ⟨obj, .syncReadWrite, true⟩

def mapped (obj : MemObj ctx) (fl : MapFlags) : Operand ctx :=
  ⟨obj, { map := true, read := fl.read, write := fl.write || fl.invalidate }, fl.write || fl.invalidate⟩

/-- An argument of a kernel is synchronised as its flags say; without one of the three, the mode is 0. -/
def argument (obj : MemObj ctx) : Operand ctx :=
  let flags := obj.getFlags
  { obj
    mode :=
      if flags.has MemFlags.ReadWrite then .syncReadWrite
      else if flags.has MemFlags.ReadOnly then .syncRead
      else if flags.has MemFlags.WriteOnly then .syncWrite
      else {}
    writable := flags.has MemFlags.ReadWrite || !flags.has MemFlags.ReadOnly }

/-- Where the command finds the object's first byte. -/
def pointer (op : Operand ctx) (d : Nat) : Loc × Nat :=
  if op.mode.map then op.obj.mappingAddr d else op.obj.pointer d

end Operand

/-- The objects that `ensureMemoryCoherency` synchronises, in its order. -/
def Command.operands {ctx : Context} : Command ctx → List (Operand ctx)
  | readBuffer s => [.source s]
  | writeBuffer t => [.target t]
  | copyBuffer s t => [.source s, .target t]
  | readImage s => [.source s]
  | writeImage t => [.target t]
  | copyImage s t => [.source s, .target t]
  | copyImageToBuffer s t => [.source s, .target t]
  | copyBufferToImage s t => [.source s, .target t]
  | mapBuffer s fl => [.mapped s fl]
  | mapImage s fl => [.mapped s fl]
  | unmapMemObject o => [.source o]
  | readBufferRect s => [.source s]
  | writeBufferRect t => [.target t]
  | copyBufferRect s t => [.source s, .target t]
  | fillBuffer t => [.target t]
  | fillImage t => [.target t]
  | ndRangeKernel args => (args.filterMap KernelArg.getObject).map .argument
  | nativeKernel locs => locs.map .argument
  | other => []

/-- All operands of a command are mapped, or none is. -/
theorem Command.operands_map {ctx : Context} (cmd : Command ctx) : ∃ m, ∀ op ∈ cmd.operands, op.mode.map = m := by
  have harg : ∀ o : MemObj ctx, (Operand.argument o).mode.map = false := by
    intro o
    simp only [Operand.argument]
    split
    · rfl
    split
    · rfl
    split <;> rfl
  cases cmd with
  | mapBuffer => exact ⟨true, by simp [operands, Operand.mapped]⟩
  | mapImage => exact ⟨true, by simp [operands, Operand.mapped]⟩
  | ndRangeKernel args =>
    refine ⟨false, fun op hop => ?_⟩
    obtain ⟨o, -, rfl⟩ := List.mem_map.1 hop
    exact harg o
  | nativeKernel locs =>
    refine ⟨false, fun op hop => ?_⟩
    obtain ⟨o, -, rfl⟩ := List.mem_map.1 hop
    exact harg o
  | _ =>
    exact ⟨false, by
      simp [operands, Operand.source, Operand.target, SynchronizeMode.syncRead, SynchronizeMode.syncReadWrite]⟩

/-- An operand that may be written is synchronised for writing, unless its mode is 0. -/
theorem Command.operands_write {ctx : Context} {cmd : Command ctx} {op : Operand ctx} (h : op ∈ cmd.operands)
    (hw : op.writable = true) (hm : op.mode.read = true ∨ op.mode.write = true) : op.mode.write = true := by
  have harg : ∀ o : MemObj ctx, op = Operand.argument o → op.mode.write = true := by
    rintro o rfl
    simp only [Operand.argument, Bool.or_eq_true, Bool.not_eq_true'] at *
    grind [SynchronizeMode.syncReadWrite, SynchronizeMode.syncWrite, SynchronizeMode.syncRead]
  cases cmd with
  | ndRangeKernel args =>
    obtain ⟨o, -, rfl⟩ := List.mem_map.1 h
    exact harg o rfl
  | nativeKernel locs =>
    obtain ⟨o, -, rfl⟩ := List.mem_map.1 h
    exact harg o rfl
  | other => cases h
  | _ =>
    simp only [operands, List.mem_cons, List.not_mem_nil, or_false] at h
    grind [Operand.source, Operand.target, Operand.mapped, SynchronizeMode.syncReadWrite]

/-! ## Running a command -/

/-- The bytes of an object that a command reads, and the values it writes. -/
structure Access where
  reads : Nat → Bool
  writes : Nat → Option UInt8

/-- The byte is read or written. -/
def Access.uses (acc : Access) (b : Nat) : Prop := acc.reads b = true ∨ acc.writes b ≠ none

/-- What one run of the command accesses of each of its operands. -/
structure Execution {ctx : Context} (cmd : Command ctx) where
  ops : List (Operand ctx × Access)
  operands : ops.map Prod.fst = cmd.operands
  inside : ∀ p ∈ ops, ∀ b, p.2.uses b → b < p.1.obj.part.size
  allowed : ∀ p ∈ ops, ∀ b, p.2.writes b ≠ none → p.1.writable = true

/-- The state of every main object. -/
abbrev Worlds := Nat → World

variable {ctx : Context}

def synchronizeFor (d : Nat) (w : Worlds) (op : Operand ctx) : Worlds :=
  Function.update w op.obj.root ((w op.obj.root).update (ctx.obj op.obj.root) op.obj.syncRegion op.mode d)

def ensureMemoryCoherency (cmd : Command ctx) (d : Nat) (w : Worlds) : Worlds :=
  cmd.operands.foldl (synchronizeFor d) w

/-- The values of an object that starts at byte `base`. -/
def shift (base : Nat) (values : Nat → Option UInt8) (a : Nat) : Option UInt8 :=
  if base ≤ a then values (a - base) else none

/-- The command writes through the operand's pointer; the bytes are the latest of the part of the main
object that the operand stands for. -/
def writeOperand (d : Nat) (w : Worlds) (p : Operand ctx × Access) : Worlds :=
  let i := p.1.obj.root
  let ptr := p.1.pointer d
  Function.update w i
    { tracker := { (w i).tracker with storage := (w i).tracker.storage.write ptr.1 (shift ptr.2 p.2.writes) }
      latest := fun a => (shift p.1.obj.part.offset p.2.writes a).or ((w i).latest a) }

def execute {cmd : Command ctx} (ex : Execution cmd) (d : Nat) (w : Worlds) : Worlds :=
  ex.ops.foldl (writeOperand d) (ensureMemoryCoherency cmd d w)

end OpenCRun
