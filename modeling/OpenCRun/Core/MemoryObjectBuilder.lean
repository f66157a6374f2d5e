import Mathlib.Data.BitVec
import OpenCRun.Core.SubObject
/-!
# Building memory objects

`MemoryObjectBuilder` of `MemoryObject.cpp`, as the entry points call it. A
setter that reports an error does not stop the ones after it. A check says
that an assertion holds, in a build that has them, or that a pointer is set.
-/
open Lib

namespace OpenCRun

/-! ## Flags -/

namespace MemFlags

def HostPtrModeMask : MemFlags := UseHostPtr ||| AllocHostPtr ||| CopyHostPtr
def AccessProtectionMask : MemFlags := ReadWrite ||| WriteOnly ||| ReadOnly
def CanReadMask : MemFlags := ReadOnly ||| ReadWrite
def CanWriteMask : MemFlags := WriteOnly ||| ReadWrite
def HostAccessProtectionMask : MemFlags := HostNoAccess ||| HostWriteOnly ||| HostReadOnly
def AllFlags : MemFlags := HostPtrModeMask ||| AccessProtectionMask ||| HostAccessProtectionMask

end MemFlags

/-- `cl_mem_flags`, the word that a caller gives. -/
abbrev CLMemFlags := BitVec 64

namespace CLMemFlags

/-- The flags of an object, in a word of the caller's width. -/
def ofFlags (flags : MemFlags) : CLMemFlags := flags.setWidth 64

def has (flags : CLMemFlags) (mask : MemFlags) : Bool := flags &&& ofFlags mask != 0#64

/-- How many of three flags are given: `A + B + C`. -/
def count (flags : CLMemFlags) (a b c : MemFlags) : Nat := (flags.has a).toNat + (flags.has b).toNat + (flags.has c).toNat

/-- `RO + WO + RW`. -/
def accessCount (flags : CLMemFlags) : Nat := flags.count MemFlags.ReadOnly MemFlags.WriteOnly MemFlags.ReadWrite

/-- `HRO + HWO + HNA`. -/
def hostAccessCount (flags : CLMemFlags) : Nat :=
  flags.count MemFlags.HostReadOnly MemFlags.HostWriteOnly MemFlags.HostNoAccess

/-- `UHP + AHP + CHP`. -/
def hostPtrCount (flags : CLMemFlags) : Nat :=
  flags.count MemFlags.UseHostPtr MemFlags.AllocHostPtr MemFlags.CopyHostPtr

/-- `Flags & ~AllFlags`. -/
def illegal (flags : CLMemFlags) : Bool := flags &&& ~~~ofFlags MemFlags.AllFlags != 0#64

theorem or_ne_zero (x y : CLMemFlags) : (x ||| y != 0#64) = (x != 0#64 || y != 0#64) := by
  rw [Bool.eq_iff_iff]
  simp only [bne_iff_ne, Bool.or_eq_true, ne_eq, BitVec.or_eq_zero_iff, not_and_or]

theorem has_or (flags other : CLMemFlags) (m : MemFlags) : (flags ||| other).has m = (flags.has m || other.has m) := by
  have hdist : (flags ||| other) &&& ofFlags m = (flags &&& ofFlags m) ||| (other &&& ofFlags m) := by
    ext i hi
    simp [Bool.and_or_distrib_right]
  rw [has, hdist, or_ne_zero]
  rfl

theorem has_mask_or (flags : CLMemFlags) (m n : MemFlags) : flags.has (m ||| n) = (flags.has m || flags.has n) := by
  have hdist : flags &&& ofFlags (m ||| n) = (flags &&& ofFlags m) ||| (flags &&& ofFlags n) := by
    ext i hi
    simp [ofFlags, Bool.and_or_distrib_left]
  rw [has, hdist, or_ne_zero]
  rfl

theorem has_ofFlags (flags m : MemFlags) (mask : MemFlags) :
    (ofFlags (flags &&& mask)).has m = (ofFlags flags).has (mask &&& m) := by
  have hand : ofFlags (flags &&& mask) &&& ofFlags m = ofFlags flags &&& ofFlags (mask &&& m) := by
    simp only [ofFlags, BitVec.setWidth_and, BitVec.and_assoc]
  rw [has, hand]
  rfl

/-- Flags of one kind are not flags of another. -/
theorem has_ofFlags_and (flags : MemFlags) {mask m : MemFlags} (h : mask &&& m = 0) :
    (ofFlags (flags &&& mask)).has m = false := by
  rw [has_ofFlags, h]
  simp [has, ofFlags]

/-- Nothing is lost in the object's word. -/
theorem has_setWidth (flags : CLMemFlags) (m : MemFlags) : (ofFlags (flags.setWidth 16)).has m = flags.has m := by
  have hand : ofFlags (flags.setWidth 16) &&& ofFlags m = flags &&& ofFlags m := by
    ext i hi
    simp only [ofFlags, BitVec.getElem_and, BitVec.getElem_setWidth, BitVec.getLsbD_setWidth]
    by_cases hlt : i < 16
    · simp [hlt, BitVec.getLsbD_eq_getElem hi]
    · simp [hlt, BitVec.getLsbD_of_ge m i (Nat.not_lt.1 hlt)]
  rw [has, hand]
  rfl

end CLMemFlags

/-! ## The builder -/

inductive MemoryErrCode where
  | success
  | invalidContext
  | invalidValue
  | invalidMemObject
  | invalidBufferSize
  | invalidHostPtr
  | invalidImageFormatDescriptor
  | invalidImageDescriptor
  | invalidImageSize
  | imageFormatNotSupported
  | outOfHostMemory
  deriving DecidableEq, Repr

inductive ImageType where
  | image1D
  | image1DArray
  | image1DBuffer
  | image2D
  | image2DArray
  | image3D
  deriving DecidableEq, Repr

/-- What the builder keeps of an image. -/
structure ImageParams where
  type : Option ImageType := none
  buf : Option Buffer := none
  size : Nat := 0
  deriving DecidableEq

structure BufferRegion where
  origin : BitVec 64
  size : BitVec 64
  deriving DecidableEq, Repr

/-- What `create` passes to a constructor. -/
inductive Created where
  | buffer (size : Nat) (hostPtr : Option Nat) (flags : MemFlags)
  | subBuffer (parent : Option Buffer) (origin size : Nat) (flags : MemFlags)
  | image (img : ImageParams) (hostPtr : Option Nat) (flags : MemFlags)
  deriving DecidableEq

def Created.getFlags : Created → MemFlags
  | buffer _ _ flags => flags
  | subBuffer _ _ _ flags => flags
  | image _ _ flags => flags

namespace MemoryObjectBuilder

inductive Kind where
  | buffer
  | subBuffer
  | image
  deriving DecidableEq, Repr

/-- The union of the builder. -/
inductive Params where
  | buf (size : Nat)
  | subBuf (parent : Option Buffer) (origin size : Nat)
  | img (img : ImageParams)
  deriving DecidableEq

/-- `Buf.Size`; the first word of a sub-buffer's parameters is the pointer to its parent. -/
def Params.bufSize (address : Buffer → Nat) : Params → Nat
  | buf size => size
  | subBuf parent _ _ => parent.elim 0 address
  | img _ => 0

/-- `SubBuf.Parent`. -/
def Params.parent : Params → Option Buffer
  | subBuf parent _ _ => parent
  | _ => none

/-- Writing `SubBuf.Parent`. The other two words are never read unless the union began as a sub-buffer's. -/
def Params.setParent (p : Params) (parent : Buffer) : Params :=
  match p with
  | subBuf _ origin size => subBuf (some parent) origin size
  | _ => subBuf (some parent) 0 0

end MemoryObjectBuilder

open MemoryObjectBuilder

structure MemoryObjectBuilder where
  kind : Kind
  ctx : Option Nat := none
  flags : MemFlags := 0
  hostPtr : Option Nat := none
  params : Params
  err : MemoryErrCode := .success
  diagnostics : List String := []
  deriving DecidableEq

namespace MemoryObjectBuilder

def new (kind : Kind) : MemoryObjectBuilder :=
  { kind
    params := match kind with
      | .buffer => .buf 0
      | .subBuffer => .subBuf none 0 0
      | .image => .img {} }

/-- An error is reported to the context. -/
def error (b : MemoryObjectBuilder) (err : MemoryErrCode) (msg : String) : Checked MemoryObjectBuilder := do
  Checked.check b.ctx.isSome
  return { b with err, diagnostics := b.diagnostics ++ [msg] }

def setContext (b : MemoryObjectBuilder) (ctx : Option Nat) : Checked MemoryObjectBuilder :=
  match ctx with
  | none => b.error .invalidContext "invalid context"
  | some ctx => pure { b with ctx := some ctx }

def setBufferSize (b : MemoryObjectBuilder) (size : Nat) : Checked MemoryObjectBuilder :=
  if size = 0 then b.error .invalidBufferSize "empty buffer"
  else pure { b with params := .buf size }

/-- `setImage`: it stores an image, in part where it reports an error. -/
def setImage (b : MemoryObjectBuilder) (img : ImageParams) (err : Option (MemoryErrCode × String)) :
    Checked MemoryObjectBuilder :=
  let b := { b with params := .img img }
  match err with
  | none => pure b
  | some (err, msg) => b.error err msg

/-- `CL_BUFFER_CREATE_TYPE_REGION`. -/
def bufferCreateTypeRegion : Nat := 0x1220

/-- `context` is what `getContext` of an object gives. -/
def setSubBufferParams (b : MemoryObjectBuilder) (context : MemoryObject → Nat) (mem : Option MemoryObject) (bct : Nat)
    (bci : Option BufferRegion) : Checked MemoryObjectBuilder :=
  match mem with
  | some (.buffer buf) =>
    if buf.isSubBuffer then b.error .invalidMemObject "cannot create a sub-buffer of sub-buffer"
    else
      let b := { b with params := b.params.setParent buf, ctx := some (context (.buffer buf)) }
      if bct ≠ bufferCreateTypeRegion then b.error .invalidValue "invalid buffer_create_type value"
      else
        match bci with
        | none => b.error .invalidValue "null buffer_create_info value"
        | some br =>
          if br.size = 0 then b.error .invalidBufferSize "empty sub-buffer"
          else if (br.origin + br.size).toNat > buf.getSize then b.error .invalidValue "out of bounds sub-buffer"
          else pure b
  | _ => b.error .invalidMemObject "invalid memory object"

/-- `SubBuf.Parent->getFlags()`. -/
def parentFlags (b : MemoryObjectBuilder) : Checked MemFlags := do
  Checked.check b.params.parent.isSome
  return (b.params.parent.map Buffer.getFlags).getD 0

def setSubBufferFlags (ndebug : Bool) (b : MemoryObjectBuilder) (flags : CLMemFlags) : Checked MemoryObjectBuilder := do
  Checked.check (ndebug || b.kind == .subBuffer)
  if flags.illegal then b.error .invalidValue "illegal flags"
  else if flags = 0 then do
    let parent ← b.parentFlags
    return { b with flags := parent }
  else if flags.accessCount > 1 then b.error .invalidValue "multiple access protection flags not allowed"
  else do
    let flags ← if flags.accessCount = 0 then do
        let parent ← b.parentFlags
        pure (.ofFlags (parent &&& MemFlags.AccessProtectionMask))
      else pure flags
    if flags.hostAccessCount > 0 then
      b.error .invalidValue "multiple host access protection flags not allowed"
    else if flags.hostPtrCount ≠ 0 then
      b.error .invalidValue "memory object storage specifiers not allowed"
    else do
      let parent ← b.parentFlags
      return { b with flags := parent &&& MemFlags.HostPtrModeMask }

/-- The part of `setGenericFlags` that is about one object. -/
def checkFlags (flags : CLMemFlags) (hostPtr : Option Nat) : Except (MemoryErrCode × String) CLMemFlags :=
  if flags.illegal then .error (.invalidValue, "illegal flags")
  else if flags = 0 then .ok (.ofFlags MemFlags.ReadWrite)
  else if flags.accessCount > 1 then .error (.invalidValue, "multiple access protection flags not allowed")
  else if flags.hostAccessCount > 1 then .error (.invalidValue, "multiple host access protection flags not allowed")
  else
    let uhp := flags.has MemFlags.UseHostPtr
    let ahp := flags.has MemFlags.AllocHostPtr
    let chp := flags.has MemFlags.CopyHostPtr
    if (uhp || chp) && hostPtr.isNone then .error (.invalidHostPtr, "missed pointer to initialization data")
    else if uhp.toNat + ahp.toNat > 1 ∨ uhp.toNat + chp.toNat > 1 then
      .error (.invalidValue, "multiple memory object storage specifiers not allowed")
    else .ok flags

/-- `Image1D_Buffer` additional checks, and what it inherits from its buffer. -/
def inheritFlags (buf : MemFlags) (flags : CLMemFlags) : Except (MemoryErrCode × String) CLMemFlags :=
  if (flags.has MemFlags.CanReadMask && buf.has MemFlags.WriteOnly) ||
      (flags.has MemFlags.CanWriteMask && buf.has MemFlags.ReadOnly) then
    .error (.invalidValue, "access mode incompatible with buffer")
  else if (flags.has MemFlags.HostReadOnly && buf.has MemFlags.HostWriteOnly) ||
      (flags.has MemFlags.HostWriteOnly && buf.has MemFlags.HostReadOnly) ||
      (flags.has MemFlags.HostNoAccess && (buf.has MemFlags.HostWriteOnly || buf.has MemFlags.HostReadOnly)) then
    .error (.invalidValue, "host access mode incompatible with buffer")
  else if flags.has MemFlags.HostPtrModeMask then .error (.invalidValue, "host-ptr mode shall not be specified")
  else
    let flags := flags ||| .ofFlags (buf &&& MemFlags.HostPtrModeMask)
    let flags := if flags.has MemFlags.AccessProtectionMask then flags
      else flags ||| .ofFlags (buf &&& MemFlags.AccessProtectionMask)
    .ok (if flags.has MemFlags.HostAccessProtectionMask then flags
      else flags ||| .ofFlags (buf &&& MemFlags.HostAccessProtectionMask))

/-- The buffer of an `Image1D_Buffer`, in the builder of an image. -/
def imageBuffer (b : MemoryObjectBuilder) : Option (Option Buffer) :=
  match b.kind, b.params with
  | .image, .img img => if img.type = some .image1DBuffer then some img.buf else none
  | _, _ => none

def setGenericFlags (ndebug : Bool) (b : MemoryObjectBuilder) (flags : CLMemFlags) (hostPtr : Option Nat) :
    Checked MemoryObjectBuilder := do
  Checked.check (ndebug || b.kind != .subBuffer)
  match checkFlags flags hostPtr with
  | .error (err, msg) => b.error err msg
  | .ok flags =>
    match b.imageBuffer with
    | none => return { b with flags := flags.setWidth 16, hostPtr }
    | some buf => do
      Checked.check buf.isSome
      match inheritFlags ((buf.map Buffer.getFlags).getD 0) flags with
      | .error (err, msg) => b.error err msg
      | .ok flags => return { b with flags := flags.setWidth 16, hostPtr }

/-- The constructor that `create` calls. -/
def object (b : MemoryObjectBuilder) (address : Buffer → Nat) : Created :=
  match b.kind, b.params with
  | .subBuffer, .subBuf parent origin size => .subBuffer parent origin size b.flags
  | .image, .img img => .image img b.hostPtr b.flags
  | _, params => .buffer (params.bufSize address) b.hostPtr b.flags

/-- The object, if there is one, and the error code. `init` is what `initForDevices` says; the object
is returned when it fails, too. -/
def create (b : MemoryObjectBuilder) (address : Buffer → Nat) (init : Bool) :
    Checked (Option Created × MemoryErrCode) :=
  if b.err ≠ .success then pure (none, b.err)
  else do
    Checked.check (b.ctx.isSome && (b.kind != .subBuffer || b.params.parent.isSome))
    let obj := b.object address
    if init then return (some obj, .success)
    else do
      let b ← b.error .outOfHostMemory "out of host memory"
      return (some obj, b.err)

/-! ## What becomes of the flags -/

theorem checkFlags_code {flags : CLMemFlags} {hostPtr : Option Nat} {e : MemoryErrCode × String}
    (h : checkFlags flags hostPtr = .error e) : e.1 = .invalidValue ∨ e.1 = .invalidHostPtr := by
  unfold checkFlags at h
  simp only at h
  split_ifs at h <;> (obtain rfl := Except.error.inj h; simp)

theorem inheritFlags_code {buf : MemFlags} {flags : CLMemFlags} {e : MemoryErrCode × String}
    (h : inheritFlags buf flags = .error e) : e.1 = .invalidValue := by
  unfold inheritFlags at h
  simp only at h
  split_ifs at h <;> (obtain rfl := Except.error.inj h; rfl)

/-- An error is one. -/
theorem checkFlags_error {flags : CLMemFlags} {hostPtr : Option Nat} {e : MemoryErrCode × String}
    (h : checkFlags flags hostPtr = .error e) : e.1 ≠ .success := by
  intro he
  rcases checkFlags_code h with hcode | hcode <;> cases he.symm.trans hcode

theorem inheritFlags_error {buf : MemFlags} {flags : CLMemFlags} {e : MemoryErrCode × String}
    (h : inheritFlags buf flags = .error e) : e.1 ≠ .success := by
  intro he
  cases he.symm.trans (inheritFlags_code h)

/-- The word passes, and what it takes from a buffer. -/
def PassesFlags (b : MemoryObjectBuilder) (flags : CLMemFlags) (hostPtr : Option Nat) : Prop :=
  ∃ f, checkFlags flags hostPtr = .ok f ∧
    ∀ buf, b.imageBuffer = some buf → (inheritFlags ((buf.map Buffer.getFlags).getD 0) f).isOk = true

section SetGenericFlags
variable {b : MemoryObjectBuilder} {ndebug : Bool} {flags : CLMemFlags} {hostPtr : Option Nat}

theorem setGenericFlags_passed (h : b.PassesFlags flags hostPtr) :
    ∃ f, (b.setGenericFlags ndebug flags hostPtr).val = { b with flags := f, hostPtr } := by
  obtain ⟨f, hcheck, hinherit⟩ := h
  unfold setGenericFlags
  rw [Checked.val_bind, hcheck]
  cases hbuf : b.imageBuffer with
  | none => exact ⟨_, rfl⟩
  | some buf =>
    have hok := hinherit buf hbuf
    simp only [Checked.val_bind]
    cases hflags : inheritFlags ((buf.map Buffer.getFlags).getD 0) f with
    | error e =>
      rw [hflags] at hok
      cases hok
    | ok g => exact ⟨_, rfl⟩

theorem setGenericFlags_refused (h : ¬ b.PassesFlags flags hostPtr) :
    ∃ e msg, (b.setGenericFlags ndebug flags hostPtr).val = (b.error e msg).val ∧
      (e = .invalidValue ∨ e = .invalidHostPtr) := by
  unfold setGenericFlags
  rw [Checked.val_bind]
  cases hcheck : checkFlags flags hostPtr with
  | error e => exact ⟨e.1, e.2, rfl, checkFlags_code hcheck⟩
  | ok f =>
    cases hbuf : b.imageBuffer with
    | none => exact absurd ⟨f, hcheck, fun buf h => by rw [hbuf] at h; cases h⟩ h
    | some buf =>
      simp only [Checked.val_bind]
      cases hflags : inheritFlags ((buf.map Buffer.getFlags).getD 0) f with
      | error e => exact ⟨e.1, e.2, rfl, .inl (inheritFlags_code hflags)⟩
      | ok g =>
        refine absurd ⟨f, hcheck, fun buf' h => ?_⟩ h
        cases hbuf.symm.trans h
        rw [hflags]
        rfl

theorem setGenericFlags_err (herr : b.err = .success) :
    (b.setGenericFlags ndebug flags hostPtr).val.err = .success ↔ b.PassesFlags flags hostPtr := by
  constructor
  · intro h
    by_contra hrefused
    obtain ⟨e, msg, hval, hcode⟩ := setGenericFlags_refused hrefused
    rw [hval] at h
    rcases hcode with rfl | rfl <;> cases h
  · intro h
    obtain ⟨f, hval⟩ := setGenericFlags_passed h
    rw [hval]
    exact herr

/-- No pointer that is null is followed. -/
theorem setGenericFlags_ok (hctx : b.ctx.isSome = true) (hkind : b.kind ≠ .subBuffer)
    (hbuf : ∀ buf, b.imageBuffer = some buf → buf.isSome = true) :
    (b.setGenericFlags ndebug flags hostPtr).ok = true := by
  have hassert : (ndebug || b.kind != .subBuffer) = true := by
    rw [bne_iff_ne.2 hkind, Bool.or_true]
  have herror : ∀ err msg, (b.error err msg).ok = true := by
    intro err msg
    simp [error, hctx]
  unfold setGenericFlags
  rw [Checked.ok_bind, Checked.ok_check, hassert, Bool.true_and]
  cases checkFlags flags hostPtr with
  | error e => exact herror _ _
  | ok f =>
    cases himage : b.imageBuffer with
    | none => rfl
    | some buf =>
      simp only
      rw [Checked.ok_bind, Checked.ok_check, hbuf buf himage, Bool.true_and]
      cases inheritFlags ((buf.map Buffer.getFlags).getD 0) f with
      | error e => exact herror _ _
      | ok g => rfl

end SetGenericFlags

end MemoryObjectBuilder

/-! ## Entry points -/

section Entry
variable (ndebug : Bool) (address : Buffer → Nat) (init : Bool)

def clCreateBuffer (ctx : Option Nat) (flags : CLMemFlags) (size : Nat) (hostPtr : Option Nat) :
    Checked (Option Created × MemoryErrCode) := do
  let b ← (MemoryObjectBuilder.new .buffer).setContext ctx
  let b ← b.setBufferSize size
  let b ← b.setGenericFlags ndebug flags hostPtr
  b.create address init

/-- The setters for a sub-buffer, called on a builder of some kind. -/
def createSubBuffer (kind : Kind) (context : MemoryObject → Nat) (mem : Option MemoryObject) (flags : CLMemFlags)
    (bct : Nat) (bci : Option BufferRegion) : Checked (Option Created × MemoryErrCode) := do
  let b ← (MemoryObjectBuilder.new kind).setSubBufferParams context mem bct bci
  let b ← b.setSubBufferFlags ndebug flags
  b.create address init

/-- The builder that it makes is one for a buffer. -/
def clCreateSubBuffer (context : MemoryObject → Nat) (mem : Option MemoryObject) (flags : CLMemFlags) (bct : Nat)
    (bci : Option BufferRegion) : Checked (Option Created × MemoryErrCode) :=
  createSubBuffer ndebug address init .buffer context mem flags bct bci

def clCreateImage (ctx : Option Nat) (flags : CLMemFlags) (img : ImageParams) (err : Option (MemoryErrCode × String))
    (hostPtr : Option Nat) : Checked (Option Created × MemoryErrCode) := do
  let b ← (MemoryObjectBuilder.new .image).setContext ctx
  let b ← b.setImage img err
  let b ← b.setGenericFlags ndebug flags hostPtr
  b.create address init

end Entry

end OpenCRun
