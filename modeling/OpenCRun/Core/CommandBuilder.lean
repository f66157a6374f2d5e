import OpenCRun.Core.ImageCommands
/-!
# Command builders

What the builders of `Command.cpp` share: `CommandBuilder` with its error and
wait list, and the tests that each of them makes on buffers and images. An
error does not stop a builder; the last one is what the caller gets.
-/
namespace OpenCRun

/-! ## Objects -/

/-- A buffer that a caller may name. -/
structure BufferObject where
  buffer : Buffer
  context : Nat
  size_lt : buffer.getSize < 2 ^ 64
  deriving DecidableEq

/-- An image that a caller may name. -/
structure ImageObject where
  image : Image
  main : Main
  context : Nat
  size_eq : main.size = image.size.toNat
  deriving DecidableEq

/-- `cl_mem`. -/
inductive Mem where
  | buffer (b : BufferObject)
  | image (i : ImageObject)
  deriving DecidableEq

namespace BufferObject

def getSize (b : BufferObject) : SizeT := BitVec.ofNat 64 b.buffer.getSize

@[simp] theorem toNat_getSize (b : BufferObject) : b.getSize.toNat = b.buffer.getSize := by
  rw [getSize, BitVec.toNat_ofNat, Nat.mod_eq_of_lt b.size_lt]

/-- A buffer of 16 bytes. -/
def sixteenBytes : BufferObject where
  buffer := .main sixteen
  context := 0
  size_lt := by decide

end BufferObject

/-- The object that the image is. -/
def ImageObject.object (i : ImageObject) : MemoryObject :=
  match i.image.buf with
  | none => .image i.main
  | some buf => .image1DBuffer i.main.id buf i.main.size i.main.flags

/-- `llvm::dyn_cast<Buffer>`, of a pointer. -/
def Mem.buffer? : Option Mem → Option BufferObject
  | some (.buffer b) => some b
  | _ => none

/-- `llvm::dyn_cast<Image>`, of a pointer. -/
def Mem.image? : Option Mem → Option ImageObject
  | some (.image i) => some i
  | _ => none

@[simp] theorem Mem.buffer?_eq_some {mem : Option Mem} {b : BufferObject} :
    Mem.buffer? mem = some b ↔ mem = some (.buffer b) := by
  match mem with
  | none => simp [buffer?]
  | some (.buffer b') => simp [buffer?]
  | some (.image i) => simp [buffer?]

@[simp] theorem Mem.image?_eq_some {mem : Option Mem} {i : ImageObject} :
    Mem.image? mem = some i ↔ mem = some (.image i) := by
  match mem with
  | none => simp [image?]
  | some (.buffer b) => simp [image?]
  | some (.image i') => simp [image?]

/-- A queue, for the builders: its context and its device. -/
structure QueueInfo where
  context : Nat
  device : DeviceInfo

/-- An event, for the builders: its context, and `IsError`. -/
structure WaitEvent where
  context : Nat
  isError : Bool
  deriving DecidableEq, Repr

/-! ## Errors -/

inductive CommandErrCode where
  | invalidValue
  | invalidMemObject
  | invalidOperation
  | invalidContext
  | invalidEventWaitList
  | invalidImageSize
  | imageFormatNotSupported
  | misalignedSubBufferOffset
  | memCopyOverlap
  | mapFailure
  | execStatusErrorForEventsInWaitList
  deriving DecidableEq, Repr

/-- What `NotifyError` is called with. -/
abbrev Report := CommandErrCode × String

/-- A builder with its own fields, and the errors that it has reported. -/
structure CommandBuilder (α : Type) where
  ctx : Nat
  params : α
  waitList : List WaitEvent := []
  reports : List Report := []

/-- A command takes over the builder's fields. -/
structure Built (α : Type) where
  params : α
  waitList : List WaitEvent

/-- A setter of a builder: the new fields, and the error that it returns with. -/
abbrev Setter (α : Type) := α → α × Option Report

namespace CommandBuilder

variable {α : Type}

/-- `ErrCode`; `none` is `CL_SUCCESS`. -/
def errCode (b : CommandBuilder α) : Option CommandErrCode := b.reports.getLast?.map Prod.fst

def call (b : CommandBuilder α) (f : Setter α) : CommandBuilder α :=
  { b with params := (f b.params).1, reports := b.reports ++ (f b.params).2.toList }

def create (b : CommandBuilder α) : Except CommandErrCode (Built α) :=
  match b.errCode with
  | some e => .error e
  | none => .ok ⟨b.params, b.waitList⟩

/-- The loop of `CommandBuilder::SetWaitList`; it returns at a null event. -/
def pushEvents : List (Option WaitEvent) → List WaitEvent × Option Report
  | [] => ([], none)
  | none :: _ => ([], some (.invalidEventWaitList, "invalid event"))
  | some ev :: evs => (ev :: (pushEvents evs).1, (pushEvents evs).2)

/-- `CommandBuilder::SetWaitList`; an array of `n` events, or null. -/
def baseWaitList (n : Nat) (evs : Option (Nat → Option WaitEvent)) : List WaitEvent × Option Report :=
  match evs with
  | none => ([], if n ≠ 0 then some (.invalidEventWaitList, "expected events wait list") else none)
  | some evs =>
    if n = 0 then ([], some (.invalidEventWaitList, "unexpected events wait list"))
    else pushEvents ((List.range n).map evs)

def isWaitListInconsistent (waitList : List WaitEvent) : Bool := waitList.any (·.isError)

/-- What a builder asks of the events that it has. -/
def checkEvents (ctx : Nat) (blocking : Bool) (waitList : List WaitEvent) : Option Report :=
  if blocking && isWaitListInconsistent waitList then
    some (.execStatusErrorForEventsInWaitList, "cannot block on an inconsistent wait list")
  else if waitList.any (·.context != ctx) then
    some (.invalidContext, "command queue and event in wait list with different context")
  else none

/-- `SetWaitList` of a builder, which goes on after an error of the base class. -/
def setWaitList (blocking : α → Bool) (n : Nat) (evs : Option (Nat → Option WaitEvent)) (b : CommandBuilder α) :
    CommandBuilder α :=
  let base := baseWaitList n evs
  let waitList := b.waitList ++ base.1
  { b with
    waitList
    reports := b.reports ++ base.2.toList ++ (checkEvents b.ctx (blocking b.params) waitList).toList }

/-- `SetBlocking`; `set` is the assignment. -/
def setBlocking (blocking : Bool) (set : α → α) (b : CommandBuilder α) : CommandBuilder α :=
  if blocking && isWaitListInconsistent b.waitList then
    { b with reports := b.reports ++
        [(.execStatusErrorForEventsInWaitList, "cannot block on an inconsistent wait list")] }
  else { b with params := set b.params }

end CommandBuilder

/-! ## The tests of the constructors -/

/-- The messages of a constructor's tests on a buffer, and the flags of the host access that it refuses. -/
structure BufferTests where
  null : String
  notBuffer : String
  misaligned : String
  denied : List MemFlags := []
  operation : String := ""
  context : String

/-- A chain of tests; after the one on the alignment of a sub-buffer there are no others for it. -/
def checkBuffer (t : BufferTests) (q : QueueInfo) (mem : Option Mem) : Option Report :=
  match mem with
  | none => some (.invalidMemObject, t.null)
  | some (.image _) => some (.invalidMemObject, t.notBuffer)
  | some (.buffer buf) =>
    if buf.buffer.isSubBuffer then
      if q.device.memoryBaseAddressAlignment ≠ 0 ∧
          buf.buffer.getParentOffset % q.device.memoryBaseAddressAlignment ≠ 0 then
        some (.misalignedSubBufferOffset, t.misaligned)
      else none
    else if t.denied.any buf.buffer.getFlags.has then some (.invalidOperation, t.operation)
    else if q.context ≠ buf.context then some (.invalidContext, t.context)
    else none

def checkPointer (msg : String) (ptr : Option Nat) : Option Report :=
  if ptr.isNone then some (.invalidValue, msg) else none

/-- The dimensions of an image, against the limits of a device. -/
def exceedsLimits (d : DeviceInfo) (img : Image) : Bool :=
  match img.type with
  | .image1DArray | .image2DArray => img.getArraySize > d.imageMaxArraySize
  | .image1D => img.getWidth > d.image2DMaxWidth
  | .image1DBuffer => img.getWidth > d.imageMaxBufferSize
  | .image2D => decide (img.getWidth > d.image2DMaxWidth) || decide (img.getHeight > d.image2DMaxHeight)
  | .image3D => decide (img.getWidth > d.image3DMaxWidth) || decide (img.getHeight > d.image3DMaxHeight) ||
      decide (img.getDepth > d.image3DMaxDepth)

/-- `CheckDevImgSupport`; the size is reported with one of two texts. -/
def checkDevImgSupport (q : QueueInfo) (img : Image) : List Report :=
  let sizeMsg := if img.type = .image3D then "image size unsupported by device associated with queue"
    else "image size unsupported by target device associated with queue"
  (if exceedsLimits q.device img then [(.invalidImageSize, sizeMsg)] else []) ++
    if q.device.isImageFormatSupported img.format then []
    else [(.imageFormatNotSupported, "image format unsupported by device associated with queue")]

/-! ## What the steps report -/

namespace CommandBuilder

variable {α : Type} {b b' b'' : CommandBuilder α}

/-- A step adds reports: none exactly if `ok`, and none that the operation is invalid. -/
def Adds (b b' : CommandBuilder α) (ok : Prop) : Prop :=
  ∃ rs, b'.reports = b.reports ++ rs ∧ (rs = [] ↔ ok) ∧ ∀ r ∈ rs, r.1 ≠ .invalidOperation

theorem Adds.trans {p q : Prop} (h : Adds b b' p) (h' : Adds b' b'' q) : Adds b b'' (p ∧ q) := by
  obtain ⟨rs, heq, hnil, hcode⟩ := h
  obtain ⟨rs', heq', hnil', hcode'⟩ := h'
  refine ⟨rs ++ rs', by rw [heq', heq, List.append_assoc], ?_, ?_⟩
  · rw [List.append_eq_nil_iff, hnil, hnil']
  · intro r hr
    exact (List.mem_append.1 hr).elim (hcode r) (hcode' r)

theorem Adds.congr {p q : Prop} (h : Adds b b' p) (hpq : p ↔ q) : Adds b b' q :=
  let ⟨rs, heq, hnil, hcode⟩ := h
  ⟨rs, heq, hnil.trans hpq, hcode⟩

theorem adds_of_option {ok : Prop} {r : Option Report} (heq : b'.reports = b.reports ++ r.toList)
    (hnone : r = none ↔ ok) (hcode : ∀ x, r = some x → x.1 ≠ .invalidOperation) : Adds b b' ok :=
  ⟨r.toList, heq, by rw [Option.toList_eq_nil_iff, hnone], fun x hx => hcode x (Option.mem_toList.1 hx)⟩

theorem create_ok_iff {cmd : Built α} :
    b.create = .ok cmd ↔ b.reports = [] ∧ cmd = ⟨b.params, b.waitList⟩ := by
  unfold create errCode
  cases h : b.reports.getLast? with
  | none =>
    rw [List.getLast?_eq_none_iff] at h
    simp [h, eq_comm (a := cmd)]
  | some r =>
    have hne : b.reports ≠ [] := fun hnil => by simp [hnil] at h
    simp [hne]

theorem Adds.reports_eq_nil_iff {p : Prop} (h : Adds b b' p) : b'.reports = [] ↔ b.reports = [] ∧ p := by
  obtain ⟨rs, heq, hnil, -⟩ := h
  rw [heq, List.append_eq_nil_iff, hnil]

/-- The builder has reported that the operation is invalid: that a buffer does not permit it. -/
def Refuses (b : CommandBuilder α) : Prop := ∃ r ∈ b.reports, r.1 = .invalidOperation

theorem Adds.refuses_iff {p : Prop} (h : Adds b b' p) : b'.Refuses ↔ b.Refuses := by
  obtain ⟨rs, heq, -, hcode⟩ := h
  constructor
  · rintro ⟨r, hr, hop⟩
    rw [heq, List.mem_append] at hr
    exact hr.elim (fun hr => ⟨r, hr, hop⟩) fun hr => absurd hop (hcode r hr)
  · rintro ⟨r, hr, hop⟩
    exact ⟨r, heq ▸ List.mem_append_left _ hr, hop⟩

@[simp] theorem call_params (f : Setter α) : (b.call f).params = (f b.params).1 := rfl
@[simp] theorem call_ctx (f : Setter α) : (b.call f).ctx = b.ctx := rfl

theorem adds_call {f : Setter α} {ok : Prop} (hnone : (f b.params).2 = none ↔ ok)
    (hcode : ∀ r, (f b.params).2 = some r → r.1 ≠ .invalidOperation) : Adds b (b.call f) ok :=
  adds_of_option rfl hnone hcode

/-- When a builder is told to block, it has no events yet. -/
theorem setBlocking_eq {blocking : Bool} {set : α → α} (h : b.waitList = []) :
    b.setBlocking blocking set = { b with params := set b.params } := by
  simp [setBlocking, h, isWaitListInconsistent]

theorem pushEvents_forall (Q : WaitEvent → Prop) {l : List (Option WaitEvent)} :
    ((pushEvents l).2 = none ∧ ∀ ev ∈ (pushEvents l).1, Q ev) ↔ ∀ e ∈ l, ∃ ev, e = some ev ∧ Q ev := by
  induction l with
  | nil => simp [pushEvents]
  | cons e l ih =>
    cases e with
    | none => simp [pushEvents]
    | some e =>
      simp only [pushEvents, List.forall_mem_cons, ← ih, Option.some.injEq, exists_eq_left']
      tauto

theorem pushEvents_code {l : List (Option WaitEvent)} {r : Report} (h : (pushEvents l).2 = some r) :
    r.1 = .invalidEventWaitList := by
  induction l with
  | nil => cases h
  | cons e l ih =>
    cases e with
    | none => cases h; rfl
    | some e => exact ih h

end CommandBuilder

/-- What is asked of a wait list. -/
def WaitListAccepted (ctx : Nat) (blocking : Bool) (n : Nat) : Option (Nat → Option WaitEvent) → Prop
  | none => n = 0
  | some evs =>
    n ≠ 0 ∧ ∀ i < n, ∃ ev, evs i = some ev ∧ ev.context = ctx ∧ (blocking = true → ev.isError = false)

namespace CommandBuilder

variable {α : Type} {b : CommandBuilder α}

theorem baseWaitList_code {n : Nat} {evs : Option (Nat → Option WaitEvent)} {r : Report}
    (h : (baseWaitList n evs).2 = some r) : r.1 = .invalidEventWaitList := by
  cases evs with
  | none =>
    simp only [baseWaitList] at h
    split at h <;> cases h
    rfl
  | some evs =>
    simp only [baseWaitList] at h
    split at h
    · cases h; rfl
    · exact pushEvents_code h

theorem checkEvents_eq_none {ctx : Nat} {blocking : Bool} {waitList : List WaitEvent} :
    checkEvents ctx blocking waitList = none ↔
      ∀ ev ∈ waitList, ev.context = ctx ∧ (blocking = true → ev.isError = false) := by
  unfold checkEvents isWaitListInconsistent
  split
  · next h =>
    obtain ⟨hb, ev, hev, herr⟩ := by simpa only [Bool.and_eq_true, List.any_eq_true] using h
    exact iff_of_false nofun fun hall => by simp [(hall ev hev).2 hb] at herr
  · split <;> simp_all

theorem checkEvents_code {ctx : Nat} {blocking : Bool} {waitList : List WaitEvent} {r : Report}
    (h : checkEvents ctx blocking waitList = some r) : r.1 ≠ .invalidOperation := by
  unfold checkEvents at h
  split at h
  · cases h; simp
  · split at h <;> cases h
    simp

theorem adds_setWaitList {blocking : α → Bool} {n : Nat} {evs : Option (Nat → Option WaitEvent)}
    (h : b.waitList = []) :
    Adds b (b.setWaitList blocking n evs) (WaitListAccepted b.ctx (blocking b.params) n evs) := by
  simp only [setWaitList, h, List.nil_append]
  refine ⟨_, List.append_assoc .., ?_, ?_⟩
  · rw [List.append_eq_nil_iff, Option.toList_eq_nil_iff, Option.toList_eq_nil_iff, checkEvents_eq_none]
    cases evs with
    | none => simp [baseWaitList, WaitListAccepted]
    | some evs =>
      by_cases hn : n = 0
      · simp [baseWaitList, WaitListAccepted, hn]
      · simp [baseWaitList, WaitListAccepted, hn, pushEvents_forall]
  · intro r hr
    rcases List.mem_append.1 hr with hr | hr
    · simp [baseWaitList_code (Option.mem_toList.1 hr)]
    · exact checkEvents_code (Option.mem_toList.1 hr)

@[simp] theorem setWaitList_params (blocking : α → Bool) (n : Nat) (evs : Option (Nat → Option WaitEvent)) :
    (b.setWaitList blocking n evs).params = b.params := rfl

end CommandBuilder

/-! ## What the constructors ask of buffers -/

/-- A sub-buffer is aligned for the device. -/
def QueueInfo.Aligned (q : QueueInfo) (buf : BufferObject) : Prop :=
  q.device.memoryBaseAddressAlignment = 0 ∨ buf.buffer.getParentOffset % q.device.memoryBaseAddressAlignment = 0

namespace BufferTests

/-- What the chain of tests lets pass. -/
def Admits (t : BufferTests) (q : QueueInfo) (buf : BufferObject) : Prop :=
  if buf.buffer.isSubBuffer then q.Aligned buf
  else (∀ m ∈ t.denied, buf.buffer.getFlags.has m = false) ∧ buf.context = q.context

theorem checkBuffer_eq_none {t : BufferTests} {q : QueueInfo} {mem : Option Mem} :
    checkBuffer t q mem = none ↔ ∃ buf, mem = some (.buffer buf) ∧ t.Admits q buf := by
  match mem with
  | none => simp [checkBuffer]
  | some (.image img) => simp [checkBuffer]
  | some (.buffer buf) =>
    simp only [checkBuffer, Admits, Option.some.injEq, Mem.buffer.injEq, exists_eq_left']
    split
    · simp only [QueueInfo.Aligned, ite_eq_right_iff, reduceCtorEq, imp_false]
      tauto
    · by_cases hd : t.denied.any buf.buffer.getFlags.has = true
      · obtain ⟨m, hm, hhas⟩ := List.any_eq_true.1 hd
        rw [if_pos hd]
        exact iff_of_false nofun fun h => by simp [h.1 m hm] at hhas
      · have hnot : ∀ m ∈ t.denied, buf.buffer.getFlags.has m = false := by simpa using hd
        simp only [hd, Bool.false_eq_true, if_false, ite_eq_right_iff, reduceCtorEq, imp_false, not_not]
        exact ⟨fun h => ⟨hnot, h.symm⟩, fun h => h.2.symm⟩

/-- The flags of a buffer with memory of its own refuse the host access. -/
def Denies (t : BufferTests) (buf : BufferObject) : Prop :=
  buf.buffer.isSubBuffer = false ∧ ∃ m ∈ t.denied, buf.buffer.getFlags.has m = true

theorem checkBuffer_invalidOperation {t : BufferTests} {q : QueueInfo} {mem : Option Mem} :
    (∃ r, checkBuffer t q mem = some r ∧ r.1 = .invalidOperation) ↔
      ∃ buf, mem = some (.buffer buf) ∧ t.Denies buf := by
  match mem with
  | none => simp [checkBuffer]
  | some (.image img) => simp [checkBuffer]
  | some (.buffer buf) =>
    simp only [checkBuffer, Denies, Option.some.injEq, Mem.buffer.injEq, exists_eq_left']
    split
    · next hsub => split <;> simp [hsub]
    · next hsub =>
      by_cases hd : t.denied.any buf.buffer.getFlags.has = true
      · rw [if_pos hd]
        exact iff_of_true ⟨_, rfl, rfl⟩ ⟨by simpa using hsub, List.any_eq_true.1 hd⟩
      · have hnot : ¬ ∃ m ∈ t.denied, buf.buffer.getFlags.has m = true := fun h => hd (List.any_eq_true.2 h)
        rw [if_neg hd]
        split <;> simp [hnot]

theorem checkBuffer_code {t : BufferTests} {q : QueueInfo} {mem : Option Mem} {r : Report} (ht : t.denied = [])
    (h : checkBuffer t q mem = some r) : r.1 ≠ .invalidOperation := by
  intro hr
  obtain ⟨buf, -, -, m, hm, -⟩ := checkBuffer_invalidOperation.1 ⟨r, h, hr⟩
  rw [ht] at hm
  cases hm

end BufferTests

theorem checkPointer_eq_none {msg : String} {ptr : Option Nat} : checkPointer msg ptr = none ↔ ptr.isSome = true := by
  cases ptr <;> simp [checkPointer]

theorem checkPointer_code {msg : String} {ptr : Option Nat} {r : Report} (h : checkPointer msg ptr = some r) :
    r.1 ≠ .invalidOperation := by
  cases ptr <;> simp [checkPointer] at h
  rw [← h]
  simp

namespace CommandBuilder

variable {α : Type} {b : CommandBuilder α}

/-- The reports of a constructor are its own steps. -/
theorem adds_new {reports : List Report} {ok : Prop} {ctx : Nat} {params : α} (hnil : reports = [] ↔ ok)
    (hcode : ∀ r ∈ reports, r.1 ≠ .invalidOperation) : Adds { ctx, params } { ctx, params, reports } ok :=
  ⟨reports, rfl, hnil, hcode⟩

theorem Adds.not_refuses {ctx : Nat} {params : α} {ok : Prop} (h : Adds { ctx, params } b ok) : ¬ b.Refuses := by
  rw [h.refuses_iff]
  rintro ⟨r, hr, -⟩
  cases hr

theorem Adds.reports_nil {ctx : Nat} {params : α} {ok : Prop} (h : Adds { ctx, params } b ok) : b.reports = [] ↔ ok := by
  rw [h.reports_eq_nil_iff]
  exact and_iff_right rfl

end CommandBuilder

end OpenCRun
