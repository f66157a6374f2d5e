import OpenCRun.Core.BufferBuilders
/-!
# Builders for images

The builders of the commands that read, write, copy and fill images. They go
on after an error, so each of their tests is on what the ones before it left.
-/
open Lib

namespace OpenCRun

open CommandBuilder

/-! ## The tests of the constructors -/

/-- The messages of a constructor's tests on an image, and the flags of the host access that it refuses. -/
structure ImageAccessTests extends ImageTests where
  denied : List MemFlags := []
  operation : String := ""

def checkImageAccess (t : ImageAccessTests) (q : QueueInfo) (mem : Option Mem) : Option Report :=
  match mem with
  | none => some (.invalidMemObject, t.null)
  | some (.buffer _) => some (.invalidMemObject, t.notImage)
  | some (.image img) =>
    if t.denied.any img.main.flags.has then some (.invalidOperation, t.operation)
    else if q.context ≠ img.context then some (.invalidContext, t.context)
    else none

/-- The device is asked for each image that there is. -/
def checkSupport (q : QueueInfo) (mem : Option Mem) : List Report :=
  (Mem.image? mem).elim [] fun img => checkDevImgSupport q img.image

/-! ## Reading and writing -/

/-- The arguments of `clEnqueueReadImage` and `clEnqueueWriteImage`. -/
structure HostImageArgs where
  image : Option Mem
  blocking : Bool
  origin : Option (Fin 3 → SizeT)
  region : Option (Fin 3 → SizeT)
  rowPitch : SizeT
  slicePitch : SizeT
  pointer : Option Nat
  wl : WaitListArg

/-- The fields of a builder for a copy between an image and the host's memory. The pitches are not initialised. -/
structure HostImageTransfer where
  image : Option ImageObject
  pointer : Option Nat
  blocking : Bool := false
  origin : Option (Fin 3 → SizeT) := none
  region : Option (Fin 3 → SizeT) := none
  rowPitch : Option SizeT := none
  slicePitch : Option SizeT := none

namespace HostImageTransfer

/-- The region is kept when the pitches are refused. -/
def setCopyArea (origin region : Option (Fin 3 → SizeT)) (rowPitch slicePitch : SizeT) : Setter HostImageTransfer :=
  fun p =>
    match p.image with
    | none => (p, none)
    | some img =>
      match origin, region with
      | none, _ => (p, some (.invalidValue, "origin is null"))
      | some _, none => (p, some (.invalidValue, "region is null"))
      | some o, some r =>
        if r 0 = 0 ∨ r 1 = 0 ∨ r 2 = 0 then (p, some (.invalidValue, "invalid region"))
        else
          match isValidImgRegion img.image o r with
          | some msg => (p, some (.invalidValue, msg))
          | none =>
            let p := { p with origin, region }
            let width := r 0 * img.image.getElementSize
            if rowPitch ≠ 0 ∧ rowPitch < width then (p, some (.invalidValue, "invalid row pitch"))
            else
              let row := if rowPitch = 0 then width else rowPitch
              let p := { p with rowPitch := some row }
              if slicePitch ≠ 0 ∧ slicePitch < row * r 1 then (p, some (.invalidValue, "invalid slice pitch"))
              else ({ p with slicePitch := some (if slicePitch = 0 then row * r 1 else slicePitch) }, none)

/-- The calls of an entry point on a new builder. -/
def build (b : CommandBuilder HostImageTransfer) (x : HostImageArgs) : CommandBuilder HostImageTransfer :=
  let b := b.setBlocking x.blocking fun p => { p with blocking := x.blocking }
  (b.call (setCopyArea x.origin x.region x.rowPitch x.slicePitch)).setWaitList (·.blocking) x.wl.n x.wl.evs

end HostImageTransfer

namespace EnqueueReadImageBuilder

def tests : ImageAccessTests where
  null := "read source is null"
  notImage := "read source is not an image"
  denied := [MemFlags.HostWriteOnly, MemFlags.HostNoAccess]
  operation := "invalid read image operation"
  context := "command queue and image have different context"

def new (q : QueueInfo) (image : Option Mem) (target : Option Nat) : CommandBuilder HostImageTransfer where
  ctx := q.context
  params := { image := Mem.image? image, pointer := target }
  reports := (checkImageAccess tests q image).toList ++
    (checkPointer "pointer to data sink is null" target).toList ++ checkSupport q image

def build (q : QueueInfo) (x : HostImageArgs) : CommandBuilder HostImageTransfer :=
  HostImageTransfer.build (new q x.image x.pointer) x

end EnqueueReadImageBuilder

namespace EnqueueWriteImageBuilder

def tests : ImageAccessTests where
  null := "write target is null"
  notImage := "write target is not an image"
  denied := [MemFlags.HostReadOnly, MemFlags.HostNoAccess]
  operation := "invalid write image operation"
  context := "command queue and image have different context"

/-- What is tested for the data source is the target. -/
def new (q : QueueInfo) (image : Option Mem) (source : Option Nat) : CommandBuilder HostImageTransfer where
  ctx := q.context
  params := { image := Mem.image? image, pointer := source }
  reports := (checkImageAccess tests q image).toList ++
    (if (Mem.image? image).isNone then [(.invalidValue, "pointer to data source is null")] else []) ++
    checkSupport q image

def build (q : QueueInfo) (x : HostImageArgs) : CommandBuilder HostImageTransfer :=
  HostImageTransfer.build (new q x.image x.pointer) x

end EnqueueWriteImageBuilder

/-! ## Copying -/

/-- The arguments of `clEnqueueCopyImage`. -/
structure CopyImageArgs where
  source : Option Mem
  target : Option Mem
  sourceOrigin : Option (Fin 3 → SizeT)
  targetOrigin : Option (Fin 3 → SizeT)
  region : Option (Fin 3 → SizeT)
  wl : WaitListArg

structure CopyImage where
  target : Option ImageObject
  source : Option ImageObject
  targetOrigin : Option (Fin 3 → SizeT) := none
  sourceOrigin : Option (Fin 3 → SizeT) := none
  region : Option (Fin 3 → SizeT) := none

/-- The codes of the errors on images; this builder has one of its own. -/
inductive ImageErrCode where
  | command (code : CommandErrCode)
  | imageFormatMismatch
  deriving DecidableEq, Repr

/-- The builder, with the errors that are reported before the formats are compared; `rest` has the later ones. -/
structure EnqueueCopyImageBuilder where
  before : List Report
  mismatch : Bool
  rest : CommandBuilder CopyImage

namespace EnqueueCopyImageBuilder

def targetTests : ImageAccessTests where
  null := "copy target is null"
  notImage := "copy target is not an image"
  context := "command queue and target image have different context"

def sourceTests : ImageAccessTests where
  null := "copy source is null"
  notImage := "copy source is not an image"
  context := "command queue and source image have different context"

/-- The formats, in the last test of the source's chain: it reads both images. -/
def formatsDiffer (q : QueueInfo) (target source : Option Mem) : Checked Bool :=
  match checkImageAccess sourceTests q source with
  | some _ => pure false
  | none => do
    Checked.check (Mem.image? target).isSome
    pure ((Mem.image? target).map (·.image.format) != (Mem.image? source).map (·.image.format))

def new (q : QueueInfo) (target source : Option Mem) : Checked EnqueueCopyImageBuilder := do
  let mismatch ← formatsDiffer q target source
  pure {
    before := (checkImageAccess targetTests q target).toList ++ (checkImageAccess sourceTests q source).toList
    mismatch
    rest := {
      ctx := q.context
      params := { target := Mem.image? target, source := Mem.image? source }
      reports := checkSupport q target ++ checkSupport q source } }

def setCopyArea (targetOrigin sourceOrigin region : Option (Fin 3 → SizeT)) : Setter CopyImage := fun p =>
  match p.target, p.source with
  | some target, some source =>
    match targetOrigin, sourceOrigin, region with
    | some t, some s, some r =>
      if r 0 = 0 ∨ r 1 = 0 ∨ r 2 = 0 then (p, some (.invalidValue, "invalid region"))
      else
        match isValidImgRegion target.image t r, isValidImgRegion source.image s r with
        | some msg, _ => (p, some (.invalidValue, msg))
        | none, some msg => (p, some (.invalidValue, msg))
        | none, none => ({ p with targetOrigin, sourceOrigin, region }, none)
    | some _, some _, none => (p, some (.invalidValue, "region is null"))
    | _, _, _ => (p, some (.invalidValue, "origin is null"))
  | _, _ => (p, none)

def build (q : QueueInfo) (x : CopyImageArgs) : Checked EnqueueCopyImageBuilder := do
  let b ← new q x.target x.source
  pure { b with
    rest := (b.rest.call (setCopyArea x.targetOrigin x.sourceOrigin x.region)).setWaitList (fun _ => false) x.wl.n
      x.wl.evs }

/-- The last error that was reported. -/
def errCode (b : EnqueueCopyImageBuilder) : Option ImageErrCode :=
  match b.rest.errCode with
  | some e => some (.command e)
  | none => if b.mismatch then some .imageFormatMismatch else b.before.getLast?.map (.command ·.1)

def create (b : EnqueueCopyImageBuilder) : Except ImageErrCode (Built CopyImage) :=
  match b.errCode with
  | some e => .error e
  | none => .ok ⟨b.rest.params, b.rest.waitList⟩

end EnqueueCopyImageBuilder

/-! ## Filling -/

/-- The arguments of `clEnqueueFillImage`. -/
structure FillImageArgs where
  image : Option Mem
  fillColor : Option Nat
  origin : Option (Fin 3 → SizeT)
  region : Option (Fin 3 → SizeT)
  wl : WaitListArg

structure FillImage where
  target : Option ImageObject
  source : Option Nat
  targetOrigin : Option (Fin 3 → SizeT) := none
  targetRegion : Option (Fin 3 → SizeT) := none

namespace EnqueueFillImageBuilder

def tests : ImageAccessTests where
  null := "fill target is null"
  notImage := "fill target is not an image"
  context := "command queue and image have different context"

def new (q : QueueInfo) (image : Option Mem) (fillColor : Option Nat) : CommandBuilder FillImage where
  ctx := q.context
  params := { target := Mem.image? image, source := fillColor }
  reports := (checkImageAccess tests q image).toList ++
    (checkPointer "pointer to fill color is null" fillColor).toList ++ checkSupport q image

/-- The origin is kept when the region is refused. -/
def setFillRegion (targetOrigin targetRegion : Option (Fin 3 → SizeT)) : Setter FillImage := fun p =>
  match p.target, targetOrigin, targetRegion with
  | none, _, _ => (p, none)
  | some _, none, _ => (p, some (.invalidValue, "origin is null"))
  | some _, some _, none => ({ p with targetOrigin }, some (.invalidValue, "region is null"))
  | some target, some o, some r =>
    if r 0 = 0 ∨ r 1 = 0 ∨ r 2 = 0 then ({ p with targetOrigin }, some (.invalidValue, "invalid region"))
    else
      match isValidImgRegion target.image o r with
      | some msg => ({ p with targetOrigin }, some (.invalidValue, msg))
      | none => ({ p with targetOrigin, targetRegion }, none)

def build (q : QueueInfo) (x : FillImageArgs) : CommandBuilder FillImage :=
  ((new q x.image x.fillColor).call (setFillRegion x.origin x.region)).setWaitList (fun _ => false) x.wl.n x.wl.evs

end EnqueueFillImageBuilder

/-! ## What the constructors ask of images -/

/-- The image is of the queue's context, and the device can do with it. -/
structure ImageObject.Supported (q : QueueInfo) (img : ImageObject) : Prop where
  context : img.context = q.context
  limits : exceedsLimits q.device img.image = false
  format : q.device.isImageFormatSupported img.image.format = true

/-- The region has pixels, and ends in the image as the machine adds. -/
structure ImageObject.RegionAccepted (img : ImageObject) (o r : Fin 3 → SizeT) : Prop where
  pos : ¬ (r 0 = 0 ∨ r 1 = 0 ∨ r 2 = 0)
  valid : isValidImgRegion img.image o r = none

def ImageAccessTests.Allows (t : ImageAccessTests) (img : ImageObject) : Prop :=
  ∀ m ∈ t.denied, img.main.flags.has m = false

theorem checkImageAccess_eq_none {t : ImageAccessTests} {q : QueueInfo} {mem : Option Mem} :
    checkImageAccess t q mem = none ↔ ∃ img, mem = some (.image img) ∧ t.Allows img ∧ img.context = q.context := by
  match mem with
  | none => simp [checkImageAccess]
  | some (.buffer b) => simp [checkImageAccess]
  | some (.image img) =>
    simp only [checkImageAccess, ImageAccessTests.Allows, Option.some.injEq, Mem.image.injEq, exists_eq_left']
    constructor
    · intro h
      split_ifs at h with hdenied hcontext
      simp only [List.any_eq_true, not_exists, not_and, Bool.not_eq_true] at hdenied
      exact ⟨hdenied, (not_not.1 hcontext).symm⟩
    · rintro ⟨hallows, hcontext⟩
      have hdenied : t.denied.any img.main.flags.has = false := by simpa using hallows
      simp [hdenied, hcontext]

theorem checkSupport_eq_nil {q : QueueInfo} {img : ImageObject} :
    checkSupport q (some (.image img)) = [] ↔
      exceedsLimits q.device img.image = false ∧ q.device.isImageFormatSupported img.image.format = true := by
  simp [checkSupport, checkDevImgSupport, Mem.image?]

/-- The two tests of an image together. -/
theorem checks_eq_nil {t : ImageAccessTests} {q : QueueInfo} {mem : Option Mem} :
    checkImageAccess t q mem = none ∧ checkSupport q mem = [] ↔
      ∃ img, mem = some (.image img) ∧ t.Allows img ∧ img.Supported q := by
  rw [checkImageAccess_eq_none]
  constructor
  · rintro ⟨⟨img, rfl, hallows, hcontext⟩, hsupport⟩
    obtain ⟨hlimits, hformat⟩ := checkSupport_eq_nil.1 hsupport
    exact ⟨img, rfl, hallows, hcontext, hlimits, hformat⟩
  · rintro ⟨img, rfl, hallows, hcontext, hlimits, hformat⟩
    exact ⟨⟨img, rfl, hallows, hcontext⟩, checkSupport_eq_nil.2 ⟨hlimits, hformat⟩⟩

namespace CommandBuilder

variable {α : Type} {b : CommandBuilder α} {f : Setter α} {blocking : α → Bool} {wl : WaitListArg}

/-- A command is created if neither the constructor, nor a setter after it, nor the wait list has an error. -/
theorem create_call_ok_iff {ok : Prop} (hb : b.waitList = []) (hok : (f b.params).2 = none ↔ ok) {cmd : Built α} :
    ((b.call f).setWaitList blocking wl.n wl.evs).create = .ok cmd ↔
      (b.reports = [] ∧ ok) ∧ wl.Accepted b.ctx (blocking (f b.params).1) ∧ cmd = ⟨(f b.params).1, wl.events⟩ := by
  have hwl := (@adds_setWaitList _ (b.call f) blocking wl.n wl.evs hb)
  have hcall : (b.call f).reports = [] ↔ b.reports = [] ∧ ok := by
    rw [call, List.append_eq_nil_iff, Option.toList_eq_nil_iff, hok]
  have hevents : ((b.call f).setWaitList blocking wl.n wl.evs).waitList = wl.events := by
    simp [setWaitList, call, hb, WaitListArg.events]
  rw [create_ok_iff, hwl.reports_eq_nil_iff, hcall, hevents, and_assoc]
  rfl

end CommandBuilder

/-! ## What the setters ask for -/

namespace HostImageArgs

variable (x : HostImageArgs) (img : ImageObject) (r : Fin 3 → SizeT)

/-- The pitches that are kept: those that are given, or the ones of rows without gaps. -/
def rowWord : SizeT := if x.rowPitch = 0 then r 0 * img.image.getElementSize else x.rowPitch
def sliceWord : SizeT := if x.slicePitch = 0 then x.rowWord img r * r 1 else x.slicePitch

/-- The region and the pitches; rows and slices are compared as the machine multiplies. -/
structure AreaAccepted (o : Fin 3 → SizeT) : Prop extends img.RegionAccepted o r where
  row : r 0 * img.image.getElementSize ≤ x.rowWord img r
  slice : x.rowWord img r * r 1 ≤ x.sliceWord img r

/-- The fields of the builder in the end. -/
def transfer (o : Fin 3 → SizeT) : HostImageTransfer where
  image := some img
  pointer := x.pointer
  blocking := x.blocking
  origin := some o
  region := some r
  rowPitch := some (x.rowWord img r)
  slicePitch := some (x.sliceWord img r)

/-- A pitch that is not given is not refused. -/
theorem pitch_refused_iff {pitch least : SizeT} :
    (pitch ≠ 0 ∧ pitch < least) ↔ ¬ least ≤ if pitch = 0 then least else pitch := by
  split
  · next h => simp [h]
  · next h =>
    rw [BitVec.not_le]
    exact and_iff_right h

end HostImageArgs

namespace HostImageTransfer

variable {x : HostImageArgs} {img : ImageObject} {p : HostImageTransfer}

theorem setCopyArea_of_accepted {o r : Fin 3 → SizeT} (hp : p.image = some img) (h : x.AreaAccepted img r o) :
    setCopyArea (some o) (some r) x.rowPitch x.slicePitch p =
      ({ p with
          origin := some o
          region := some r
          rowPitch := some (x.rowWord img r)
          slicePitch := some (x.sliceWord img r) }, none) := by
  have hrow : ¬ (x.rowPitch ≠ 0 ∧ x.rowPitch < r 0 * img.image.getElementSize) := fun hno =>
    HostImageArgs.pitch_refused_iff.1 hno h.row
  have hslice : ¬ (x.slicePitch ≠ 0 ∧ x.slicePitch < x.rowWord img r * r 1) := fun hno =>
    HostImageArgs.pitch_refused_iff.1 hno h.slice
  simp only [setCopyArea, hp]
  rw [if_neg h.pos, h.valid]
  simp only []
  rw [if_neg hrow]
  exact if_neg hslice

theorem setCopyArea_eq_none (hp : p.image = some img) :
    (setCopyArea x.origin x.region x.rowPitch x.slicePitch p).2 = none ↔
      ∃ o r, x.origin = some o ∧ x.region = some r ∧ x.AreaAccepted img r o := by
  constructor
  · intro h
    simp only [setCopyArea, hp] at h
    split at h
    · cases h
    · cases h
    · next o r ho hr =>
      split at h
      · cases h
      · next hpos =>
        split at h
        · cases h
        · next hvalid =>
          by_cases hrow : x.rowPitch ≠ 0 ∧ x.rowPitch < r 0 * img.image.getElementSize
          · rw [if_pos hrow] at h
            cases h
          rw [if_neg hrow] at h
          by_cases hslice : x.slicePitch ≠ 0 ∧ x.slicePitch < x.rowWord img r * r 1
          · rw [HostImageArgs.rowWord] at hslice
            rw [if_pos hslice] at h
            cases h
          refine ⟨o, r, ho, hr, ⟨hpos, hvalid⟩, ?_, ?_⟩
          · exact not_not.1 fun hno => hrow (HostImageArgs.pitch_refused_iff.2 hno)
          · exact not_not.1 fun hno => hslice (HostImageArgs.pitch_refused_iff.2 hno)
  · rintro ⟨o, r, ho, hr, h⟩
    rw [ho, hr, setCopyArea_of_accepted hp h]

end HostImageTransfer

namespace EnqueueCopyImageBuilder

variable {x : CopyImageArgs} {target source : ImageObject} {p : CopyImage}

theorem setCopyArea_of_accepted {t s r : Fin 3 → SizeT} (ht : p.target = some target) (hs : p.source = some source)
    (htarget : target.RegionAccepted t r) (hsource : source.RegionAccepted s r) :
    setCopyArea (some t) (some s) (some r) p =
      ({ p with targetOrigin := some t, sourceOrigin := some s, region := some r }, none) := by
  simp only [setCopyArea, ht, hs]
  rw [if_neg htarget.pos, htarget.valid, hsource.valid]

theorem setCopyArea_eq_none (ht : p.target = some target) (hs : p.source = some source) :
    (setCopyArea x.targetOrigin x.sourceOrigin x.region p).2 = none ↔
      ∃ t s r, x.targetOrigin = some t ∧ x.sourceOrigin = some s ∧ x.region = some r ∧ target.RegionAccepted t r ∧
        source.RegionAccepted s r := by
  constructor
  · intro h
    simp only [setCopyArea, ht, hs] at h
    split at h
    · next t s r ht hs hr =>
      split at h
      · cases h
      · next hpos =>
        split at h
        · cases h
        · cases h
        · next htarget hsource => exact ⟨t, s, r, ht, hs, hr, ⟨hpos, htarget⟩, hpos, hsource⟩
    · cases h
    · cases h
  · rintro ⟨t, s, r, ht', hs', hr, htarget, hsource⟩
    rw [ht', hs', hr, setCopyArea_of_accepted ht hs htarget hsource]

end EnqueueCopyImageBuilder

namespace EnqueueFillImageBuilder

variable {x : FillImageArgs} {img : ImageObject} {p : FillImage}

theorem setFillRegion_of_accepted {o r : Fin 3 → SizeT} (hp : p.target = some img) (h : img.RegionAccepted o r) :
    setFillRegion (some o) (some r) p = ({ p with targetOrigin := some o, targetRegion := some r }, none) := by
  simp only [setFillRegion, hp]
  rw [if_neg h.pos, h.valid]

theorem setFillRegion_eq_none (hp : p.target = some img) :
    (setFillRegion x.origin x.region p).2 = none ↔
      ∃ o r, x.origin = some o ∧ x.region = some r ∧ img.RegionAccepted o r := by
  constructor
  · intro h
    simp only [setFillRegion, hp] at h
    split at h
    · next hnone => cases hnone
    · cases h
    · cases h
    · next hsome ho hr =>
      cases hsome
      split at h
      · cases h
      · next hpos =>
        split at h
        · cases h
        · next hvalid => exact ⟨_, _, ho, hr, hpos, hvalid⟩
  · rintro ⟨o, r, ho, hr, h⟩
    rw [ho, hr, setFillRegion_of_accepted hp h]

end EnqueueFillImageBuilder

/-! ## The commands that are created -/

/-- What reading and writing ask for in common. -/
structure HostImageArgs.Accepted (x : HostImageArgs) (t : ImageAccessTests) (q : QueueInfo) (img : ImageObject)
    (o r : Fin 3 → SizeT) : Prop where
  image : x.image = some (.image img)
  allows : t.Allows img
  supported : img.Supported q
  origin : x.origin = some o
  region : x.region = some r
  area : x.AreaAccepted img r o
  waitList : x.wl.Accepted q.context x.blocking

namespace HostImageTransfer

variable {q : QueueInfo} {x : HostImageArgs} {t : ImageAccessTests} {ptrOk : Prop} {b : CommandBuilder HostImageTransfer}

/-- `ptrOk` is what the constructor asks of the pointer. -/
theorem build_create_ok_iff (hb : b.waitList = []) (hctx : b.ctx = q.context)
    (hparams : b.params = { image := Mem.image? x.image, pointer := x.pointer })
    (hreports : b.reports = [] ↔
      (checkImageAccess t q x.image = none ∧ checkSupport q x.image = []) ∧ ptrOk) {cmd : Built HostImageTransfer} :
    (build b x).create = .ok cmd ↔
      ∃ img o r, x.Accepted t q img o r ∧ ptrOk ∧ cmd = ⟨x.transfer img r o, x.wl.events⟩ := by
  have hset : ∀ img o r, x.AreaAccepted img r o →
      setCopyArea (some o) (some r) x.rowPitch x.slicePitch { image := some img, pointer := x.pointer, blocking := x.blocking } =
        (x.transfer img r o, none) := fun img o r h => setCopyArea_of_accepted rfl h
  simp only [build]
  rw [setBlocking_eq hb, hparams, create_call_ok_iff (by simpa using hb) Iff.rfl]
  simp only [hreports, hctx, checks_eq_nil]
  constructor
  · rintro ⟨⟨⟨⟨img, himage, hallows, hsupported⟩, hptr⟩, harea⟩, hwl, rfl⟩
    rw [himage] at harea hwl ⊢
    obtain ⟨o, r, ho, hr, h⟩ := (setCopyArea_eq_none rfl).1 harea
    rw [ho, hr] at hwl ⊢
    simp only [Mem.image?, hset img o r h] at hwl ⊢
    exact ⟨img, o, r, ⟨himage, hallows, hsupported, ho, hr, h, hwl⟩, hptr, rfl⟩
  · rintro ⟨img, o, r, ⟨himage, hallows, hsupported, ho, hr, h, hwl⟩, hptr, rfl⟩
    rw [himage, ho, hr]
    simp only [Mem.image?, hset img o r h, and_true]
    exact ⟨⟨⟨img, rfl, hallows, hsupported⟩, hptr⟩, hwl⟩

end HostImageTransfer

theorem EnqueueReadImageBuilder.create_ok_iff {q : QueueInfo} {x : HostImageArgs} {cmd : Built HostImageTransfer} :
    (build q x).create = .ok cmd ↔
      ∃ img o r, x.Accepted tests q img o r ∧ x.pointer.isSome = true ∧ cmd = ⟨x.transfer img r o, x.wl.events⟩ := by
  refine HostImageTransfer.build_create_ok_iff rfl rfl rfl ?_
  simp only [new, List.append_eq_nil_iff, Option.toList_eq_nil_iff, checkPointer_eq_none]
  exact and_right_comm

/-- Nothing is asked of the pointer to the data. -/
theorem EnqueueWriteImageBuilder.create_ok_iff {q : QueueInfo} {x : HostImageArgs} {cmd : Built HostImageTransfer} :
    (build q x).create = .ok cmd ↔ ∃ img o r, x.Accepted tests q img o r ∧ cmd = ⟨x.transfer img r o, x.wl.events⟩ := by
  have hreports : (new q x.image x.pointer).reports = [] ↔
      (checkImageAccess tests q x.image = none ∧ checkSupport q x.image = []) ∧ True := by
    simp only [new, List.append_eq_nil_iff, Option.toList_eq_nil_iff, and_true]
    refine and_congr_left fun hsupport => and_iff_left_of_imp fun haccess => if_neg ?_
    obtain ⟨img, himage, -⟩ := checkImageAccess_eq_none.1 haccess
    simp [himage, Mem.image?]
  refine (HostImageTransfer.build_create_ok_iff rfl rfl rfl hreports).trans ?_
  simp only [true_and]

/-- What copying asks for. -/
structure CopyImageArgs.Accepted (x : CopyImageArgs) (q : QueueInfo) (target source : ImageObject) (t s r : Fin 3 → SizeT) :
    Prop where
  targetImage : x.target = some (.image target)
  sourceImage : x.source = some (.image source)
  targetSupported : target.Supported q
  sourceSupported : source.Supported q
  format : target.image.format = source.image.format
  targetOrigin : x.targetOrigin = some t
  sourceOrigin : x.sourceOrigin = some s
  region : x.region = some r
  targetRegion : target.RegionAccepted t r
  sourceRegion : source.RegionAccepted s r
  waitList : x.wl.Accepted q.context false

namespace EnqueueCopyImageBuilder

variable {q : QueueInfo} {x : CopyImageArgs}

/-- The source's format is compared with that of a target which is not an image. -/
def FollowsNull (q : QueueInfo) (x : CopyImageArgs) : Prop :=
  (∃ img, x.source = some (.image img) ∧ img.context = q.context) ∧ ∀ img, x.target ≠ some (.image img)

theorem build_ok_iff : (build q x).ok = true ↔ ¬ FollowsNull q x := by
  have hsource : checkImageAccess sourceTests q x.source = none ↔
      ∃ img, x.source = some (.image img) ∧ img.context = q.context := by
    simp [checkImageAccess_eq_none, ImageAccessTests.Allows, sourceTests]
  have htarget : (Mem.image? x.target).isSome = true ↔ ∃ img, x.target = some (.image img) := by
    simp [Option.isSome_iff_exists]
  simp only [build, new, Checked.ok_bind, Checked.ok_pure, Bool.and_true, FollowsNull, ← hsource]
  unfold formatsDiffer
  cases h : checkImageAccess sourceTests q x.source with
  | some r => simp
  | none => simp [htarget]

theorem create_ok_iff {b : EnqueueCopyImageBuilder} {cmd : Built CopyImage} :
    b.create = .ok cmd ↔ b.before = [] ∧ b.mismatch = false ∧ b.rest.create = .ok cmd := by
  unfold create errCode CommandBuilder.create
  cases b.rest.errCode with
  | some e => simp
  | none =>
    cases hm : b.mismatch with
    | true => simp
    | false =>
      cases hb : b.before.getLast? with
      | none => simp [List.getLast?_eq_none_iff.1 hb]
      | some r =>
        have hne : b.before ≠ [] := fun hnil => by simp [hnil] at hb
        simp [hne]

theorem build_create_ok_iff {cmd : Built CopyImage} :
    (build q x).val.create = .ok cmd ↔ ∃ target source t s r, x.Accepted q target source t s r ∧
      cmd = ⟨⟨some target, some source, some t, some s, some r⟩, x.wl.events⟩ := by
  have hset : ∀ (target source : ImageObject) (t s r : Fin 3 → SizeT), target.RegionAccepted t r → source.RegionAccepted s r →
      setCopyArea (some t) (some s) (some r) { target := some target, source := some source } =
        (⟨some target, some source, some t, some s, some r⟩, none) :=
    fun target source t s r ht hs => setCopyArea_of_accepted rfl rfl ht hs
  have hallows : ∀ img, targetTests.Allows img ∧ sourceTests.Allows img := fun img =>
    ⟨List.forall_mem_nil _, List.forall_mem_nil _⟩
  have hbefore : (build q x).val.before =
      (checkImageAccess targetTests q x.target).toList ++ (checkImageAccess sourceTests q x.source).toList := rfl
  have hdiffer : (build q x).val.mismatch = (formatsDiffer q x.target x.source).val := rfl
  have hrest : (build q x).val.rest.create = .ok cmd ↔ (checkSupport q x.target ++ checkSupport q x.source = [] ∧
      (setCopyArea x.targetOrigin x.sourceOrigin x.region
        { target := Mem.image? x.target, source := Mem.image? x.source }).2 = none) ∧
      x.wl.Accepted q.context false ∧
      cmd = ⟨(setCopyArea x.targetOrigin x.sourceOrigin x.region
        { target := Mem.image? x.target, source := Mem.image? x.source }).1, x.wl.events⟩ :=
    create_call_ok_iff rfl Iff.rfl
  rw [create_ok_iff, hbefore, hdiffer, hrest]
  simp only [List.append_eq_nil_iff, Option.toList_eq_nil_iff]
  constructor
  · rintro ⟨⟨htarget, hsource⟩, hmismatch, ⟨⟨hts, hss⟩, harea⟩, hwl, rfl⟩
    obtain ⟨target, htarget, -, htsup⟩ := checks_eq_nil.1 ⟨htarget, hts⟩
    have hnone := hsource
    obtain ⟨source, hsource, -, hssup⟩ := checks_eq_nil.1 ⟨hsource, hss⟩
    simp only [formatsDiffer, hnone] at hmismatch
    rw [htarget, hsource] at harea hmismatch ⊢
    obtain ⟨t, s, r, ht, hs, hr, hta, hsa⟩ := (setCopyArea_eq_none rfl rfl).1 harea
    rw [ht, hs, hr]
    simp only [Mem.image?, hset target source t s r hta hsa]
    have hformat : target.image.format = source.image.format := by simpa [Mem.image?] using hmismatch
    exact ⟨target, source, t, s, r, ⟨htarget, hsource, htsup, hssup, hformat, ht, hs, hr, hta, hsa, hwl⟩, rfl⟩
  · rintro ⟨target, source, t, s, r, ⟨htarget, hsource, htsup, hssup, hformat, ht, hs, hr, hta, hsa, hwl⟩, rfl⟩
    obtain ⟨hta', hts⟩ := checks_eq_nil.2 ⟨target, htarget, (hallows target).1, htsup⟩
    obtain ⟨hsa', hss⟩ := checks_eq_nil.2 ⟨source, hsource, (hallows source).2, hssup⟩
    rw [formatsDiffer, hsa', hta', ht, hs, hr, hts, hss, htarget, hsource]
    simp only [Mem.image?, hset target source t s r hta hsa]
    simp [hformat, hwl]

end EnqueueCopyImageBuilder

/-- What filling asks for. -/
structure FillImageArgs.Accepted (x : FillImageArgs) (q : QueueInfo) (img : ImageObject) (o r : Fin 3 → SizeT) : Prop where
  image : x.image = some (.image img)
  supported : img.Supported q
  color : x.fillColor.isSome = true
  origin : x.origin = some o
  region : x.region = some r
  area : img.RegionAccepted o r
  waitList : x.wl.Accepted q.context false

theorem EnqueueFillImageBuilder.create_ok_iff {q : QueueInfo} {x : FillImageArgs} {cmd : Built FillImage} :
    (build q x).create = .ok cmd ↔
      ∃ img o r, x.Accepted q img o r ∧ cmd = ⟨⟨some img, x.fillColor, some o, some r⟩, x.wl.events⟩ := by
  have hset : ∀ img o r, img.RegionAccepted o r →
      setFillRegion (some o) (some r) { target := some img, source := x.fillColor } =
        (⟨some img, x.fillColor, some o, some r⟩, none) := fun img o r h => setFillRegion_of_accepted rfl h
  have hreports : (new q x.image x.fillColor).reports = [] ↔
      (∃ img, x.image = some (.image img) ∧ tests.Allows img ∧ img.Supported q) ∧ x.fillColor.isSome = true := by
    simp only [new, List.append_eq_nil_iff, Option.toList_eq_nil_iff, checkPointer_eq_none, ← checks_eq_nil]
    exact and_right_comm
  rw [build, create_call_ok_iff rfl Iff.rfl, hreports]
  constructor
  · rintro ⟨⟨⟨⟨img, himage, -, hsupported⟩, hcolor⟩, harea⟩, hwl, rfl⟩
    simp only [new] at harea hwl ⊢
    rw [himage] at harea ⊢
    obtain ⟨o, r, ho, hr, h⟩ := (setFillRegion_eq_none rfl).1 harea
    rw [ho, hr]
    simp only [Mem.image?, hset img o r h]
    exact ⟨img, o, r, ⟨himage, hsupported, hcolor, ho, hr, h, hwl⟩, rfl⟩
  · rintro ⟨img, o, r, ⟨himage, hsupported, hcolor, ho, hr, h, hwl⟩, rfl⟩
    simp only [new]
    rw [himage, ho, hr]
    simp only [Mem.image?, hset img o r h, and_true]
    exact ⟨⟨⟨img, rfl, List.forall_mem_nil _, hsupported⟩, hcolor⟩, hwl⟩

/-- The calls that make a command, and the commands. A write does not ask for a pointer to its data, and a copy from an
image of the context to what is no image follows a null pointer. -/
theorem image_commands_created (q : QueueInfo) :
    (∀ x cmd, (EnqueueReadImageBuilder.build q x).create = .ok cmd ↔
      ∃ img o r, x.Accepted EnqueueReadImageBuilder.tests q img o r ∧ x.pointer.isSome = true ∧
        cmd = ⟨x.transfer img r o, x.wl.events⟩) ∧
    (∀ x cmd, (EnqueueWriteImageBuilder.build q x).create = .ok cmd ↔
      ∃ img o r, x.Accepted EnqueueWriteImageBuilder.tests q img o r ∧ cmd = ⟨x.transfer img r o, x.wl.events⟩) ∧
    (∀ x, (EnqueueCopyImageBuilder.build q x).ok = true ↔ ¬ EnqueueCopyImageBuilder.FollowsNull q x) ∧
    (∀ x cmd, (EnqueueCopyImageBuilder.build q x).val.create = .ok cmd ↔
      ∃ target source t s r, x.Accepted q target source t s r ∧
        cmd = ⟨⟨some target, some source, some t, some s, some r⟩, x.wl.events⟩) ∧
    ∀ x cmd, (EnqueueFillImageBuilder.build q x).create = .ok cmd ↔
      ∃ img o r, x.Accepted q img o r ∧ cmd = ⟨⟨some img, x.fillColor, some o, some r⟩, x.wl.events⟩ :=
  ⟨fun _ _ => EnqueueReadImageBuilder.create_ok_iff, fun _ _ => EnqueueWriteImageBuilder.create_ok_iff,
    fun _ => EnqueueCopyImageBuilder.build_ok_iff, fun _ _ => EnqueueCopyImageBuilder.build_create_ok_iff,
    fun _ _ => EnqueueFillImageBuilder.create_ok_iff⟩

end OpenCRun
