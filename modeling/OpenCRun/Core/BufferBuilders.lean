import OpenCRun.Core.CommandBuilder
/-!
# Builders of buffer commands

The builders of `Command.cpp` for reading, writing, copying and filling a
buffer, and for copying between a buffer and an image, each as its entry point
calls it.
-/
namespace OpenCRun

/-- A wait list, as a caller gives it. -/
structure WaitListArg where
  n : Nat
  evs : Option (Nat → Option WaitEvent)

/-- No events. -/
def WaitListArg.empty : WaitListArg := ⟨0, none⟩

namespace WaitListArg

def Accepted (wl : WaitListArg) (ctx : Nat) (blocking : Bool) : Prop := WaitListAccepted ctx blocking wl.n wl.evs

/-- The events that a builder takes over. -/
def events (wl : WaitListArg) : List WaitEvent := (CommandBuilder.baseWaitList wl.n wl.evs).1

end WaitListArg

/-! ## Reading and writing -/

/-- The fields of a builder for a copy between a buffer and the host's memory. -/
structure HostTransfer where
  buffer : Option BufferObject
  pointer : Option Nat
  blocking : Bool := false
  offset : SizeT := 0
  size : SizeT := 0

namespace HostTransfer

def new (t : BufferTests) (nullMsg : String) (q : QueueInfo) (buf : Option Mem) (ptr : Option Nat) :
    CommandBuilder HostTransfer where
  ctx := q.context
  params := { buffer := Mem.buffer? buf, pointer := ptr }
  reports := (checkBuffer t q buf).toList ++ (checkPointer nullMsg ptr).toList

def setCopyArea (msg : String) (offset size : SizeT) : Setter HostTransfer := fun p =>
  match p.buffer with
  | none => (p, none)
  | some buf =>
    if offset + size > buf.getSize then (p, some (.invalidValue, msg))
    else ({ p with offset, size }, none)

/-- The calls of an entry point. -/
def build (t : BufferTests) (nullMsg areaMsg : String) (q : QueueInfo) (buf : Option Mem) (ptr : Option Nat)
    (blocking : Bool) (offset size : SizeT) (wl : WaitListArg) : CommandBuilder HostTransfer :=
  let b := (new t nullMsg q buf ptr).setBlocking blocking fun p => { p with blocking }
  (b.call (setCopyArea areaMsg offset size)).setWaitList (·.blocking) wl.n wl.evs

end HostTransfer

namespace EnqueueReadBufferBuilder

def tests : BufferTests where
  null := "read source is null"
  notBuffer := "read source is not a buffer"
  misaligned := "source sub-buffer offset is not aligned with device"
  denied := [MemFlags.HostWriteOnly, MemFlags.HostNoAccess]
  operation := "invalid read buffer operation"
  context := "command queue and buffer have different context"

def build : QueueInfo → Option Mem → Option Nat → Bool → SizeT → SizeT → WaitListArg → CommandBuilder HostTransfer :=
  HostTransfer.build tests "pointer to data sink is null" "out of bounds buffer read"

end EnqueueReadBufferBuilder

namespace EnqueueWriteBufferBuilder

/-- The text of the operation's error is that of reading. -/
def tests : BufferTests where
  null := "write target is null"
  notBuffer := "write target is not a buffer"
  misaligned := "target sub-buffer offset is not aligned with device"
  denied := [MemFlags.HostReadOnly, MemFlags.HostNoAccess]
  operation := "invalid read buffer operation"
  context := "command queue and buffer have different context"

def build : QueueInfo → Option Mem → Option Nat → Bool → SizeT → SizeT → WaitListArg → CommandBuilder HostTransfer :=
  HostTransfer.build tests "pointer to data source is null" "data size exceeds buffer capacity"

end EnqueueWriteBufferBuilder

/-! ## Copying -/

/-- The parent of a sub-buffer. -/
def Buffer.getParent : Buffer → Option Buffer
  | .main _ => none
  | .sub _ parent _ _ _ => some parent

structure CopyBuffer where
  target : Option BufferObject
  source : Option BufferObject
  targetOffset : SizeT := 0
  sourceOffset : SizeT := 0
  size : SizeT := 0

/-- Different sub-buffers of one buffer. -/
def BufferObject.siblings (t s : BufferObject) : Bool :=
  t != s && t.buffer.isSubBuffer && s.buffer.isSubBuffer && t.buffer.getParent == s.buffer.getParent

namespace EnqueueCopyBufferBuilder

def targetTests : BufferTests where
  null := "copy target is null"
  notBuffer := "copy target is not a buffer"
  misaligned := "target sub-buffer offset is not aligned with device"
  context := "command queue and target buffer have different context"

def sourceTests : BufferTests where
  null := "copy source is null"
  notBuffer := "copy source is not a buffer"
  misaligned := "source sub-buffer offset is not aligned with device"
  context := "command queue and source buffer have different context"

def new (q : QueueInfo) (target source : Option Mem) : CommandBuilder CopyBuffer where
  ctx := q.context
  params := { target := Mem.buffer? target, source := Mem.buffer? source }
  reports := (checkBuffer targetTests q target).toList ++ (checkBuffer sourceTests q source).toList

/-- `std::max(SourceOffset, TargetOffset) - std::min(SourceOffset, TargetOffset) < Size`. -/
def overlap (targetOffset sourceOffset size : SizeT) : Bool :=
  (if sourceOffset < targetOffset then targetOffset - sourceOffset else sourceOffset - targetOffset) < size

def setCopyArea (targetOffset sourceOffset size : SizeT) : Setter CopyBuffer := fun p =>
  match p.target, p.source with
  | some target, some source =>
    if targetOffset + size > target.getSize then
      (p, some (.invalidValue, "data size exceeds destination buffer capacity"))
    else if sourceOffset + size > source.getSize then
      (p, some (.invalidValue, "data size exceeds source buffer capacity"))
    else if target = source ∧ overlap targetOffset sourceOffset size then
      (p, some (.memCopyOverlap, "source and destination regions overlap"))
    else if target.siblings source ∧ overlap targetOffset sourceOffset size then
      (p, some (.memCopyOverlap, "source and destination regions overlap"))
    else ({ p with targetOffset, sourceOffset, size }, none)
  | _, _ => (p, none)

def build (q : QueueInfo) (target source : Option Mem) (targetOffset sourceOffset size : SizeT) (wl : WaitListArg) :
    CommandBuilder CopyBuffer :=
  ((new q target source).call (setCopyArea targetOffset sourceOffset size)).setWaitList (fun _ => false) wl.n wl.evs

end EnqueueCopyBufferBuilder

/-! ## Filling -/

structure FillBuffer where
  target : Option BufferObject
  source : Option Nat
  sourceSize : SizeT := 0
  targetOffset : SizeT := 0
  targetSize : SizeT := 0

namespace EnqueueFillBufferBuilder

def tests : BufferTests where
  null := "fill target is null"
  notBuffer := "fill target is not a buffer"
  misaligned := "target sub-buffer offset is not aligned with device"
  context := "command queue and buffer have different context"

def new (q : QueueInfo) (buf : Option Mem) (pattern : Option Nat) : CommandBuilder FillBuffer where
  ctx := q.context
  params := { target := Mem.buffer? buf, source := pattern }
  reports := (checkBuffer tests q buf).toList ++ (checkPointer "pointer to pattern is null" pattern).toList

def setPatternSize (patternSize : SizeT) : Setter FillBuffer := fun p =>
  if patternSize = 0 then (p, some (.invalidValue, "pattern size is zero"))
  else if patternSize &&& (patternSize - 1) ≠ 0 ∨ patternSize > 128 then
    (p, some (.invalidValue, "invalid pattern size"))
  else ({ p with sourceSize := patternSize }, none)

def setFillRegion (offset size : SizeT) : Setter FillBuffer := fun p =>
  match p.target with
  | none => (p, none)
  | some target =>
    if p.sourceSize = 0 then (p, none)
    else if offset % p.sourceSize ≠ 0 then
      (p, some (.invalidValue, "fill offset is not a multiple of pattern size"))
    else if size % p.sourceSize ≠ 0 then (p, some (.invalidValue, "fill size is not a multiple of pattern size"))
    else if offset + size > target.getSize then
      (p, some (.invalidValue, "fill region size exceeds destination buffer capacity"))
    else ({ p with targetOffset := offset, targetSize := size }, none)

def build (q : QueueInfo) (buf : Option Mem) (pattern : Option Nat) (patternSize offset size : SizeT)
    (wl : WaitListArg) : CommandBuilder FillBuffer :=
  (((new q buf pattern).call (setPatternSize patternSize)).call (setFillRegion offset size)).setWaitList
    (fun _ => false) wl.n wl.evs

end EnqueueFillBufferBuilder

/-! ## Copying from and to images -/

/-- The fields of a builder for a copy between a buffer and an image. -/
structure BufferImageCopy where
  buffer : Option BufferObject
  image : Option ImageObject
  offset : SizeT := 0
  origin : Option (Fin 3 → SizeT) := none
  region : Option (Fin 3 → SizeT) := none

/-- The messages of the tests on the image. -/
structure ImageTests where
  null : String
  notImage : String
  context : String

/-- The image may not be over the buffer. -/
def checkImage (t : ImageTests) (q : QueueInfo) (buffer : Option BufferObject) (mem : Option Mem) : Option Report :=
  match mem with
  | none => some (.invalidMemObject, t.null)
  | some (.buffer _) => some (.invalidMemObject, t.notImage)
  | some (.image img) =>
    if img.image.type = .image1DBuffer ∧ img.image.buf = buffer.map (·.buffer) then
      some (.invalidMemObject, "copy source created from target buffer")
    else if q.context ≠ img.context then some (.invalidContext, t.context)
    else none

namespace BufferImageCopy

def new (bt : BufferTests) (it : ImageTests) (q : QueueInfo) (buffer image : Option Mem) :
    CommandBuilder BufferImageCopy where
  ctx := q.context
  params := { buffer := Mem.buffer? buffer, image := Mem.image? image }
  reports := (checkBuffer bt q buffer).toList ++ (checkImage it q (Mem.buffer? buffer) image).toList ++
    (Mem.image? image).elim [] fun img => checkDevImgSupport q img.image

/-- The number of bytes is computed in machine words. -/
def setCopyArea (msg : String) (offset : SizeT) (origin region : Option (Fin 3 → SizeT)) : Setter BufferImageCopy :=
  fun p =>
    match p.buffer, p.image with
    | some buffer, some img =>
      match origin, region with
      | none, _ => (p, some (.invalidValue, "origin is null"))
      | some _, none => (p, some (.invalidValue, "region is null"))
      | some o, some r =>
        if r 0 = 0 ∨ r 1 = 0 ∨ r 2 = 0 then (p, some (.invalidValue, "invalid region"))
        else
          match isValidImgRegion img.image o r with
          | some msg => (p, some (.invalidValue, msg))
          | none =>
            if offset + r 0 * r 1 * r 2 * img.image.getElementSize > buffer.getSize then
              ({ p with origin, region }, some (.invalidValue, msg))
            else ({ p with offset, origin, region }, none)
    | _, _ => (p, none)

def build (bt : BufferTests) (it : ImageTests) (msg : String) (q : QueueInfo) (buffer image : Option Mem)
    (offset : SizeT) (origin region : Option (Fin 3 → SizeT)) (wl : WaitListArg) : CommandBuilder BufferImageCopy :=
  ((new bt it q buffer image).call (setCopyArea msg offset origin region)).setWaitList (fun _ => false) wl.n wl.evs

end BufferImageCopy

/-- `EnqueueCopyImageToBufferBuilder`. -/
def EnqueueCopyImageToBufferBuilder.build : QueueInfo → Option Mem → Option Mem → SizeT → Option (Fin 3 → SizeT) →
    Option (Fin 3 → SizeT) → WaitListArg → CommandBuilder BufferImageCopy :=
  BufferImageCopy.build EnqueueCopyBufferBuilder.targetTests
    { null := "copy source is null"
      notImage := "copy source is not an image"
      context := "command queue and source image have different context" }
    "target region out of bounds"

/-- `EnqueueCopyBufferToImageBuilder`. -/
def EnqueueCopyBufferToImageBuilder.build : QueueInfo → Option Mem → Option Mem → SizeT → Option (Fin 3 → SizeT) →
    Option (Fin 3 → SizeT) → WaitListArg → CommandBuilder BufferImageCopy :=
  BufferImageCopy.build { EnqueueCopyBufferBuilder.sourceTests with notBuffer := "copy source is not an buffer" }
    { null := "copy target is null"
      notImage := "copy target is not an image"
      context := "command queue and target image have different context" }
    "source region out of bounds"

/-! ## The commands that are created -/

open CommandBuilder

namespace HostTransfer

variable {t : BufferTests} {nullMsg areaMsg : String} {q : QueueInfo} {buf : Option Mem} {ptr : Option Nat}
  {blocking : Bool} {offset size : SizeT} {wl : WaitListArg}

/-- The area ends in the buffer, as the machine adds. -/
def InArea (buf : Option Mem) (offset size : SizeT) : Prop := ∀ b, Mem.buffer? buf = some b → offset + size ≤ b.getSize

theorem setCopyArea_eq_none {p : HostTransfer} :
    (setCopyArea areaMsg offset size p).2 = none ↔ ∀ b, p.buffer = some b → offset + size ≤ b.getSize := by
  unfold setCopyArea
  cases h : p.buffer with
  | none => simp
  | some b =>
    simp only [Option.some.injEq, forall_eq']
    split
    · next hgt => simpa using hgt
    · next hgt => simpa using hgt

theorem setCopyArea_code {p : HostTransfer} {r : Report} (h : (setCopyArea areaMsg offset size p).2 = some r) :
    r.1 ≠ .invalidOperation := by
  unfold setCopyArea at h
  split at h
  · cases h
  · split at h <;> cases h
    simp

@[simp] theorem setCopyArea_blocking (p : HostTransfer) :
    (setCopyArea areaMsg offset size p).1.blocking = p.blocking := by
  unfold setCopyArea
  split
  · rfl
  · split <;> rfl

/-- What the steps after the constructor ask for. -/
theorem build_adds :
    Adds (new t nullMsg q buf ptr) (build t nullMsg areaMsg q buf ptr blocking offset size wl)
      (InArea buf offset size ∧ wl.Accepted q.context blocking) := by
  unfold build
  rw [setBlocking_eq rfl]
  have harea : Adds (new t nullMsg q buf ptr)
      (CommandBuilder.call { new t nullMsg q buf ptr with params := { (new t nullMsg q buf ptr).params with blocking } }
        (setCopyArea areaMsg offset size)) (InArea buf offset size) :=
    adds_call setCopyArea_eq_none fun r => setCopyArea_code
  exact harea.trans ((adds_setWaitList rfl).congr (by simp [WaitListArg.Accepted, new]))

theorem new_reports_nil :
    (new t nullMsg q buf ptr).reports = [] ↔ (∃ b, buf = some (.buffer b) ∧ t.Admits q b) ∧ ptr.isSome = true := by
  simp [new, BufferTests.checkBuffer_eq_none, checkPointer_eq_none]

theorem new_refuses : (new t nullMsg q buf ptr).Refuses ↔ ∃ b, buf = some (.buffer b) ∧ t.Denies b := by
  rw [← BufferTests.checkBuffer_invalidOperation (q := q), Refuses, new]
  cases ptr <;> simp [checkPointer]

theorem build_eq :
    (build t nullMsg areaMsg q buf ptr blocking offset size wl).params =
        (setCopyArea areaMsg offset size { buffer := Mem.buffer? buf, pointer := ptr, blocking }).1 ∧
      (build t nullMsg areaMsg q buf ptr blocking offset size wl).waitList = wl.events := by
  rw [build, setBlocking_eq rfl]
  exact ⟨rfl, rfl⟩

/-- The command that is created, and when it is. -/
theorem create_ok_iff {cmd : Built HostTransfer} :
    (build t nullMsg areaMsg q buf ptr blocking offset size wl).create = .ok cmd ↔
      ∃ b, buf = some (.buffer b) ∧ t.Admits q b ∧ ptr.isSome = true ∧ offset + size ≤ b.getSize ∧
        wl.Accepted q.context blocking ∧
        cmd = ⟨{ buffer := some b, pointer := ptr, blocking, offset, size }, wl.events⟩ := by
  rw [CommandBuilder.create_ok_iff, build_adds.reports_eq_nil_iff, new_reports_nil, build_eq.1, build_eq.2]
  have hset : ∀ b : BufferObject, offset + size ≤ b.getSize →
      (setCopyArea areaMsg offset size { buffer := some b, pointer := ptr, blocking }).1 =
        { buffer := some b, pointer := ptr, blocking, offset, size } := fun b hle => by
    simp [setCopyArea, BitVec.not_lt.2 hle]
  constructor
  · rintro ⟨⟨⟨⟨b, rfl, hadm⟩, hptr⟩, harea, hwl⟩, rfl⟩
    have hle := harea b rfl
    exact ⟨b, rfl, hadm, hptr, hle, hwl, congrArg (Built.mk · _) (hset b hle)⟩
  · rintro ⟨b, rfl, hadm, hptr, hle, hwl, rfl⟩
    refine ⟨⟨⟨⟨b, rfl, hadm⟩, hptr⟩, fun b' hb' => ?_, hwl⟩, congrArg (Built.mk · _) (hset b hle).symm⟩
    cases hb'
    exact hle

end HostTransfer

/-- The reports of two tests of which neither says that the operation is invalid. -/
theorem CommandBuilder.adds_two {α : Type} {ctx : Nat} {params : α} {r₁ r₂ : Option Report} {p₁ p₂ : Prop}
    (h₁ : r₁ = none ↔ p₁) (h₂ : r₂ = none ↔ p₂) (hcode₁ : ∀ r, r₁ = some r → r.1 ≠ .invalidOperation)
    (hcode₂ : ∀ r, r₂ = some r → r.1 ≠ .invalidOperation) :
    Adds { ctx, params } { ctx, params, reports := r₁.toList ++ r₂.toList } (p₁ ∧ p₂) := by
  refine adds_new ?_ fun r hr => ?_
  · rw [List.append_eq_nil_iff, Option.toList_eq_nil_iff, Option.toList_eq_nil_iff, h₁, h₂]
  · exact (List.mem_append.1 hr).elim (fun hr => hcode₁ r (Option.mem_toList.1 hr))
      fun hr => hcode₂ r (Option.mem_toList.1 hr)

namespace EnqueueCopyBufferBuilder

variable {q : QueueInfo} {target source : Option Mem} {targetOffset sourceOffset size : SizeT} {wl : WaitListArg}

/-- The areas end in their buffers, as the machine adds, and are not found to overlap. -/
structure InArea (targetOffset sourceOffset size : SizeT) (t s : BufferObject) : Prop where
  target : targetOffset + size ≤ t.getSize
  source : sourceOffset + size ≤ s.getSize
  overlap : t = s ∨ t.siblings s = true → overlap targetOffset sourceOffset size = false

theorem setCopyArea_eq_none {p : CopyBuffer} :
    (setCopyArea targetOffset sourceOffset size p).2 = none ↔
      ∀ t s, p.target = some t → p.source = some s → InArea targetOffset sourceOffset size t s := by
  unfold setCopyArea
  cases ht : p.target with
  | none => simp
  | some t =>
    cases hs : p.source with
    | none => simp
    | some s =>
      have hall : (∀ t' s', some t = some t' → some s = some s' → InArea targetOffset sourceOffset size t' s') ↔
          InArea targetOffset sourceOffset size t s := by
        constructor
        · exact fun h => h t s rfl rfl
        · rintro h _ _ ⟨⟩ ⟨⟩
          exact h
      rw [hall]
      constructor
      · intro h
        dsimp only at h
        -- The four tests in their order; the last two are about two ranges of one buffer.
        split_ifs at h with h₁ h₂ h₃ h₄
        refine ⟨BitVec.not_lt.1 h₁, BitVec.not_lt.1 h₂, ?_⟩
        rintro (heq | heq)
        · exact Bool.eq_false_iff.2 fun ho => h₃ ⟨heq, ho⟩
        · exact Bool.eq_false_iff.2 fun ho => h₄ ⟨heq, ho⟩
      · rintro ⟨h₁, h₂, h₃⟩
        dsimp only
        rw [if_neg (BitVec.not_lt.2 h₁), if_neg (BitVec.not_lt.2 h₂), if_neg, if_neg]
        · rintro ⟨heq, ho⟩
          simp [h₃ (.inr heq)] at ho
        · rintro ⟨heq, ho⟩
          simp [h₃ (.inl heq)] at ho

theorem setCopyArea_code {p : CopyBuffer} {r : Report} (h : (setCopyArea targetOffset sourceOffset size p).2 = some r) :
    r.1 ≠ .invalidOperation := by
  unfold setCopyArea at h
  split at h
  · split_ifs at h <;> cases h <;> simp
  · cases h

theorem build_adds :
    Adds { ctx := q.context, params := (new q target source).params } (build q target source targetOffset sourceOffset size wl)
      ((((∃ t, target = some (.buffer t) ∧ targetTests.Admits q t) ∧
          ∃ s, source = some (.buffer s) ∧ sourceTests.Admits q s) ∧
        ∀ t s, Mem.buffer? target = some t → Mem.buffer? source = some s → InArea targetOffset sourceOffset size t s) ∧
        wl.Accepted q.context false) := by
  have hnew : Adds { ctx := q.context, params := (new q target source).params } (new q target source)
      ((∃ t, target = some (.buffer t) ∧ targetTests.Admits q t) ∧
        ∃ s, source = some (.buffer s) ∧ sourceTests.Admits q s) :=
    adds_two BufferTests.checkBuffer_eq_none BufferTests.checkBuffer_eq_none
      (fun r => BufferTests.checkBuffer_code rfl) fun r => BufferTests.checkBuffer_code rfl
  exact (hnew.trans (adds_call setCopyArea_eq_none fun r => setCopyArea_code)).trans (adds_setWaitList rfl)

theorem setCopyArea_of_inArea {t s : BufferObject} (h : InArea targetOffset sourceOffset size t s) :
    setCopyArea targetOffset sourceOffset size { target := some t, source := some s } =
      ({ target := some t, source := some s, targetOffset, sourceOffset, size }, none) := by
  have hover : ¬ (t = s ∧ overlap targetOffset sourceOffset size = true) ∧
      ¬ (t.siblings s = true ∧ overlap targetOffset sourceOffset size = true) :=
    ⟨fun hc => by simp [h.overlap (.inl hc.1)] at hc, fun hc => by simp [h.overlap (.inr hc.1)] at hc⟩
  simp only [setCopyArea]
  rw [if_neg (BitVec.not_lt.2 h.target), if_neg (BitVec.not_lt.2 h.source), if_neg hover.1, if_neg hover.2]

theorem create_ok_iff {cmd : Built CopyBuffer} :
    (build q target source targetOffset sourceOffset size wl).create = .ok cmd ↔
      ∃ t s, (target = some (.buffer t) ∧ targetTests.Admits q t) ∧ (source = some (.buffer s) ∧ sourceTests.Admits q s) ∧
        InArea targetOffset sourceOffset size t s ∧ wl.Accepted q.context false ∧
        cmd = ⟨{ target := some t, source := some s, targetOffset, sourceOffset, size }, wl.events⟩ := by
  rw [CommandBuilder.create_ok_iff, build_adds.reports_nil]
  constructor
  · rintro ⟨⟨⟨⟨⟨t, rfl, ht⟩, s, rfl, hs⟩, harea⟩, hwl⟩, rfl⟩
    have hin := harea t s rfl rfl
    exact ⟨t, s, ⟨rfl, ht⟩, ⟨rfl, hs⟩, hin, hwl, congrArg (Built.mk ·.1 _) (setCopyArea_of_inArea hin)⟩
  · rintro ⟨t, s, ⟨rfl, ht⟩, ⟨rfl, hs⟩, hin, hwl, rfl⟩
    refine ⟨⟨⟨⟨⟨t, rfl, ht⟩, s, rfl, hs⟩, ?_⟩, hwl⟩, congrArg (Built.mk ·.1 _) (setCopyArea_of_inArea hin).symm⟩
    rintro _ _ ⟨⟩ ⟨⟩
    exact hin

end EnqueueCopyBufferBuilder

namespace EnqueueFillBufferBuilder

variable {q : QueueInfo} {buf : Option Mem} {pattern : Option Nat} {patternSize offset size : SizeT} {wl : WaitListArg}

/-- A power of two up to 128. -/
def PatternAccepted (patternSize : SizeT) : Prop :=
  patternSize ≠ 0 ∧ patternSize &&& (patternSize - 1) = 0 ∧ patternSize ≤ 128

/-- Whole patterns, which end in the buffer, as the machine adds. -/
structure InRegion (patternSize offset size : SizeT) (b : BufferObject) : Prop where
  wholeOffset : offset % patternSize = 0
  wholeSize : size % patternSize = 0
  fits : offset + size ≤ b.getSize

theorem setPatternSize_eq_none {p : FillBuffer} :
    (setPatternSize patternSize p).2 = none ↔ PatternAccepted patternSize := by
  unfold setPatternSize PatternAccepted
  split_ifs with h₁ h₂
  · exact iff_of_false nofun fun h => h.1 h₁
  · refine iff_of_false nofun ?_
    rintro ⟨-, hpow, hle⟩
    exact h₂.elim (fun h => h hpow) fun h => BitVec.not_lt.2 hle h
  · simp only [not_or, not_not, gt_iff_lt, BitVec.not_lt] at h₂
    exact iff_of_true rfl ⟨h₁, h₂⟩

theorem setPatternSize_of_accepted {p : FillBuffer} (h : PatternAccepted patternSize) :
    setPatternSize patternSize p = ({ p with sourceSize := patternSize }, none) := by
  obtain ⟨hne, hpow, hle⟩ := h
  rw [setPatternSize, if_neg hne, if_neg]
  exact not_or.2 ⟨not_not.2 hpow, BitVec.not_lt.2 hle⟩

theorem setFillRegion_eq_none {p : FillBuffer} (hs : p.sourceSize ≠ 0) :
    (setFillRegion offset size p).2 = none ↔ ∀ b, p.target = some b → InRegion p.sourceSize offset size b := by
  unfold setFillRegion
  cases ht : p.target with
  | none => simp
  | some b =>
    simp only [hs, if_false, Option.some.injEq, forall_eq']
    constructor
    · intro h
      split_ifs at h with h₁ h₂ h₃
      exact ⟨not_not.1 h₁, not_not.1 h₂, BitVec.not_lt.1 h₃⟩
    · rintro ⟨h₁, h₂, h₃⟩
      rw [if_neg (not_not.2 h₁), if_neg (not_not.2 h₂), if_neg (BitVec.not_lt.2 h₃)]

theorem setPatternSize_code {p : FillBuffer} {r : Report} (h : (setPatternSize patternSize p).2 = some r) :
    r.1 ≠ .invalidOperation := by
  unfold setPatternSize at h
  split_ifs at h <;> cases h <;> simp

theorem setFillRegion_code {p : FillBuffer} {r : Report} (h : (setFillRegion offset size p).2 = some r) :
    r.1 ≠ .invalidOperation := by
  unfold setFillRegion at h
  split at h
  · cases h
  · split_ifs at h <;> cases h <;> simp

/-- The region is only looked at with a pattern that is accepted; without one there is an error already. -/
theorem pattern_region_eq_none {p : FillBuffer} :
    (setPatternSize patternSize p).2 = none ∧
        (setFillRegion offset size (setPatternSize patternSize p).1).2 = none ↔
      PatternAccepted patternSize ∧ ∀ b, p.target = some b → InRegion patternSize offset size b := by
  rw [setPatternSize_eq_none]
  refine and_congr_right fun h => ?_
  rw [setPatternSize_of_accepted h, setFillRegion_eq_none h.1]

theorem build_adds :
    Adds { ctx := q.context, params := (new q buf pattern).params } (build q buf pattern patternSize offset size wl)
      ((((∃ b, buf = some (.buffer b) ∧ tests.Admits q b) ∧ pattern.isSome = true) ∧ PatternAccepted patternSize ∧
        ∀ b, Mem.buffer? buf = some b → InRegion patternSize offset size b) ∧ wl.Accepted q.context false) := by
  have hnew : Adds { ctx := q.context, params := (new q buf pattern).params } (new q buf pattern)
      ((∃ b, buf = some (.buffer b) ∧ tests.Admits q b) ∧ pattern.isSome = true) :=
    adds_two BufferTests.checkBuffer_eq_none checkPointer_eq_none
      (fun r => BufferTests.checkBuffer_code rfl) fun r => checkPointer_code
  have hpattern := adds_call (b := new q buf pattern) (f := setPatternSize patternSize) Iff.rfl fun r => setPatternSize_code
  have hregion := adds_call (b := (new q buf pattern).call (setPatternSize patternSize)) (f := setFillRegion offset size)
    Iff.rfl fun r => setFillRegion_code
  exact (hnew.trans ((hpattern.trans hregion).congr pattern_region_eq_none)).trans (adds_setWaitList rfl)

theorem create_ok_iff {cmd : Built FillBuffer} :
    (build q buf pattern patternSize offset size wl).create = .ok cmd ↔
      ∃ b, buf = some (.buffer b) ∧ tests.Admits q b ∧ pattern.isSome = true ∧ PatternAccepted patternSize ∧
        InRegion patternSize offset size b ∧ wl.Accepted q.context false ∧
        cmd = ⟨{ target := some b, source := pattern, sourceSize := patternSize, targetOffset := offset,
                 targetSize := size }, wl.events⟩ := by
  have hset : ∀ b : BufferObject, PatternAccepted patternSize → InRegion patternSize offset size b →
      (setFillRegion offset size (setPatternSize patternSize { target := some b, source := pattern }).1).1 =
        { target := some b, source := pattern, sourceSize := patternSize, targetOffset := offset, targetSize := size } := by
    intro b hp hr
    rw [setPatternSize_of_accepted hp]
    simp only [setFillRegion]
    rw [if_neg hp.1, if_neg (not_not.2 hr.wholeOffset), if_neg (not_not.2 hr.wholeSize),
      if_neg (BitVec.not_lt.2 hr.fits)]
  rw [CommandBuilder.create_ok_iff, build_adds.reports_nil]
  constructor
  · rintro ⟨⟨⟨⟨⟨b, rfl, hb⟩, hptr⟩, hpat, hreg⟩, hwl⟩, rfl⟩
    have hin := hreg b rfl
    exact ⟨b, rfl, hb, hptr, hpat, hin, hwl, congrArg (Built.mk · _) (hset b hpat hin)⟩
  · rintro ⟨b, rfl, hb, hptr, hpat, hin, hwl, rfl⟩
    refine ⟨⟨⟨⟨⟨b, rfl, hb⟩, hptr⟩, hpat, ?_⟩, hwl⟩, congrArg (Built.mk · _) (hset b hpat hin).symm⟩
    rintro _ ⟨⟩
    exact hin

end EnqueueFillBufferBuilder

namespace BufferImageCopy

variable {bt : BufferTests} {it : ImageTests} {msg : String} {q : QueueInfo} {buffer image : Option Mem}
  {offset : SizeT} {origin region : Option (Fin 3 → SizeT)} {wl : WaitListArg}

/-- The image is of the queue's context, not over the buffer, and the device can do with it. -/
structure ImageAdmitted (q : QueueInfo) (buffer : Option BufferObject) (img : ImageObject) : Prop where
  notOver : ¬ (img.image.type = .image1DBuffer ∧ img.image.buf = buffer.map (·.buffer))
  context : img.context = q.context
  limits : exceedsLimits q.device img.image = false
  format : q.device.isImageFormatSupported img.image.format = true

theorem checks_nil :
    (checkImage it q (Mem.buffer? buffer) image).toList ++
        ((Mem.image? image).elim [] fun img => checkDevImgSupport q img.image) = [] ↔
      ∃ img, image = some (.image img) ∧ ImageAdmitted q (Mem.buffer? buffer) img := by
  match image with
  | none => simp [checkImage]
  | some (.buffer b) => simp [checkImage]
  | some (.image img) =>
    simp only [checkImage, Mem.image?, Option.elim_some, checkDevImgSupport, List.append_eq_nil_iff,
      Option.toList_eq_nil_iff, Option.some.injEq, Mem.image.injEq, exists_eq_left']
    constructor
    · rintro ⟨h, hl, hf⟩
      split_ifs at h with h₁ h₂
      exact ⟨h₁, (not_not.1 h₂).symm, by simpa using hl, by simpa using hf⟩
    · rintro ⟨h₁, h₂, hl, hf⟩
      simp [h₁, h₂, hl, hf]

theorem checks_code {r : Report}
    (h : r ∈ (checkImage it q (Mem.buffer? buffer) image).toList ++
      ((Mem.image? image).elim [] fun img => checkDevImgSupport q img.image)) : r.1 ≠ .invalidOperation := by
  match image with
  | none => simp_all [checkImage, Mem.image?]
  | some (.buffer b) => simp_all [checkImage, Mem.image?]
  | some (.image img) =>
    simp only [checkImage, Mem.image?, Option.elim_some, checkDevImgSupport, List.mem_append] at h
    split_ifs at h <;> simp_all <;> grind

/-- The region is in the image, and its bytes end in the buffer, as the machine computes. -/
structure InArea (offset : SizeT) (o r : Fin 3 → SizeT) (b : BufferObject) (img : ImageObject) : Prop where
  pos : ¬ (r 0 = 0 ∨ r 1 = 0 ∨ r 2 = 0)
  valid : isValidImgRegion img.image o r = none
  fits : offset + r 0 * r 1 * r 2 * img.image.getElementSize ≤ b.getSize

/-- An area that is accepted is taken over. -/
theorem setCopyArea_of_inArea {p : BufferImageCopy} {b : BufferObject} {img : ImageObject} {o r : Fin 3 → SizeT}
    (hb : p.buffer = some b) (hi : p.image = some img) (h : InArea offset o r b img) :
    setCopyArea msg offset (some o) (some r) p = ({ p with offset, origin := some o, region := some r }, none) := by
  simp only [setCopyArea, hb, hi]
  rw [if_neg h.pos, h.valid]
  simp only []
  rw [if_neg (BitVec.not_lt.2 h.fits)]

theorem setCopyArea_eq_none {p : BufferImageCopy} {b : BufferObject} {img : ImageObject} (hb : p.buffer = some b)
    (hi : p.image = some img) :
    (setCopyArea msg offset origin region p).2 = none ↔
      ∃ o r, origin = some o ∧ region = some r ∧ InArea offset o r b img := by
  constructor
  · intro h
    simp only [setCopyArea, hb, hi] at h
    match origin, region with
    | none, _ => cases h
    | some o, none => cases h
    | some o, some r =>
      simp only [] at h
      split at h
      · cases h
      · next hpos =>
        split at h
        · cases h
        · next hv =>
          split at h
          · cases h
          · next hfits => exact ⟨o, r, rfl, rfl, hpos, hv, BitVec.not_lt.1 hfits⟩
  · rintro ⟨o, r, rfl, rfl, h⟩
    rw [setCopyArea_of_inArea hb hi h]

theorem setCopyArea_code {p : BufferImageCopy} {r : Report} (h : (setCopyArea msg offset origin region p).2 = some r) :
    r.1 ≠ .invalidOperation := by
  unfold setCopyArea at h
  split at h
  · split at h
    · cases h; simp
    · cases h; simp
    · split at h
      · cases h; simp
      · split at h
        · cases h; simp
        · split at h <;> cases h
          simp
  · cases h

/-- What the tests of the constructor and the area ask for together. -/
theorem build_adds (hbt : bt.denied = []) :
    Adds { ctx := q.context, params := (new bt it q buffer image).params }
      (build bt it msg q buffer image offset origin region wl)
      ((((∃ b, buffer = some (.buffer b) ∧ bt.Admits q b) ∧
          ∃ img, image = some (.image img) ∧ ImageAdmitted q (Mem.buffer? buffer) img) ∧
        (setCopyArea msg offset origin region (new bt it q buffer image).params).2 = none) ∧
        wl.Accepted q.context false) := by
  have hnew : Adds { ctx := q.context, params := (new bt it q buffer image).params } (new bt it q buffer image)
      ((∃ b, buffer = some (.buffer b) ∧ bt.Admits q b) ∧
        ∃ img, image = some (.image img) ∧ ImageAdmitted q (Mem.buffer? buffer) img) := by
    refine adds_new ?_ fun r hr => ?_
    · rw [List.append_assoc, List.append_eq_nil_iff, Option.toList_eq_nil_iff, BufferTests.checkBuffer_eq_none, checks_nil]
    · rw [List.append_assoc, List.mem_append] at hr
      exact hr.elim (fun hr => BufferTests.checkBuffer_code hbt (Option.mem_toList.1 hr)) checks_code
  have harea := adds_call (b := new bt it q buffer image) (f := setCopyArea msg offset origin region) Iff.rfl
    fun r => setCopyArea_code
  exact (hnew.trans harea).trans (adds_setWaitList rfl)

theorem create_ok_iff (hbt : bt.denied = []) {cmd : Built BufferImageCopy} :
    (build bt it msg q buffer image offset origin region wl).create = .ok cmd ↔
      ∃ b img o r, (buffer = some (.buffer b) ∧ bt.Admits q b) ∧
        (image = some (.image img) ∧ ImageAdmitted q (some b) img) ∧ (origin = some o ∧ region = some r) ∧
        InArea offset o r b img ∧ wl.Accepted q.context false ∧
        cmd = ⟨{ buffer := some b, image := some img, offset, origin, region }, wl.events⟩ := by
  have hset : ∀ b img o r, InArea offset o r b img →
      setCopyArea msg offset (some o) (some r) { buffer := some b, image := some img } =
        ({ buffer := some b, image := some img, offset, origin := some o, region := some r }, none) :=
    fun b img o r hin => setCopyArea_of_inArea rfl rfl hin
  rw [CommandBuilder.create_ok_iff, (build_adds hbt).reports_nil]
  constructor
  · rintro ⟨⟨⟨⟨⟨b, rfl, hb⟩, img, rfl, hi⟩, harea⟩, hwl⟩, rfl⟩
    obtain ⟨o, r, rfl, rfl, hin⟩ := (setCopyArea_eq_none rfl rfl).1 harea
    exact ⟨b, img, o, r, ⟨rfl, hb⟩, ⟨rfl, hi⟩, ⟨rfl, rfl⟩, hin, hwl, congrArg (Built.mk ·.1 _) (hset b img o r hin)⟩
  · rintro ⟨b, img, o, r, ⟨rfl, hb⟩, ⟨rfl, hi⟩, ⟨rfl, rfl⟩, hin, hwl, rfl⟩
    exact ⟨⟨⟨⟨⟨b, rfl, hb⟩, img, rfl, hi⟩, (setCopyArea_eq_none rfl rfl).2 ⟨o, r, rfl, rfl, hin⟩⟩, hwl⟩,
      congrArg (Built.mk ·.1 _) (hset b img o r hin).symm⟩

end BufferImageCopy

end OpenCRun
