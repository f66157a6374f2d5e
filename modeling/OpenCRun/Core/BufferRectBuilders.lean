import OpenCRun.Core.BufferBuilders
/-!
# Builders of rectangular commands

The builders of `Command.cpp` that read, write and copy a rectangle of a
buffer, and the bytes of the buffer that `MemRectCpy` reaches for them.
-/
open Lib OpenCRun.CPUThread

namespace OpenCRun

/-- One side of a copy, as a caller gives it; a pitch of zero is the default. -/
structure RectArgs where
  origin : Option (Fin 3 → SizeT)
  rowPitch : SizeT
  slicePitch : SizeT

/-- One side of a copy, as the builder keeps it. -/
structure RectSide where
  rowPitch : SizeT := 0
  slicePitch : SizeT := 0
  offset : SizeT := 0
  deriving DecidableEq, Repr

structure SideMessages where
  origin : String
  rowPitch : String
  slicePitch : String

namespace RectArgs

def rowWord (a : RectArgs) (r : Fin 3 → SizeT) : SizeT := if a.rowPitch = 0 then r 0 else a.rowPitch

def sliceWord (a : RectArgs) (r : Fin 3 → SizeT) : SizeT :=
  if a.slicePitch = 0 then r 1 * a.rowWord r else a.slicePitch

def side (a : RectArgs) (r o : Fin 3 → SizeT) : RectSide where
  rowPitch := a.rowWord r
  slicePitch := a.sliceWord r
  offset := o 0 + o 1 * a.rowWord r + o 2 * a.sliceWord r

/-- What is compared with the size of a buffer. -/
def lastWord (a : RectArgs) (r o : Fin 3 → SizeT) : SizeT :=
  (o 0 + (r 0 - 1)) + (o 1 + (r 1 - 1)) * a.rowWord r + (o 2 + (r 2 - 1)) * a.sliceWord r

/-- `SetTargetOffset` and `SetSourceOffset`; only the side of a buffer has a bound. -/
def setOffset (a : RectArgs) (m : SideMessages) (bound : Option SizeT) (r : Fin 3 → SizeT) (old : RectSide) :
    RectSide × Option Report :=
  match a.origin with
  | none => (old, some (.invalidValue, m.origin))
  | some o =>
    if a.rowPitch ≠ 0 ∧ a.rowPitch < r 0 then (old, some (.invalidValue, m.rowPitch))
    else if a.slicePitch ≠ 0 ∧ (a.slicePitch < r 1 * a.rowWord r ∨ a.slicePitch % a.rowWord r ≠ 0) then
      ({ old with rowPitch := a.rowWord r }, some (.invalidValue, m.slicePitch))
    else if bound.any (· < a.lastWord r o) then
      ({ old with rowPitch := a.rowWord r, slicePitch := a.sliceWord r }, some (.invalidValue, "region out of bound"))
    else (a.side r o, none)

end RectArgs

/-! ## Reading and writing -/

/-- The arguments of an entry point. -/
structure HostRectArgs where
  buf : Option Mem
  ptr : Option Nat
  blocking : Bool
  region : Option (Fin 3 → SizeT)
  bufferArgs : RectArgs
  hostArgs : RectArgs
  wl : WaitListArg

/-- The fields of a builder for a copy between a rectangle of a buffer and the host's memory. -/
structure HostRectTransfer where
  buffer : Option BufferObject
  pointer : Option Nat
  blocking : Bool := false
  region : Option (Fin 3 → SizeT) := none
  bufferSide : RectSide := {}
  hostSide : RectSide := {}

namespace HostRectTransfer

def new (t : BufferTests) (nullMsg : String) (q : QueueInfo) (buf : Option Mem) (ptr : Option Nat) :
    CommandBuilder HostRectTransfer where
  ctx := q.context
  params := { buffer := Mem.buffer? buf, pointer := ptr }
  reports := (checkBuffer t q buf).toList ++ (checkPointer nullMsg ptr).toList

def setRegion (region : Option (Fin 3 → SizeT)) : Setter HostRectTransfer := fun p =>
  match region with
  | none => (p, some (.invalidValue, "region is null"))
  | some r =>
    if r 0 = 0 ∨ r 1 = 0 ∨ r 2 = 0 then (p, some (.invalidValue, "invalid region"))
    else ({ p with region }, none)

def setHostOffset (m : SideMessages) (a : RectArgs) : Setter HostRectTransfer := fun p =>
  match p.region with
  | none => (p, none)
  | some r =>
    let s := a.setOffset m none r p.hostSide
    ({ p with hostSide := s.1 }, s.2)

def setBufferOffset (m : SideMessages) (a : RectArgs) : Setter HostRectTransfer := fun p =>
  match p.buffer, p.region with
  | some buf, some r =>
    let s := a.setOffset m (some buf.getSize) r p.bufferSide
    ({ p with bufferSide := s.1 }, s.2)
  | _, _ => (p, none)

end HostRectTransfer

namespace EnqueueReadBufferRectBuilder

def build (q : QueueInfo) (x : HostRectArgs) : CommandBuilder HostRectTransfer :=
  let b := (HostRectTransfer.new EnqueueReadBufferBuilder.tests "pointer to data sink is null" q x.buf x.ptr).setBlocking
    x.blocking fun p => { p with blocking := x.blocking }
  let b := b.call (HostRectTransfer.setRegion x.region)
  let b := b.call (HostRectTransfer.setHostOffset
    ⟨"target origin is null", "invalid host row pitch", "invalid host slice pitch"⟩ x.hostArgs)
  let b := b.call (HostRectTransfer.setBufferOffset
    ⟨"source origin is null", "invalid buffer row pitch", "invalid buffer slice pitch"⟩ x.bufferArgs)
  b.setWaitList (·.blocking) x.wl.n x.wl.evs

end EnqueueReadBufferRectBuilder

namespace EnqueueWriteBufferRectBuilder

/-- Writing is refused with the flags of a buffer that the host may not read. -/
def tests : BufferTests :=
  { EnqueueWriteBufferBuilder.tests with
    denied := [MemFlags.HostWriteOnly, MemFlags.HostNoAccess]
    operation := "invalid write buffer operation" }

def build (q : QueueInfo) (x : HostRectArgs) : CommandBuilder HostRectTransfer :=
  let b := (HostRectTransfer.new tests "pointer to data source is null" q x.buf x.ptr).setBlocking
    x.blocking fun p => { p with blocking := x.blocking }
  let b := b.call (HostRectTransfer.setRegion x.region)
  let b := b.call (HostRectTransfer.setBufferOffset
    ⟨"target origin is null", "invalid buffer row pitch", "invalid buffer slice pitch"⟩ x.bufferArgs)
  let b := b.call (HostRectTransfer.setHostOffset
    ⟨"source origin is null", "invalid host row pitch", "invalid host slice pitch"⟩ x.hostArgs)
  b.setWaitList (·.blocking) x.wl.n x.wl.evs

end EnqueueWriteBufferRectBuilder

/-! ## Copying -/

/-- The arguments of an entry point. -/
structure CopyRectArgs where
  target : Option Mem
  source : Option Mem
  region : Fin 3 → SizeT
  targetArgs : RectArgs
  sourceArgs : RectArgs
  wl : WaitListArg

structure CopyBufferRect where
  target : Option BufferObject
  source : Option BufferObject
  region : Option (Fin 3 → SizeT) := none
  targetOrigin : Option (Fin 3 → SizeT) := none
  sourceOrigin : Option (Fin 3 → SizeT) := none
  targetSide : RectSide := {}
  sourceSide : RectSide := {}

namespace EnqueueCopyBufferRectBuilder

def targetTests : BufferTests :=
  { EnqueueCopyBufferBuilder.targetTests with null := "write target is null", notBuffer := "write target is not a buffer" }

def sourceTests : BufferTests :=
  { EnqueueCopyBufferBuilder.sourceTests with null := "read source is null", notBuffer := "read source is not a buffer" }

def new (q : QueueInfo) (target source : Option Mem) : CommandBuilder CopyBufferRect where
  ctx := q.context
  params := { target := Mem.buffer? target, source := Mem.buffer? source }
  reports := (checkBuffer targetTests q target).toList ++ (checkBuffer sourceTests q source).toList

/-- The region is read without a test on the pointer. -/
def setRegion (r : Fin 3 → SizeT) : Setter CopyBufferRect := fun p =>
  if r 0 = 0 ∨ r 1 = 0 ∨ r 2 = 0 then (p, some (.invalidValue, "invalid region"))
  else ({ p with region := some r }, none)

def setTargetOffset (a : RectArgs) : Setter CopyBufferRect := fun p =>
  match p.target, p.region with
  | some target, some r =>
    let s := a.setOffset ⟨"target origin is null", "invalid target buffer row pitch", "invalid target buffer slice pitch"⟩
      (some target.getSize) r p.targetSide
    ({ p with targetSide := s.1, targetOrigin := if s.2.isNone then a.origin else p.targetOrigin }, s.2)
  | _, _ => (p, none)

def setSourceOffset (a : RectArgs) : Setter CopyBufferRect := fun p =>
  match p.source, p.region with
  | some source, some r =>
    let s := a.setOffset ⟨"source origin is null", "invalid host row pitch", "invalid host slice pitch"⟩
      (some source.getSize) r p.sourceSide
    ({ p with sourceSide := s.1, sourceOrigin := if s.2.isNone then a.origin else p.sourceOrigin }, s.2)
  | _, _ => (p, none)

/-- The loop over the dimensions runs while there is no overlap; it begins with one. -/
def overlapLoop (r target source : Fin 3 → SizeT) : List (Fin 3) → Bool → Bool
  | [], overlap => overlap
  | d :: ds, overlap =>
    if overlap then overlap
    else overlapLoop r target source ds
      (overlap && decide (source d < target d + r d) && decide (source d + r d > target d))

/-- `a > limit ? a - limit : 0`. -/
def excess (a limit : SizeT) : SizeT := if a > limit then a - limit else 0

/-- One of the ranges begins in the other. -/
def rangesMeet (start₁ end₁ start₂ end₂ : SizeT) : Bool :=
  (decide (start₁ ≤ start₂) && decide (start₂ < end₁)) || (decide (start₂ ≤ start₁) && decide (start₁ < end₂))

/-- What `CheckCopyOverlap` computes when the pitches are the same. -/
def overlaps (r target source : Fin 3 → SizeT) (targetSide sourceSide : RectSide) : Bool :=
  let rowPitch := targetSide.rowPitch
  let slicePitch := targetSide.slicePitch
  let overlap := overlapLoop r target source (List.finRange 3) true
  let size := r 2 * slicePitch + r 1 * rowPitch + r 0
  let meet := rangesMeet sourceSide.offset (sourceSide.offset + size) targetSide.offset (targetSide.offset + size)
  if overlap then overlap
  else
    let deltaSourceX := excess (source 0 + r 0) rowPitch
    let deltaTargetX := excess (target 0 + r 0) rowPitch
    let height := slicePitch / rowPitch
    let deltaSourceY := excess (source 1 + r 1) height
    let deltaTargetY := excess (target 1 + r 1) height
    let alongX := (decide (deltaSourceX > 0) && decide (deltaSourceX > target 0)) ||
      (decide (deltaTargetX > 0) && decide (deltaTargetX > source 0))
    let alongY := (decide (deltaSourceY > 0) && decide (deltaSourceY > target 1)) ||
      (decide (deltaTargetY > 0) && decide (deltaTargetY > source 1))
    (alongX && meet) || (decide (r 2 > 1) && alongY && meet)

/-- The same buffer, or sub-buffers of one buffer. -/
def sameBuffer (t s : BufferObject) : Bool :=
  t == s || (t.buffer.isSubBuffer && s.buffer.isSubBuffer && t.buffer.getParent == s.buffer.getParent)

def checkCopyOverlap : Setter CopyBufferRect := fun p =>
  match p.target, p.source, p.region, p.targetOrigin, p.sourceOrigin with
  | some target, some source, some r, some targetOrigin, some sourceOrigin =>
    if sameBuffer target source then
      if p.targetSide.rowPitch ≠ p.sourceSide.rowPitch ∧ p.targetSide.slicePitch ≠ p.sourceSide.slicePitch then
        (p, some (.invalidValue, "different pitches between target and source buffer."))
      else if overlaps r targetOrigin sourceOrigin p.targetSide p.sourceSide then
        (p, some (.memCopyOverlap, "source and target regions overlap"))
      else (p, none)
    else (p, none)
  | _, _, _, _, _ => (p, none)

def build (q : QueueInfo) (x : CopyRectArgs) : CommandBuilder CopyBufferRect :=
  let b := (new q x.target x.source).call (setRegion x.region)
  let b := (b.call (setTargetOffset x.targetArgs)).call (setSourceOffset x.sourceArgs)
  (b.call checkCopyOverlap).setWaitList (fun _ => false) x.wl.n x.wl.evs

end EnqueueCopyBufferRectBuilder

/-! ## The commands that are created -/

open CommandBuilder

/-- No extent of the region is zero. -/
def RegionAccepted (r : Fin 3 → SizeT) : Prop := ¬ (r 0 = 0 ∨ r 1 = 0 ∨ r 2 = 0)

namespace RectArgs

/-- The tests on one side; `bound` is the size of a buffer. -/
structure Accepted (a : RectArgs) (bound : Option SizeT) (r o : Fin 3 → SizeT) : Prop where
  origin : a.origin = some o
  rowPitch : ¬ (a.rowPitch ≠ 0 ∧ a.rowPitch < r 0)
  slicePitch : ¬ (a.slicePitch ≠ 0 ∧ (a.slicePitch < r 1 * a.rowWord r ∨ a.slicePitch % a.rowWord r ≠ 0))
  fits : ∀ size, bound = some size → a.lastWord r o ≤ size

variable {a : RectArgs} {m : SideMessages} {bound : Option SizeT} {r o : Fin 3 → SizeT} {old : RectSide}

theorem setOffset_of_accepted (h : a.Accepted bound r o) : a.setOffset m bound r old = (a.side r o, none) := by
  have hbound : ¬ bound.any (· < a.lastWord r o) = true := by
    cases bound with
    | none => simp
    | some size => simpa using BitVec.not_lt.2 (h.fits size rfl)
  simp only [setOffset, h.origin]
  rw [if_neg h.rowPitch, if_neg h.slicePitch, if_neg hbound]

theorem setOffset_eq_none : (a.setOffset m bound r old).2 = none ↔ ∃ o, a.Accepted bound r o := by
  constructor
  · intro h
    unfold setOffset at h
    split at h
    · cases h
    · next o ho =>
      split_ifs at h with h₁ h₂ h₃
      refine ⟨o, ho, h₁, h₂, ?_⟩
      rintro size rfl
      simpa using h₃
  · rintro ⟨o, h⟩
    rw [setOffset_of_accepted h]

theorem setOffset_code {x : Report} (h : (a.setOffset m bound r old).2 = some x) : x.1 ≠ .invalidOperation := by
  unfold setOffset at h
  split at h
  · cases h; simp
  · split_ifs at h <;> cases h <;> simp

end RectArgs

namespace HostRectTransfer

variable {t : BufferTests} {nullMsg : String} {q : QueueInfo} {buf : Option Mem} {ptr : Option Nat}
  {region : Option (Fin 3 → SizeT)} {a : RectArgs} {m : SideMessages}

theorem setRegion_eq_none {p : HostRectTransfer} :
    (setRegion region p).2 = none ↔ ∃ r, region = some r ∧ RegionAccepted r := by
  cases region with
  | none => simp [setRegion]
  | some r =>
    simp only [setRegion, RegionAccepted, Option.some.injEq, exists_eq_left']
    split <;> simp_all

theorem setRegion_of_accepted {p : HostRectTransfer} {r : Fin 3 → SizeT} (h : RegionAccepted r) :
    setRegion (some r) p = ({ p with region := some r }, none) := by
  simp only [setRegion]
  rw [if_neg h]

theorem setRegion_code {p : HostRectTransfer} {x : Report} (h : (setRegion region p).2 = some x) :
    x.1 ≠ .invalidOperation := by
  unfold setRegion at h
  split at h
  · cases h; simp
  · split at h <;> cases h
    simp

theorem setHostOffset_code {p : HostRectTransfer} {x : Report} (h : (setHostOffset m a p).2 = some x) :
    x.1 ≠ .invalidOperation := by
  unfold setHostOffset at h
  split at h
  · cases h
  · exact RectArgs.setOffset_code h

theorem setBufferOffset_code {p : HostRectTransfer} {x : Report} (h : (setBufferOffset m a p).2 = some x) :
    x.1 ≠ .invalidOperation := by
  unfold setBufferOffset at h
  split at h
  · exact RectArgs.setOffset_code h
  · cases h

/-- The side of the host is accepted, whatever else is known. -/
theorem setHostOffset_eq_none {p : HostRectTransfer} {r : Fin 3 → SizeT} (hr : p.region = some r) :
    (setHostOffset m a p).2 = none ↔ ∃ o, a.Accepted none r o := by
  simp only [setHostOffset, hr]
  exact RectArgs.setOffset_eq_none

theorem setBufferOffset_eq_none {p : HostRectTransfer} {r : Fin 3 → SizeT} (hr : p.region = some r) :
    (setBufferOffset m a p).2 = none ↔ ∀ b, p.buffer = some b → ∃ o, a.Accepted (some b.getSize) r o := by
  cases hb : p.buffer with
  | none => simp [setBufferOffset, hb]
  | some b =>
    simp only [setBufferOffset, hb, hr, Option.some.injEq, forall_eq']
    exact RectArgs.setOffset_eq_none

@[simp] theorem setHostOffset_frame (m : SideMessages) (a : RectArgs) (p : HostRectTransfer) :
    (setHostOffset m a p).1.region = p.region ∧ (setHostOffset m a p).1.buffer = p.buffer ∧
      (setHostOffset m a p).1.blocking = p.blocking := by
  unfold setHostOffset
  split <;> simp_all

@[simp] theorem setBufferOffset_frame (m : SideMessages) (a : RectArgs) (p : HostRectTransfer) :
    (setBufferOffset m a p).1.region = p.region ∧ (setBufferOffset m a p).1.buffer = p.buffer ∧
      (setBufferOffset m a p).1.blocking = p.blocking := by
  unfold setBufferOffset
  split <;> simp_all

@[simp] theorem setRegion_frame (region : Option (Fin 3 → SizeT)) (p : HostRectTransfer) :
    (setRegion region p).1.buffer = p.buffer ∧ (setRegion region p).1.blocking = p.blocking := by
  unfold setRegion
  split
  · simp
  · split <;> simp

theorem new_reports_nil :
    (new t nullMsg q buf ptr).reports = [] ↔ (∃ b, buf = some (.buffer b) ∧ t.Admits q b) ∧ ptr.isSome = true := by
  simp [new, BufferTests.checkBuffer_eq_none, checkPointer_eq_none]

theorem new_refuses : (new t nullMsg q buf ptr).Refuses ↔ ∃ b, buf = some (.buffer b) ∧ t.Denies b := by
  rw [← BufferTests.checkBuffer_invalidOperation (q := q), Refuses, new]
  cases ptr <;> simp [checkPointer]

theorem setHostOffset_of_accepted {p : HostRectTransfer} {r o : Fin 3 → SizeT} (hr : p.region = some r)
    (h : a.Accepted none r o) : (setHostOffset m a p).1 = { p with hostSide := a.side r o } := by
  simp [setHostOffset, hr, RectArgs.setOffset_of_accepted h]

theorem setBufferOffset_of_accepted {p : HostRectTransfer} {b : BufferObject} {r o : Fin 3 → SizeT}
    (hb : p.buffer = some b) (hr : p.region = some r) (h : a.Accepted (some b.getSize) r o) :
    (setBufferOffset m a p).1 = { p with bufferSide := a.side r o } := by
  simp [setBufferOffset, hb, hr, RectArgs.setOffset_of_accepted h]

end HostRectTransfer

namespace HostRectArgs

variable {x : HostRectArgs} {t : BufferTests} {nullMsg : String} {q : QueueInfo} {m m' : SideMessages}

/-- What the setters of the region and of both sides ask for. -/
def AreaAccepted (x : HostRectArgs) : Prop :=
  ∃ r, x.region = some r ∧ RegionAccepted r ∧ (∃ o, x.hostArgs.Accepted none r o) ∧
    ∀ b, Mem.buffer? x.buf = some b → ∃ o, x.bufferArgs.Accepted (some b.getSize) r o

/-- The sides are looked at with the region that was set, in whichever order. -/
theorem area_eq_none {p p' p'' : HostRectTransfer} (hp' : p'.region = (HostRectTransfer.setRegion x.region p).1.region)
    (hp'' : p''.region = (HostRectTransfer.setRegion x.region p).1.region) (hb : p''.buffer = Mem.buffer? x.buf) :
    ((HostRectTransfer.setRegion x.region p).2 = none ∧ (HostRectTransfer.setHostOffset m x.hostArgs p').2 = none ∧
        (HostRectTransfer.setBufferOffset m' x.bufferArgs p'').2 = none) ↔ x.AreaAccepted := by
  rw [HostRectTransfer.setRegion_eq_none, AreaAccepted, ← hb]
  have hset : ∀ r, RegionAccepted r → x.region = some r → p'.region = some r ∧ p''.region = some r := by
    intro r hr hregion
    rw [hp', hp'', hregion, HostRectTransfer.setRegion_of_accepted hr]
    exact ⟨rfl, rfl⟩
  constructor
  · rintro ⟨⟨r, hregion, hr⟩, hhost, hbuffer⟩
    obtain ⟨h', h''⟩ := hset r hr hregion
    exact ⟨r, hregion, hr, (HostRectTransfer.setHostOffset_eq_none h').1 hhost,
      (HostRectTransfer.setBufferOffset_eq_none h'').1 hbuffer⟩
  · rintro ⟨r, hregion, hr, hhost, hbuffer⟩
    obtain ⟨h', h''⟩ := hset r hr hregion
    exact ⟨⟨r, hregion, hr⟩, (HostRectTransfer.setHostOffset_eq_none h').2 hhost,
      (HostRectTransfer.setBufferOffset_eq_none h'').2 hbuffer⟩

theorem read_adds :
    Adds (HostRectTransfer.new EnqueueReadBufferBuilder.tests "pointer to data sink is null" q x.buf x.ptr)
      (EnqueueReadBufferRectBuilder.build q x) (x.AreaAccepted ∧ x.wl.Accepted q.context x.blocking) := by
  unfold EnqueueReadBufferRectBuilder.build
  rw [setBlocking_eq rfl]
  refine Adds.trans ?_ ((adds_setWaitList rfl).congr ?_)
  · refine ((adds_call Iff.rfl fun x => HostRectTransfer.setRegion_code).trans
      ((adds_call Iff.rfl fun x => HostRectTransfer.setHostOffset_code).trans
        (adds_call Iff.rfl fun x => HostRectTransfer.setBufferOffset_code))).congr ?_
    exact area_eq_none rfl (by simp) (by simp [HostRectTransfer.new])
  · simp [WaitListArg.Accepted, HostRectTransfer.new]

theorem write_adds :
    Adds (HostRectTransfer.new EnqueueWriteBufferRectBuilder.tests "pointer to data source is null" q x.buf x.ptr)
      (EnqueueWriteBufferRectBuilder.build q x) (x.AreaAccepted ∧ x.wl.Accepted q.context x.blocking) := by
  unfold EnqueueWriteBufferRectBuilder.build
  rw [setBlocking_eq rfl]
  refine Adds.trans ?_ ((adds_setWaitList rfl).congr ?_)
  · refine ((adds_call Iff.rfl fun x => HostRectTransfer.setRegion_code).trans
      ((adds_call Iff.rfl fun x => HostRectTransfer.setBufferOffset_code).trans
        (adds_call Iff.rfl fun x => HostRectTransfer.setHostOffset_code))).congr ?_
    rw [and_comm (a := (HostRectTransfer.setBufferOffset _ _ _).2 = none)]
    exact area_eq_none (by simp) (by simp) (by simp [HostRectTransfer.new])
  · simp [WaitListArg.Accepted, HostRectTransfer.new]

/-- All that a builder with the tests `t` asks for. -/
structure Accepted (x : HostRectArgs) (t : BufferTests) (q : QueueInfo) (b : BufferObject) (r o o' : Fin 3 → SizeT) :
    Prop where
  buffer : x.buf = some (.buffer b)
  admitted : t.Admits q b
  pointer : x.ptr.isSome = true
  region : x.region = some r
  regionPos : RegionAccepted r
  bufferSide : x.bufferArgs.Accepted (some b.getSize) r o
  hostSide : x.hostArgs.Accepted none r o'
  waitList : x.wl.Accepted q.context x.blocking

/-- The command that is created then. -/
def command (x : HostRectArgs) (b : BufferObject) (r o o' : Fin 3 → SizeT) : Built HostRectTransfer where
  params :=
    { buffer := some b
      pointer := x.ptr
      blocking := x.blocking
      region := some r
      bufferSide := x.bufferArgs.side r o
      hostSide := x.hostArgs.side r o' }
  waitList := x.wl.events

/-- For a builder that takes over what it accepts. -/
theorem create_ok_iff_of {bld : CommandBuilder HostRectTransfer} {cmd : Built HostRectTransfer}
    (hadds : Adds (HostRectTransfer.new t nullMsg q x.buf x.ptr) bld
      (x.AreaAccepted ∧ x.wl.Accepted q.context x.blocking))
    (hset : ∀ b r o o', x.Accepted t q b r o o' → bld.params = (x.command b r o o').params)
    (hwl : bld.waitList = x.wl.events) :
    bld.create = .ok cmd ↔ ∃ b r o o', x.Accepted t q b r o o' ∧ cmd = x.command b r o o' := by
  rw [CommandBuilder.create_ok_iff, hadds.reports_eq_nil_iff, HostRectTransfer.new_reports_nil, hwl]
  constructor
  · rintro ⟨⟨⟨⟨b, hb, hadm⟩, hptr⟩, ⟨r, hregion, hr, ⟨o', ho'⟩, harea⟩, hwait⟩, rfl⟩
    obtain ⟨o, ho⟩ := harea b (Mem.buffer?_eq_some.2 hb)
    have hacc : x.Accepted t q b r o o' := ⟨hb, hadm, hptr, hregion, hr, ho, ho', hwait⟩
    exact ⟨b, r, o, o', hacc, congrArg (Built.mk · _) (hset b r o o' hacc)⟩
  · rintro ⟨b, r, o, o', hacc, rfl⟩
    refine ⟨⟨⟨⟨b, hacc.buffer, hacc.admitted⟩, hacc.pointer⟩,
      ⟨r, hacc.region, hacc.regionPos, ⟨o', hacc.hostSide⟩, fun b' hb' => ?_⟩, hacc.waitList⟩,
      congrArg (Built.mk · _) (hset b r o o' hacc).symm⟩
    obtain rfl : b = b' := by simpa [hacc.buffer] using hb'
    exact ⟨o, hacc.bufferSide⟩

theorem read_create_ok_iff {cmd : Built HostRectTransfer} :
    (EnqueueReadBufferRectBuilder.build q x).create = .ok cmd ↔
      ∃ b r o o', x.Accepted EnqueueReadBufferBuilder.tests q b r o o' ∧ cmd = x.command b r o o' := by
  refine create_ok_iff_of read_adds (fun b r o o' h => ?_)
    (by rw [EnqueueReadBufferRectBuilder.build, setBlocking_eq rfl]; rfl)
  rw [EnqueueReadBufferRectBuilder.build, setBlocking_eq rfl]
  simp only [setWaitList_params, call_params, h.region]
  rw [HostRectTransfer.setBufferOffset_of_accepted (b := b) (by simp [HostRectTransfer.new, h.buffer])
      (by simp [HostRectTransfer.setRegion_of_accepted h.regionPos]) h.bufferSide,
    HostRectTransfer.setHostOffset_of_accepted (by simp [HostRectTransfer.setRegion_of_accepted h.regionPos]) h.hostSide,
    HostRectTransfer.setRegion_of_accepted h.regionPos]
  simp [HostRectTransfer.new, command, h.buffer]

theorem write_create_ok_iff {cmd : Built HostRectTransfer} :
    (EnqueueWriteBufferRectBuilder.build q x).create = .ok cmd ↔
      ∃ b r o o', x.Accepted EnqueueWriteBufferRectBuilder.tests q b r o o' ∧ cmd = x.command b r o o' := by
  refine create_ok_iff_of write_adds (fun b r o o' h => ?_)
    (by rw [EnqueueWriteBufferRectBuilder.build, setBlocking_eq rfl]; rfl)
  rw [EnqueueWriteBufferRectBuilder.build, setBlocking_eq rfl]
  simp only [setWaitList_params, call_params, h.region]
  rw [HostRectTransfer.setHostOffset_of_accepted (by simp [HostRectTransfer.setRegion_of_accepted h.regionPos]) h.hostSide,
    HostRectTransfer.setBufferOffset_of_accepted (b := b) (by simp [HostRectTransfer.new, h.buffer])
      (by simp [HostRectTransfer.setRegion_of_accepted h.regionPos]) h.bufferSide,
    HostRectTransfer.setRegion_of_accepted h.regionPos]
  simp [HostRectTransfer.new, command, h.buffer]

end HostRectArgs

namespace EnqueueCopyBufferRectBuilder

variable {p : CopyBufferRect} {r : Fin 3 → SizeT} {a : RectArgs} {x : Report}

theorem setRegion_eq_none : (setRegion r p).2 = none ↔ RegionAccepted r := by
  unfold setRegion RegionAccepted
  split <;> simp_all

theorem setRegion_of_accepted (h : RegionAccepted r) : setRegion r p = ({ p with region := some r }, none) := by
  rw [setRegion, if_neg h]

theorem setRegion_code (h : (setRegion r p).2 = some x) : x.1 ≠ .invalidOperation := by
  unfold setRegion at h
  split at h <;> cases h
  simp

theorem setTargetOffset_eq_none {t : BufferObject} (ht : p.target = some t) (hr : p.region = some r) :
    (setTargetOffset a p).2 = none ↔ ∃ o, a.Accepted (some t.getSize) r o := by
  simp only [setTargetOffset, ht, hr]
  exact RectArgs.setOffset_eq_none

theorem setSourceOffset_eq_none {s : BufferObject} (hs : p.source = some s) (hr : p.region = some r) :
    (setSourceOffset a p).2 = none ↔ ∃ o, a.Accepted (some s.getSize) r o := by
  simp only [setSourceOffset, hs, hr]
  exact RectArgs.setOffset_eq_none

theorem setTargetOffset_of_accepted {t : BufferObject} {o : Fin 3 → SizeT} (ht : p.target = some t)
    (hr : p.region = some r) (h : a.Accepted (some t.getSize) r o) :
    setTargetOffset a p = ({ p with targetSide := a.side r o, targetOrigin := some o }, none) := by
  simp [setTargetOffset, ht, hr, RectArgs.setOffset_of_accepted h, h.origin]

theorem setSourceOffset_of_accepted {s : BufferObject} {o : Fin 3 → SizeT} (hs : p.source = some s)
    (hr : p.region = some r) (h : a.Accepted (some s.getSize) r o) :
    setSourceOffset a p = ({ p with sourceSide := a.side r o, sourceOrigin := some o }, none) := by
  simp [setSourceOffset, hs, hr, RectArgs.setOffset_of_accepted h, h.origin]

theorem setTargetOffset_code (h : (setTargetOffset a p).2 = some x) : x.1 ≠ .invalidOperation := by
  unfold setTargetOffset at h
  split at h
  · exact RectArgs.setOffset_code h
  · cases h

theorem setSourceOffset_code (h : (setSourceOffset a p).2 = some x) : x.1 ≠ .invalidOperation := by
  unfold setSourceOffset at h
  split at h
  · exact RectArgs.setOffset_code h
  · cases h

/-- The loop does not run, so that there is an overlap whatever the regions are. -/
theorem overlaps_eq_true (target source : Fin 3 → SizeT) (targetSide sourceSide : RectSide) :
    overlaps r target source targetSide sourceSide = true := by
  have hloop : overlapLoop r target source (List.finRange 3) true = true := by
    simp [List.finRange_succ, overlapLoop]
  simp [overlaps, hloop]

/-- A rectangle of a buffer is never copied to the same buffer. -/
theorem checkCopyOverlap_eq_none {t s : BufferObject} {ot os : Fin 3 → SizeT} (ht : p.target = some t)
    (hs : p.source = some s) (hr : p.region = some r) (hot : p.targetOrigin = some ot) (hos : p.sourceOrigin = some os) :
    (checkCopyOverlap p).2 = none ↔ sameBuffer t s = false := by
  simp only [checkCopyOverlap, ht, hs, hr, hot, hos, overlaps_eq_true]
  split
  · next hsame => split <;> simp [hsame]
  · next hsame => simpa using hsame

theorem checkCopyOverlap_params : (checkCopyOverlap p).1 = p := by
  unfold checkCopyOverlap
  split
  · split_ifs <;> rfl
  · rfl

theorem checkCopyOverlap_code (h : (checkCopyOverlap p).2 = some x) : x.1 ≠ .invalidOperation := by
  unfold checkCopyOverlap at h
  split at h
  · split_ifs at h <;> cases h <;> simp
  · cases h

end EnqueueCopyBufferRectBuilder

namespace CopyRectArgs

open EnqueueCopyBufferRectBuilder

variable {x : CopyRectArgs} {q : QueueInfo}

/-- The fields when the setters before the test on the overlap have been called. -/
def sides (x : CopyRectArgs) (q : QueueInfo) : CommandBuilder CopyBufferRect :=
  (((new q x.target x.source).call (setRegion x.region)).call (setTargetOffset x.targetArgs)).call
    (setSourceOffset x.sourceArgs)

theorem build_adds :
    Adds { ctx := q.context, params := (new q x.target x.source).params } (build q x)
      (((((((∃ t, x.target = some (.buffer t) ∧ targetTests.Admits q t) ∧
            ∃ s, x.source = some (.buffer s) ∧ sourceTests.Admits q s) ∧
          (setRegion x.region (new q x.target x.source).params).2 = none) ∧
          (setTargetOffset x.targetArgs ((new q x.target x.source).call (setRegion x.region)).params).2 = none) ∧
          (setSourceOffset x.sourceArgs (((new q x.target x.source).call (setRegion x.region)).call
            (setTargetOffset x.targetArgs)).params).2 = none) ∧
        (checkCopyOverlap (x.sides q).params).2 = none) ∧ x.wl.Accepted q.context false) := by
  have hnew : Adds { ctx := q.context, params := (new q x.target x.source).params } (new q x.target x.source)
      ((∃ t, x.target = some (.buffer t) ∧ targetTests.Admits q t) ∧
        ∃ s, x.source = some (.buffer s) ∧ sourceTests.Admits q s) :=
    adds_two BufferTests.checkBuffer_eq_none BufferTests.checkBuffer_eq_none
      (fun r => BufferTests.checkBuffer_code rfl) fun r => BufferTests.checkBuffer_code rfl
  exact ((((hnew.trans (adds_call Iff.rfl fun x => setRegion_code)).trans
    (adds_call Iff.rfl fun x => setTargetOffset_code)).trans (adds_call Iff.rfl fun x => setSourceOffset_code)).trans
    (adds_call Iff.rfl fun x => checkCopyOverlap_code)).trans (adds_setWaitList rfl)

/-- All that the builder asks for. -/
structure Accepted (x : CopyRectArgs) (q : QueueInfo) (t s : BufferObject) (ot os : Fin 3 → SizeT) : Prop where
  target : x.target = some (.buffer t)
  targetAdmitted : targetTests.Admits q t
  source : x.source = some (.buffer s)
  sourceAdmitted : sourceTests.Admits q s
  regionPos : RegionAccepted x.region
  targetSide : x.targetArgs.Accepted (some t.getSize) x.region ot
  sourceSide : x.sourceArgs.Accepted (some s.getSize) x.region os
  distinct : sameBuffer t s = false
  waitList : x.wl.Accepted q.context false

/-- The command that is created then. -/
def command (x : CopyRectArgs) (t s : BufferObject) (ot os : Fin 3 → SizeT) : Built CopyBufferRect where
  params :=
    { target := some t
      source := some s
      region := some x.region
      targetOrigin := some ot
      sourceOrigin := some os
      targetSide := x.targetArgs.side x.region ot
      sourceSide := x.sourceArgs.side x.region os }
  waitList := x.wl.events

/-- Each call finds the fields that the calls before it have set. -/
theorem sides_params {t s : BufferObject} {ot os : Fin 3 → SizeT} (ht : x.target = some (.buffer t))
    (hs : x.source = some (.buffer s)) (hr : RegionAccepted x.region)
    (hot : x.targetArgs.Accepted (some t.getSize) x.region ot) (hos : x.sourceArgs.Accepted (some s.getSize) x.region os) :
    (x.sides q).params = (x.command t s ot os).params := by
  simp only [sides, call_params]
  rw [setRegion_of_accepted hr, setTargetOffset_of_accepted (t := t) (by simp [new, ht]) rfl hot,
    setSourceOffset_of_accepted (s := s) (by simp [new, hs]) rfl hos]
  simp [new, command, ht, hs]

theorem create_ok_iff {cmd : Built CopyBufferRect} :
    (build q x).create = .ok cmd ↔ ∃ t s ot os, x.Accepted q t s ot os ∧ cmd = x.command t s ot os := by
  have hparams : (build q x).params = (x.sides q).params := checkCopyOverlap_params
  rw [CommandBuilder.create_ok_iff, build_adds.reports_nil, hparams]
  constructor
  · rintro ⟨⟨⟨⟨⟨⟨⟨⟨t, ht, hadmt⟩, s, hs, hadms⟩, hr⟩, htarget⟩, hsource⟩, hover⟩, hwl⟩, rfl⟩
    rw [setRegion_eq_none] at hr
    have hregion : setRegion x.region (new q x.target x.source).params =
        ({ (new q x.target x.source).params with region := some x.region }, none) := setRegion_of_accepted hr
    rw [call_params, hregion, setTargetOffset_eq_none (t := t) (by simp [new, ht]) rfl] at htarget
    obtain ⟨ot, hot⟩ := htarget
    rw [call_params, call_params, hregion, setTargetOffset_of_accepted (t := t) (by simp [new, ht]) rfl hot,
      setSourceOffset_eq_none (s := s) (by simp [new, hs]) rfl] at hsource
    obtain ⟨os, hos⟩ := hsource
    have hparams := sides_params (q := q) ht hs hr hot hos
    rw [hparams, checkCopyOverlap_eq_none rfl rfl rfl rfl rfl] at hover
    exact ⟨t, s, ot, os, ⟨ht, hadmt, hs, hadms, hr, hot, hos, hover, hwl⟩, congrArg (Built.mk · _) hparams⟩
  · rintro ⟨t, s, ot, os, h, rfl⟩
    have hparams := sides_params (q := q) h.target h.source h.regionPos h.targetSide h.sourceSide
    refine ⟨⟨⟨⟨⟨⟨⟨⟨t, h.target, h.targetAdmitted⟩, s, h.source, h.sourceAdmitted⟩, ?_⟩, ?_⟩, ?_⟩, ?_⟩, h.waitList⟩,
      congrArg (Built.mk · _) hparams.symm⟩
    · exact setRegion_eq_none.2 h.regionPos
    · rw [call_params, setRegion_of_accepted h.regionPos]
      exact (setTargetOffset_eq_none (t := t) (by simp [new, h.target]) rfl).2 ⟨ot, h.targetSide⟩
    · rw [call_params, call_params, setRegion_of_accepted h.regionPos,
        setTargetOffset_of_accepted (t := t) (by simp [new, h.target]) rfl h.targetSide]
      exact (setSourceOffset_eq_none (s := s) (by simp [new, h.source]) rfl).2 ⟨os, h.sourceSide⟩
    · rw [hparams, checkCopyOverlap_eq_none rfl rfl rfl rfl rfl]
      exact h.distinct

end CopyRectArgs

end OpenCRun
