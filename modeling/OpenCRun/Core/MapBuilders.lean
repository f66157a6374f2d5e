import OpenCRun.Core.BufferBuilders
/-!
# Builders of mapping commands

`EnqueueMapBufferBuilder` and `EnqueueMapImageBuilder`. The mapping is recorded
by a setter in the middle of the chain, whether or not there was an error
before it, so a builder has the live mappings of all objects next to its fields.
-/
namespace OpenCRun

/-- What a call finds: the address that `acquireMappingAddrFor` gives, and what was in `MapInfo`
before it is set. -/
structure MapSite where
  addr : Nat
  uninit : MemMappingInfo

/-! ## Flags -/

/-- One of the tests of `SetMapFlags`: `mask` does not go with `bad`, nor with an object that has `denied`. -/
def checkMapFlag (flags : MemFlags) (mapFlags mask bad : CLMapFlags) (denied : MemFlags) : Option Report :=
  if mapFlags.has mask then
    if mapFlags.has bad then some (.invalidValue, "invalid flag combination")
    else if flags.has denied || flags.has MemFlags.HostNoAccess then some (.invalidOperation, "invalid map operation")
    else none
  else none

def checkMapFlags (flags : MemFlags) (mapFlags : CLMapFlags) : Option Report :=
  checkMapFlag flags mapFlags .CL_MAP_READ .CL_MAP_WRITE_INVALIDATE_REGION MemFlags.HostWriteOnly <|>
    checkMapFlag flags mapFlags .CL_MAP_WRITE .CL_MAP_WRITE_INVALIDATE_REGION MemFlags.HostReadOnly <|>
    checkMapFlag flags mapFlags .CL_MAP_WRITE_INVALIDATE_REGION (.CL_MAP_READ ||| .CL_MAP_WRITE) MemFlags.HostReadOnly

/-- The end of `SetMapBuffer`; `set` is the assignment of the pointer. -/
def addMapBuffer {α : Type} (o : MemoryObject) (addr : Nat) (info : MemMappingInfo) (set : α → α) : Setter (α × Mappings) :=
  fun p =>
    let r := o.addMapping p.2 addr info
    if r.2 then ((set p.1, r.1), none) else ((p.1, r.1), some (.mapFailure, "cannot get host pointer to mapped data"))

/-! ## Buffers -/

/-- The arguments of `clEnqueueMapBuffer`. -/
structure MapBufferArgs where
  buf : Option Mem
  blocking : Bool
  mapFlags : CLMapFlags
  offset : SizeT
  size : SizeT
  wl : WaitListArg

structure MapBuffer where
  source : Option BufferObject
  blocking : Bool := false
  mapFlags : CLMapFlags := 0
  offset : SizeT := 0
  size : SizeT := 0
  mapBuf : Nat := 0

namespace EnqueueMapBufferBuilder

def tests : BufferTests where
  null := "map source is null"
  notBuffer := "map source is not a buffer"
  misaligned := "source sub-buffer offset is not aligned with device"
  context := "command queue and buffer have different context"

def new (q : QueueInfo) (s : Mappings) (buf : Option Mem) : CommandBuilder (MapBuffer × Mappings) where
  ctx := q.context
  params := ({ source := Mem.buffer? buf }, s)
  reports := (checkBuffer tests q buf).toList

def setMapFlags (mapFlags : CLMapFlags) : Setter (MapBuffer × Mappings) := fun p =>
  match p.1.source with
  | none => (p, none)
  | some source =>
    match checkMapFlags source.buffer.getFlags mapFlags with
    | some r => (p, some r)
    | none => (({ p.1 with mapFlags }, p.2), none)

def setMapArea (offset size : SizeT) : Setter (MapBuffer × Mappings) := fun p =>
  match p.1.source with
  | none => (p, none)
  | some source =>
    if offset + size > source.getSize then (p, some (.invalidValue, "out of bounds buffer mapping"))
    else (({ p.1 with offset, size }, p.2), none)

/-- Only the dimension 0 of `MapInfo` is set. -/
def mapInfo (uninit : MemMappingInfo) (p : MapBuffer) : MemMappingInfo where
  offset := Function.update uninit.offset 0 p.offset
  size := Function.update uninit.size 0 p.size
  flags := p.mapFlags

def setMapBuffer (site : MapSite) : Setter (MapBuffer × Mappings) := fun p =>
  match p.1.source with
  | none => (p, none)
  | some source =>
    addMapBuffer (.buffer source.buffer) site.addr (mapInfo site.uninit p.1) (fun p => { p with mapBuf := site.addr }) p

def build (q : QueueInfo) (s : Mappings) (site : MapSite) (x : MapBufferArgs) : CommandBuilder (MapBuffer × Mappings) :=
  let b := (new q s x.buf).setBlocking x.blocking fun p => ({ p.1 with blocking := x.blocking }, p.2)
  let b := (b.call (setMapFlags x.mapFlags)).call (setMapArea x.offset x.size)
  (b.call (setMapBuffer site)).setWaitList (·.1.blocking) x.wl.n x.wl.evs

end EnqueueMapBufferBuilder

/-! ## Images -/

/-- The arguments of `clEnqueueMapImage`; of the pointers to the pitches, whether they are not null. -/
structure MapImageArgs where
  image : Option Mem
  blocking : Bool
  mapFlags : CLMapFlags
  origin : Option (Fin 3 → SizeT)
  region : Option (Fin 3 → SizeT)
  rowPitch : Bool
  slicePitch : Bool
  wl : WaitListArg

structure MapImage where
  source : Option ImageObject
  blocking : Bool := false
  mapFlags : CLMapFlags := 0
  origin : Option (Fin 3 → SizeT) := none
  region : Option (Fin 3 → SizeT) := none
  mapPitches : Option (SizeT × SizeT) := none
  mapBuf : Nat := 0

namespace EnqueueMapImageBuilder

def checkSource (q : QueueInfo) (mem : Option Mem) : Option Report :=
  match mem with
  | none => some (.invalidMemObject, "map source is null")
  | some (.buffer _) => some (.invalidMemObject, "map source is not an image")
  | some (.image img) =>
    if q.context ≠ img.context then some (.invalidContext, "command queue and image have different context") else none

def new (q : QueueInfo) (s : Mappings) (image : Option Mem) : CommandBuilder (MapImage × Mappings) where
  ctx := q.context
  params := ({ source := Mem.image? image }, s)
  reports := (checkSource q image).toList ++ (Mem.image? image).elim [] fun img => checkDevImgSupport q img.image

def setMapFlags (mapFlags : CLMapFlags) : Setter (MapImage × Mappings) := fun p =>
  match p.1.source with
  | none => (p, none)
  | some source =>
    match checkMapFlags source.main.flags mapFlags with
    | some r => (p, some r)
    | none => (({ p.1 with mapFlags }, p.2), none)

def setMapPitches (rowPitch slicePitch : Bool) : Setter (MapImage × Mappings) := fun p =>
  match p.1.source, p.1.region with
  | some source, some _ =>
    if !rowPitch then (p, some (.invalidValue, "image row pitch is null"))
    else if (source.image.type = .image1DArray ∨ source.image.type = .image2DArray ∨ source.image.type = .image3D) ∧
        slicePitch = false then
      (p, some (.invalidValue, "image slice pitch is null"))
    else (({ p.1 with mapPitches := some (source.image.getRowPitch, source.image.getSlicePitch) }, p.2), none)
  | _, _ => (p, none)

/-- The origin is kept when the region is refused. -/
def setMapArea (origin region : Option (Fin 3 → SizeT)) : Setter (MapImage × Mappings) := fun p =>
  match p.1.source, origin, region with
  | none, _, _ => (p, none)
  | some _, none, _ => (p, some (.invalidValue, "origin is null"))
  | some _, some o, none => (({ p.1 with origin := some o }, p.2), some (.invalidValue, "region is null"))
  | some source, some o, some r =>
    if r 0 = 0 ∨ r 1 = 0 ∨ r 2 = 0 then
      (({ p.1 with origin := some o }, p.2), some (.invalidValue, "invalid region"))
    else
      match isValidImgRegion source.image o r with
      | some msg => (({ p.1 with origin := some o }, p.2), some (.invalidValue, msg))
      | none => (({ p.1 with origin := some o, region := some r }, p.2), none)

/-- An image over a buffer is mapped as a buffer is. -/
def mapInfo (uninit : MemMappingInfo) (source : ImageObject) (o r : Fin 3 → SizeT) (mapFlags : CLMapFlags) :
    MemMappingInfo :=
  if source.image.type = .image1DBuffer then
    { offset := Function.update uninit.offset 0 (o 0 * source.image.getElementSize)
      size := Function.update uninit.size 0 (r 0 * source.image.getElementSize)
      flags := mapFlags }
  else { offset := o, size := r, flags := mapFlags }

def setMapBuffer (site : MapSite) : Setter (MapImage × Mappings) := fun p =>
  match p.1.source, p.1.origin, p.1.region with
  | some source, some o, some r =>
    addMapBuffer source.object site.addr (mapInfo site.uninit source o r p.1.mapFlags)
      (fun p => { p with mapBuf := site.addr }) p
  | _, _, _ => (p, none)

/-- The pitches are set before there is a region. -/
def build (q : QueueInfo) (s : Mappings) (site : MapSite) (x : MapImageArgs) : CommandBuilder (MapImage × Mappings) :=
  let b := (new q s x.image).setBlocking x.blocking fun p => ({ p.1 with blocking := x.blocking }, p.2)
  let b := (b.call (setMapFlags x.mapFlags)).call (setMapPitches x.rowPitch x.slicePitch)
  let b := (b.call (setMapArea x.origin x.region)).call (setMapBuffer site)
  b.setWaitList (·.1.blocking) x.wl.n x.wl.evs

end EnqueueMapImageBuilder

/-! ## Recording a mapping -/

open CommandBuilder

/-- What `addMapping` asks for: a pointer and flags, and for writing that no live mapping has the pointer
or is found to overlap. -/
def MemoryObject.AcceptsMapping (s : Mappings) (o : MemoryObject) (ptr : Nat) (info : MemMappingInfo) : Prop :=
  ptr ≠ 0 ∧ info.flags ≠ 0 ∧
    (info.flags.writes = true → ∀ m ∈ s o.main, m.ptr ≠ ptr ∧ m.info.isOverlappedWith (o.translated info) = false)

theorem MemoryObject.addMapping_cases (s : Mappings) (o : MemoryObject) (ptr : Nat) (info : MemMappingInfo) :
    (o.AcceptsMapping s ptr info ∧ (o.addMapping s ptr info).2 = true ∧ (o.addMapping s ptr info).1 ≠ s) ∨
      (¬ o.AcceptsMapping s ptr info ∧ o.addMapping s ptr info = (s, false)) := by
  rw [addMapping_eq, addTo, AcceptsMapping]
  by_cases hzero : ptr = 0 ∨ info.flags = 0
  · refine .inr ⟨fun h => hzero.elim h.1 h.2.1, ?_⟩
    rw [if_pos hzero, Function.update_eq_self]
  · rw [if_neg hzero]
    rw [not_or] at hzero
    rcases addOwn_cases (s o.main) ptr (o.translated info) (o.mappedRegion info) with ⟨heq, hseen⟩ | ⟨heq, hseen⟩
    · refine .inl ⟨⟨hzero.1, hzero.2, hseen⟩, by rw [heq], fun h => ?_⟩
      have hrecords := congrFun h o.main
      simp only [heq, Function.update_self] at hrecords
      simpa using congrArg List.length hrecords
    · refine .inr ⟨fun h => hseen h.2.2, ?_⟩
      rw [heq, Function.update_eq_self]

section

variable {α : Type} {o : MemoryObject} {addr : Nat} {info : MemMappingInfo} {set : α → α} {p : α × Mappings}

theorem addMapBuffer_eq_none : (addMapBuffer o addr info set p).2 = none ↔ o.AcceptsMapping p.2 addr info := by
  unfold addMapBuffer
  rcases o.addMapping_cases p.2 addr info with ⟨hacc, htrue, -⟩ | ⟨hrefused, heq⟩
  · simp [htrue, hacc]
  · simp [heq, hrefused]

/-- The live mappings change exactly if the mapping is accepted. -/
theorem addMapBuffer_mappings : (addMapBuffer o addr info set p).1.2 = p.2 ↔ ¬ o.AcceptsMapping p.2 addr info := by
  unfold addMapBuffer
  rcases o.addMapping_cases p.2 addr info with ⟨hacc, htrue, hne⟩ | ⟨hrefused, heq⟩
  · simpa [htrue, hacc] using hne
  · simp [heq, hrefused]

theorem addMapBuffer_of_accepted (h : o.AcceptsMapping p.2 addr info) :
    (addMapBuffer o addr info set p).1 = (set p.1, (o.addMapping p.2 addr info).1) := by
  rcases o.addMapping_cases p.2 addr info with ⟨-, htrue, -⟩ | ⟨hrefused, -⟩
  · simp [addMapBuffer, htrue]
  · exact absurd h hrefused

theorem addMapBuffer_code {r : Report} (h : (addMapBuffer o addr info set p).2 = some r) : r.1 ≠ .invalidOperation := by
  simp only [addMapBuffer] at h
  split at h <;> cases h
  simp

end

/-! ## What the builder of a buffer's mapping records -/

namespace MapBufferArgs

open EnqueueMapBufferBuilder

variable {x : MapBufferArgs} {q : QueueInfo} {s : Mappings} {site : MapSite} {src : BufferObject}

/-- The fields when the mapping is recorded: what is refused has left its defaults. -/
def kept (x : MapBufferArgs) (src : BufferObject) : MapBuffer where
  source := some src
  blocking := x.blocking
  mapFlags := if (checkMapFlags src.buffer.getFlags x.mapFlags).isSome then 0 else x.mapFlags
  offset := if x.offset + x.size > src.getSize then 0 else x.offset
  size := if x.offset + x.size > src.getSize then 0 else x.size

/-- What the mapping is recorded with. -/
def info (x : MapBufferArgs) (site : MapSite) (src : BufferObject) : MemMappingInfo := mapInfo site.uninit (x.kept src)

/-- The calls up to that of `SetMapFlags`. -/
def flagged (q : QueueInfo) (s : Mappings) (x : MapBufferArgs) : CommandBuilder (MapBuffer × Mappings) :=
  ((new q s x.buf).setBlocking x.blocking fun p => ({ p.1 with blocking := x.blocking }, p.2)).call
    (setMapFlags x.mapFlags)

theorem setMapFlags_eq (src : BufferObject) {p : MapBuffer × Mappings} (h : p.1.source = some src) :
    setMapFlags x.mapFlags p =
      (({ p.1 with
          mapFlags := if (checkMapFlags src.buffer.getFlags x.mapFlags).isSome then p.1.mapFlags else x.mapFlags }, p.2),
        checkMapFlags src.buffer.getFlags x.mapFlags) := by
  obtain ⟨⟨source, blocking, flags, offset, size, mapBuf⟩, m⟩ := p
  obtain rfl : source = some src := h
  simp only [setMapFlags]
  cases checkMapFlags src.buffer.getFlags x.mapFlags <;> rfl

theorem flagged_params (h : x.buf = some (.buffer src)) :
    (flagged q s x).params = ({ x.kept src with offset := 0, size := 0 }, s) := by
  rw [flagged, setBlocking_eq rfl, call_params, setMapFlags_eq src (by simp [new, h])]
  simp [new, kept, h]

theorem flagged_reports (h : x.buf = some (.buffer src)) :
    (flagged q s x).reports =
      (checkBuffer tests q x.buf).toList ++ (checkMapFlags src.buffer.getFlags x.mapFlags).toList := by
  rw [flagged, setBlocking_eq rfl]
  simp only [CommandBuilder.call]
  rw [setMapFlags_eq src (by simp [new, h])]
  rfl

theorem setMapArea_params (h : x.buf = some (.buffer src)) :
    (setMapArea x.offset x.size (flagged q s x).params).1 = (x.kept src, s) := by
  rw [flagged_params h, setMapArea, kept]
  simp only []
  split <;> rfl

theorem setMapArea_eq_none (h : x.buf = some (.buffer src)) :
    (setMapArea x.offset x.size (flagged q s x).params).2 = none ↔ x.offset + x.size ≤ src.getSize := by
  rw [flagged_params h, setMapArea, kept]
  simp only []
  split
  · next hgt => exact iff_of_false nofun (BitVec.not_le.2 hgt)
  · next hgt => exact iff_of_true rfl (BitVec.not_lt.1 hgt)

theorem setMapArea_code {p : MapBuffer × Mappings} {r : Report} (h : (setMapArea x.offset x.size p).2 = some r) :
    r.1 ≠ .invalidOperation := by
  unfold setMapArea at h
  split at h
  · cases h
  · split at h <;> cases h
    simp

theorem build_params (h : x.buf = some (.buffer src)) :
    (build q s site x).params =
      (addMapBuffer (.buffer src.buffer) site.addr (x.info site src) (fun p => { p with mapBuf := site.addr })
        (x.kept src, s)).1 := by
  change (setMapBuffer site (setMapArea x.offset x.size (flagged q s x).params).1).1 = _
  rw [setMapArea_params h]
  rfl

theorem setMapBuffer_blocking (p : MapBuffer × Mappings) : (setMapBuffer site p).1.1.blocking = p.1.blocking := by
  unfold setMapBuffer addMapBuffer
  split
  · rfl
  · simp only []
    split <;> rfl

theorem build_adds (h : x.buf = some (.buffer src)) :
    Adds (flagged q s x) (build q s site x)
      (x.offset + x.size ≤ src.getSize ∧ MemoryObject.AcceptsMapping s (.buffer src.buffer) site.addr (x.info site src) ∧
        x.wl.Accepted q.context x.blocking) := by
  have hctx : (flagged q s x).ctx = q.context ∧ (flagged q s x).waitList = [] := by
    rw [flagged, setBlocking_eq rfl]
    exact ⟨rfl, rfl⟩
  have hmap : ((flagged q s x).call (setMapArea x.offset x.size)).params = (x.kept src, s) := setMapArea_params h
  have hbuf : Adds ((flagged q s x).call (setMapArea x.offset x.size))
      (((flagged q s x).call (setMapArea x.offset x.size)).call (setMapBuffer site))
      (MemoryObject.AcceptsMapping s (.buffer src.buffer) site.addr (x.info site src)) := by
    refine adds_call ?_ fun r hr => ?_ <;> rw [hmap] at *
    · exact addMapBuffer_eq_none
    · exact addMapBuffer_code hr
  have hwait : (((flagged q s x).call (setMapArea x.offset x.size)).call (setMapBuffer site)).waitList = [] := hctx.2
  refine (adds_call (setMapArea_eq_none h) fun r => setMapArea_code).trans (hbuf.trans ((adds_setWaitList hwait).congr ?_))
  have hblocking : (((flagged q s x).call (setMapArea x.offset x.size)).call (setMapBuffer site)).params.1.blocking =
      x.blocking := by
    rw [call_params, setMapBuffer_blocking, hmap]
    rfl
  rw [hblocking, call_ctx, call_ctx, hctx.1, WaitListArg.Accepted]

/-- All that the builder asks for. -/
structure Accepted (x : MapBufferArgs) (q : QueueInfo) (s : Mappings) (site : MapSite) (src : BufferObject) : Prop where
  admitted : tests.Admits q src
  mapFlags : checkMapFlags src.buffer.getFlags x.mapFlags = none
  area : x.offset + x.size ≤ src.getSize
  mapped : MemoryObject.AcceptsMapping s (.buffer src.buffer) site.addr (x.info site src)
  waitList : x.wl.Accepted q.context x.blocking

theorem build_reports_nil (h : x.buf = some (.buffer src)) : (build q s site x).reports = [] ↔ x.Accepted q s site src := by
  rw [(build_adds h).reports_eq_nil_iff, flagged_reports h, List.append_eq_nil_iff, Option.toList_eq_nil_iff,
    Option.toList_eq_nil_iff, BufferTests.checkBuffer_eq_none]
  constructor
  · rintro ⟨⟨⟨b, hb, hadm⟩, hflags⟩, harea, hmap, hwl⟩
    obtain rfl : src = b := by simpa [h] using hb
    exact ⟨hadm, hflags, harea, hmap, hwl⟩
  · rintro ⟨hadm, hflags, harea, hmap, hwl⟩
    exact ⟨⟨⟨src, h, hadm⟩, hflags⟩, harea, hmap, hwl⟩

/-- Without a buffer nothing is recorded. -/
theorem build_of_no_buffer (h : Mem.buffer? x.buf = none) :
    (build q s site x).params.2 = s ∧ (build q s site x).reports ≠ [] := by
  have hcheck : (checkBuffer tests q x.buf).toList ≠ [] := by
    rw [Ne, Option.toList_eq_nil_iff, BufferTests.checkBuffer_eq_none]
    rintro ⟨b, hb, -⟩
    simp [hb, Mem.buffer?] at h
  rw [build, setBlocking_eq rfl]
  refine ⟨by simp [setMapFlags, setMapArea, setMapBuffer, new, h], fun hnil => hcheck ?_⟩
  simp only [CommandBuilder.call, CommandBuilder.setWaitList, new, List.append_eq_nil_iff] at hnil
  exact hnil.1.1.1.1.1

end MapBufferArgs

/-! ## What the builder of an image's mapping records -/

namespace MapImageArgs

open EnqueueMapImageBuilder

variable {x : MapImageArgs} {q : QueueInfo} {s : Mappings} {site : MapSite} {img : ImageObject} {o r : Fin 3 → SizeT}

/-- The flags when the mapping is recorded. -/
def keptFlags (x : MapImageArgs) (img : ImageObject) : CLMapFlags :=
  if (checkMapFlags img.main.flags x.mapFlags).isSome then 0 else x.mapFlags

/-- What `SetMapArea` asks for. -/
structure Area (x : MapImageArgs) (img : ImageObject) (o r : Fin 3 → SizeT) : Prop where
  origin : x.origin = some o
  region : x.region = some r
  pos : ¬ (r 0 = 0 ∨ r 1 = 0 ∨ r 2 = 0)
  valid : isValidImgRegion img.image o r = none

/-- What the mapping is recorded with. -/
def info (x : MapImageArgs) (site : MapSite) (img : ImageObject) (o r : Fin 3 → SizeT) : MemMappingInfo :=
  mapInfo site.uninit img o r (x.keptFlags img)

/-- The calls up to that of `SetMapFlags`. -/
def flagged (q : QueueInfo) (s : Mappings) (x : MapImageArgs) : CommandBuilder (MapImage × Mappings) :=
  ((new q s x.image).setBlocking x.blocking fun p => ({ p.1 with blocking := x.blocking }, p.2)).call
    (setMapFlags x.mapFlags)

theorem setMapFlags_eq (img : ImageObject) {p : MapImage × Mappings} (h : p.1.source = some img) :
    setMapFlags x.mapFlags p =
      (({ p.1 with
          mapFlags := if (checkMapFlags img.main.flags x.mapFlags).isSome then p.1.mapFlags else x.mapFlags }, p.2),
        checkMapFlags img.main.flags x.mapFlags) := by
  obtain ⟨⟨source, blocking, flags, origin, region, pitches, mapBuf⟩, m⟩ := p
  obtain rfl : source = some img := h
  simp only [setMapFlags]
  cases checkMapFlags img.main.flags x.mapFlags <;> rfl

theorem flagged_params (h : x.image = some (.image img)) :
    (flagged q s x).params = ({ source := some img, blocking := x.blocking, mapFlags := x.keptFlags img }, s) := by
  rw [flagged, setBlocking_eq rfl, call_params, setMapFlags_eq img (by simp [new, h, Mem.image?])]
  simp [new, keptFlags, h, Mem.image?]

theorem flagged_reports (h : x.image = some (.image img)) :
    (flagged q s x).reports =
      (checkSource q x.image).toList ++ checkDevImgSupport q img.image ++
        (checkMapFlags img.main.flags x.mapFlags).toList := by
  rw [flagged, setBlocking_eq rfl]
  simp only [CommandBuilder.call]
  rw [setMapFlags_eq img (by simp [new, h, Mem.image?])]
  simp [new, h, Mem.image?]

/-- There is no region yet, so that the pitches are neither looked at nor set. -/
theorem setMapPitches_eq (h : x.image = some (.image img)) :
    setMapPitches x.rowPitch x.slicePitch (flagged q s x).params = ((flagged q s x).params, none) := by
  rw [flagged_params h]
  rfl

theorem setMapArea_of_area (img : ImageObject) {p : MapImage × Mappings} (hp : p.1.source = some img) (h : x.Area img o r) :
    setMapArea x.origin x.region p = (({ p.1 with origin := some o, region := some r }, p.2), none) := by
  simp only [setMapArea, hp, h.origin, h.region]
  rw [if_neg h.pos, h.valid]

theorem setMapArea_of_not_area {p : MapImage × Mappings} (hp : p.1.source = some img) (h : ¬ ∃ o r, x.Area img o r) :
    (setMapArea x.origin x.region p).2 ≠ none ∧ (setMapArea x.origin x.region p).1.2 = p.2 ∧
      (setMapArea x.origin x.region p).1.1.region = p.1.region := by
  simp only [setMapArea, hp]
  match ho : x.origin, hr : x.region with
  | none, _ => simp
  | some o, none => simp
  | some o, some r =>
    simp only []
    split
    · simp
    · next hpos =>
      cases hv : isValidImgRegion img.image o r with
      | some msg => simp
      | none => exact absurd ⟨o, r, ho, hr, hpos, hv⟩ h

theorem setMapArea_code {p : MapImage × Mappings} {rep : Report} (h : (setMapArea x.origin x.region p).2 = some rep) :
    rep.1 ≠ .invalidOperation := by
  unfold setMapArea at h
  split at h
  · cases h
  · cases h; simp
  · cases h; simp
  · split at h
    · cases h; simp
    · split at h <;> cases h
      simp

theorem setMapBuffer_code {p : MapImage × Mappings} {rep : Report} (h : (setMapBuffer site p).2 = some rep) :
    rep.1 ≠ .invalidOperation := by
  unfold setMapBuffer at h
  split at h
  · exact addMapBuffer_code h
  · cases h

theorem setMapBuffer_of_no_region {p : MapImage × Mappings} (h : p.1.region = none) : setMapBuffer site p = (p, none) := by
  unfold setMapBuffer
  split
  · next hr => rw [h] at hr; cases hr
  · rfl

/-- The calls up to that of `SetMapBuffer`. -/
def located (q : QueueInfo) (s : Mappings) (x : MapImageArgs) : CommandBuilder (MapImage × Mappings) :=
  ((flagged q s x).call (setMapPitches x.rowPitch x.slicePitch)).call (setMapArea x.origin x.region)

theorem located_params (h : x.image = some (.image img)) (harea : x.Area img o r) :
    (located q s x).params =
      ({ source := some img, blocking := x.blocking, mapFlags := x.keptFlags img, origin := some o, region := some r }, s) := by
  rw [located, call_params, call_params, setMapPitches_eq h, flagged_params h, setMapArea_of_area img rfl harea]

theorem located_params_of_not_area (h : x.image = some (.image img)) (harea : ¬ ∃ o r, x.Area img o r) :
    (setMapArea x.origin x.region ((flagged q s x).call (setMapPitches x.rowPitch x.slicePitch)).params).2 ≠ none ∧
      (located q s x).params.2 = s ∧ (located q s x).params.1.region = none := by
  have hparams : (setMapPitches x.rowPitch x.slicePitch (flagged q s x).params).1 =
      ({ source := some img, blocking := x.blocking, mapFlags := x.keptFlags img }, s) := by
    rw [setMapPitches_eq h, flagged_params h]
  simp only [located, call_params, hparams]
  exact setMapArea_of_not_area rfl harea

theorem located_adds (h : x.image = some (.image img)) :
    Adds (flagged q s x) (located q s x) (∃ o r, x.Area img o r) := by
  have hpitches : Adds (flagged q s x) ((flagged q s x).call (setMapPitches x.rowPitch x.slicePitch)) True :=
    adds_call (by simp [setMapPitches_eq h]) fun rep hrep => by simp [setMapPitches_eq h] at hrep
  refine (hpitches.trans (adds_call Iff.rfl fun rep => setMapArea_code)).congr ?_
  rw [true_and]
  by_cases harea : ∃ o r, x.Area img o r
  · obtain ⟨o, r, hor⟩ := harea
    refine iff_of_true ?_ ⟨o, r, hor⟩
    rw [call_params, setMapPitches_eq h, flagged_params h, setMapArea_of_area img rfl hor]
  · exact iff_of_false (located_params_of_not_area h harea).1 harea

theorem setMapBuffer_located (h : x.image = some (.image img)) (harea : x.Area img o r) :
    setMapBuffer site (located q s x).params =
      addMapBuffer img.object site.addr (x.info site img o r) (fun p => { p with mapBuf := site.addr })
        ({ source := some img, blocking := x.blocking, mapFlags := x.keptFlags img, origin := some o, region := some r },
          s) := by
  rw [located_params h harea]
  rfl

theorem setMapBuffer_blocking (p : MapImage × Mappings) : (setMapBuffer site p).1.1.blocking = p.1.blocking := by
  unfold setMapBuffer addMapBuffer
  split
  · simp only []
    split <;> rfl
  · rfl

theorem setMapArea_blocking (p : MapImage × Mappings) :
    (setMapArea x.origin x.region p).1.1.blocking = p.1.blocking := by
  unfold setMapArea
  split
  · rfl
  · rfl
  · rfl
  · split
    · rfl
    · split <;> rfl

theorem build_adds (h : x.image = some (.image img)) :
    Adds (flagged q s x) (build q s site x)
      ((∃ o r, x.Area img o r ∧ img.object.AcceptsMapping s site.addr (x.info site img o r)) ∧
        x.wl.Accepted q.context x.blocking) := by
  have hctx : (flagged q s x).ctx = q.context ∧ (flagged q s x).waitList = [] := by
    rw [flagged, setBlocking_eq rfl]
    exact ⟨rfl, rfl⟩
  have hwait : ((located q s x).call (setMapBuffer site)).waitList = [] := hctx.2
  have hblocking : ((located q s x).call (setMapBuffer site)).params.1.blocking = x.blocking := by
    rw [call_params, setMapBuffer_blocking, located, call_params, setMapArea_blocking, call_params, setMapPitches_eq h,
      flagged_params h]
  have hmap := (located_adds (q := q) (s := s) h).trans
    (adds_call (f := setMapBuffer site) Iff.rfl fun rep => setMapBuffer_code)
  refine (hmap.congr ?_).trans ((adds_setWaitList hwait).congr ?_)
  · constructor
    · rintro ⟨⟨o, r, hor⟩, hbuf⟩
      rw [setMapBuffer_located h hor, addMapBuffer_eq_none] at hbuf
      exact ⟨o, r, hor, hbuf⟩
    · rintro ⟨o, r, hor, hbuf⟩
      rw [setMapBuffer_located h hor, addMapBuffer_eq_none]
      exact ⟨⟨o, r, hor⟩, hbuf⟩
  · rw [hblocking, call_ctx, located, call_ctx, call_ctx, hctx.1, WaitListArg.Accepted]

/-- All that the builder asks for. -/
structure Accepted (x : MapImageArgs) (q : QueueInfo) (s : Mappings) (site : MapSite) (img : ImageObject)
    (o r : Fin 3 → SizeT) : Prop where
  context : img.context = q.context
  limits : exceedsLimits q.device img.image = false
  format : q.device.isImageFormatSupported img.image.format = true
  mapFlags : checkMapFlags img.main.flags x.mapFlags = none
  area : x.Area img o r
  mapped : img.object.AcceptsMapping s site.addr (x.info site img o r)
  waitList : x.wl.Accepted q.context x.blocking

theorem build_reports_nil (h : x.image = some (.image img)) :
    (build q s site x).reports = [] ↔ ∃ o r, x.Accepted q s site img o r := by
  have hsource : checkSource q x.image = none ↔ img.context = q.context := by
    rw [h, checkSource]
    simp only [ne_eq, ite_not, ite_eq_left_iff, reduceCtorEq, imp_false, not_not]
    exact eq_comm
  rw [(build_adds h).reports_eq_nil_iff, flagged_reports h, List.append_eq_nil_iff, List.append_eq_nil_iff,
    Option.toList_eq_nil_iff, Option.toList_eq_nil_iff, hsource]
  simp only [checkDevImgSupport, List.append_eq_nil_iff]
  constructor
  · rintro ⟨⟨⟨hctx, hl, hf⟩, hflags⟩, ⟨o, r, hor, hmap⟩, hwl⟩
    exact ⟨o, r, hctx, by simpa using hl, by simpa using hf, hflags, hor, hmap, hwl⟩
  · rintro ⟨o, r, hctx, hl, hf, hflags, hor, hmap, hwl⟩
    exact ⟨⟨⟨hctx, by simp [hl], by simp [hf]⟩, hflags⟩, ⟨o, r, hor, hmap⟩, hwl⟩

/-- The live mappings change exactly if there is an area and the mapping is accepted. -/
theorem build_mappings (h : x.image = some (.image img)) :
    (build q s site x).params.2 = s ↔
      ¬ ∃ o r, x.Area img o r ∧ img.object.AcceptsMapping s site.addr (x.info site img o r) := by
  have hbuild : (build q s site x).params = (setMapBuffer site (located q s x).params).1 := rfl
  rw [hbuild]
  by_cases harea : ∃ o r, x.Area img o r
  · obtain ⟨o, r, hor⟩ := harea
    rw [setMapBuffer_located h hor, addMapBuffer_mappings]
    refine not_congr ⟨fun hmap => ⟨o, r, hor, hmap⟩, ?_⟩
    rintro ⟨o', r', hor', hmap⟩
    obtain rfl : o' = o := Option.some.inj (hor'.origin.symm.trans hor.origin)
    obtain rfl : r' = r := Option.some.inj (hor'.region.symm.trans hor.region)
    exact hmap
  · obtain ⟨-, hs, hregion⟩ := located_params_of_not_area (q := q) (s := s) h harea
    rw [setMapBuffer_of_no_region hregion]
    exact iff_of_true hs fun ⟨o, r, hor, _⟩ => harea ⟨o, r, hor⟩

/-- Without an image nothing is recorded. -/
theorem build_of_no_image (h : Mem.image? x.image = none) :
    (build q s site x).params.2 = s ∧ (build q s site x).reports ≠ [] := by
  have hcheck : (checkSource q x.image).toList ≠ [] := by
    match himg : x.image with
    | none => simp [checkSource]
    | some (.buffer b) => simp [checkSource]
    | some (.image img) => simp [himg, Mem.image?] at h
  rw [build, setBlocking_eq rfl]
  refine ⟨by simp [setMapFlags, setMapPitches, setMapArea, setMapBuffer, new, h], fun hnil => hcheck ?_⟩
  simp only [CommandBuilder.call, CommandBuilder.setWaitList, new, List.append_eq_nil_iff] at hnil
  exact hnil.1.1.1.1.1.1.1

end MapImageArgs

end OpenCRun
