import OpenCRun.Core.MapCommands
import OpenCRun.Core.SubBufferCreation
import OpenCRun.Device.MemoryDescriptor
/-!
# What mapping returns

The pointer that `clEnqueueMapBuffer` and `clEnqueueMapImage` return, the
pitches that the caller of the second one gets, and which mappings for writing
are possible next to the live ones.
-/
open Lib

namespace OpenCRun

open CommandBuilder

/-! ## Addresses -/

/-- `computeHostPtr` in the constructor of a sub-buffer; zero is the null pointer. -/
def Buffer.getHostPtr : Buffer → Nat
  | main m => m.hostPtr.getD 0
  | sub _ parent origin _ _ => if parent.getFlags.has MemFlags.UseHostPtr then parent.getHostPtr + origin else 0

/-- A sub-buffer is created with the host pointer's mode of its parent. -/
def Buffer.InheritsMode : Buffer → Prop
  | main _ => True
  | sub _ parent _ _ flags =>
    flags.has MemFlags.UseHostPtr = parent.getFlags.has MemFlags.UseHostPtr ∧ parent.InheritsMode

section Created
open MemoryObjectBuilder

theorem subBufferFlags_useHostPtr (parent : MemFlags) (flags : CLMemFlags) :
    (subBufferFlags parent flags).has MemFlags.UseHostPtr = parent.has MemFlags.UseHostPtr := by
  have hmask : MemFlags.HostPtrModeMask &&& MemFlags.UseHostPtr = MemFlags.UseHostPtr := by decide
  unfold subBufferFlags
  split_ifs
  · rfl
  · rw [MemFlags.has, MemFlags.has, BitVec.and_assoc, hmask]

/-- `setSubBufferFlags` gives a sub-buffer the mode of its parent. -/
theorem Buffer.inheritsMode_accepted {b : MemoryObjectBuilder} {parent : Buffer} {flags : CLMemFlags} {ndebug : Bool}
    (hparent : b.params.parent = some parent) (hassert : ndebug = true ∨ b.kind = .subBuffer)
    (hflags : ¬ CLMemFlags.RejectedForSubBuffer flags) (hmode : parent.InheritsMode) (id origin size : Nat) :
    (Buffer.sub id parent origin size (b.setSubBufferFlags ndebug flags).val.flags).InheritsMode := by
  rw [setSubBufferFlags_accepted flags hparent hassert hflags]
  exact ⟨subBufferFlags_useHostPtr parent.getFlags flags, hmode⟩

end Created

def MemoryObject.getFlags : MemoryObject → MemFlags
  | buffer b => b.getFlags
  | image m => m.flags
  | image1DBuffer _ _ _ flags => flags

/-- What a call finds: what the device's descriptor gets when it allocates, what was in `MapInfo`,
and the host pointer of an image over a buffer, which is not that of the buffer. -/
structure CopySite where
  storage : Option Nat
  uninit : MemMappingInfo
  imageHostPtr : Option Nat

namespace CopySite

variable (c : CopySite)

/-- Where the copy of the main object begins that is mapped: the host's memory, or the device's. -/
def copy (r : Main) : Option Nat := if r.flags.has MemFlags.UseHostPtr then r.hostPtr else c.storage

/-- The descriptor's `map`, when it allocates. -/
def map (o : MemoryObject) : Option Nat := (MemoryDescriptor.allocateStorage c.storage o MemoryDescriptor.initial).val.1

def getHostPtr : MemoryObject → Nat
  | .buffer b => b.getHostPtr
  | .image m => m.hostPtr.getD 0
  | .image1DBuffer .. => c.imageHostPtr.getD 0

def acquireMappingAddrFor (o : MemoryObject) : Nat :=
  if o.getFlags.has MemFlags.UseHostPtr then c.getHostPtr o else (c.map o).getD 0

end CopySite

/-! ## The requests -/

/-- The tests of a call but that of `addMapping`. -/
structure MapBufferArgs.Valid (x : MapBufferArgs) (q : QueueInfo) (src : BufferObject) : Prop where
  buf : x.buf = some (.buffer src)
  field : clValidMapField x.mapFlags = true
  size : x.size ≠ 0
  admitted : EnqueueMapBufferBuilder.tests.Admits q src
  mapFlags : checkMapFlags src.buffer.getFlags x.mapFlags = none
  area : x.offset + x.size ≤ src.getSize
  waitList : x.wl.Accepted q.context x.blocking

structure MapImageArgs.Valid (x : MapImageArgs) (q : QueueInfo) (img : ImageObject) (o r : Fin 3 → SizeT) : Prop where
  image : x.image = some (.image img)
  field : clValidMapField x.mapFlags = true
  support : q.device.hasImageSupport = true
  context : img.context = q.context
  limits : exceedsLimits q.device img.image = false
  format : q.device.isImageFormatSupported img.image.format = true
  mapFlags : checkMapFlags img.main.flags x.mapFlags = none
  area : x.Area img o r
  waitList : x.wl.Accepted q.context x.blocking

/-- No live mapping has a byte or pixel in common with the region. -/
def MemoryObject.Apart (s : Mappings) (o : MemoryObject) (info : MemMappingInfo) : Prop :=
  ∀ m ∈ s o.main, ¬ m.region.Overlap (o.mappedRegion info)

namespace MapRequest

def object : MapRequest → Option MemoryObject
  | buffer x => (Mem.buffer? x.buf).map fun src => .buffer src.buffer
  | image x => (Mem.image? x.image).map ImageObject.object

def site (c : CopySite) (req : MapRequest) : MapSite := ⟨(req.object.map c.acquireMappingAddrFor).getD 0, c.uninit⟩

/-- The pointer is that of the region's first byte in the mapped copy. -/
def FirstByte (c : CopySite) (ptr : Nat) : MapRequest → Prop
  | buffer x => ∀ src, x.buf = some (.buffer src) →
      ∃ base, c.copy src.buffer.root = some base ∧ ptr = base + src.buffer.absoluteOrigin + x.offset.toNat
  | image x => ∀ img o, x.image = some (.image img) → x.origin = some o →
      ∃ base, c.copy img.object.root = some base ∧ ptr = base + img.object.absoluteOrigin + (img.image.offset o).toNat

/-- What `SetMapPitches` writes to the caller's words. -/
def writtenPitches (q : QueueInfo) (s : Mappings) (site : MapSite) : MapRequest → Option (SizeT × SizeT)
  | buffer _ => none
  | image x => (EnqueueMapImageBuilder.build q s site x).params.1.mapPitches

/-- The caller of an image's mapping gets the image's pitches; where there are no slices it may give
no pointer for theirs. -/
def PitchesWritten (q : QueueInfo) (s : Mappings) (site : MapSite) : MapRequest → Prop
  | buffer _ => True
  | image x => ∀ img, x.image = some (.image img) →
      (∃ pitches, (image x).writtenPitches q s site = some pitches ∧ pitches.1 = img.image.getRowPitch ∧
        (MemoryObjectBuilder.requiresSlicePitch img.image.type = true → pitches.2 = img.image.getSlicePitch)) ∧
      (MemoryObjectBuilder.requiresSlicePitch img.image.type = false →
        (image { x with slicePitch := false }).call (some q) s site = (image x).call (some q) s site)

/-- A mapping for writing that nothing speaks against: memory is there, and the region is apart from
all that is mapped. -/
def WritesApart (q : QueueInfo) (s : Mappings) (c : CopySite) : MapRequest → Prop
  | buffer x => ∃ src, x.Valid q src ∧ x.mapFlags.writes = true ∧ (c.copy src.buffer.root).isSome = true ∧
      MemoryObject.Apart s (.buffer src.buffer) (x.info ((buffer x).site c) src)
  | image x => ∃ img o r, x.Valid q img o r ∧ x.mapFlags.writes = true ∧ (c.copy img.object.root).isSome = true ∧
      img.object.Apart s (x.info ((image x).site c) img o r)

structure MapsRightly (q : QueueInfo) (s : Mappings) (c : CopySite) (req : MapRequest) : Prop where
  pointer : ∀ ptr, (req.call (some q) s (req.site c)).2 = .ok ptr → req.FirstByte c ptr
  together : req.WritesApart q s c → ∃ ptr, (req.call (some q) s (req.site c)).2 = .ok ptr
  pitches : ∀ ptr, (req.call (some q) s (req.site c)).2 = .ok ptr → req.PitchesWritten q s (req.site c)

/-- The mapping is of a buffer, from its beginning, and the pointer of the object is known; a region
apart from the live ones is not refused. -/
def FromTheBase (q : QueueInfo) (s : Mappings) (c : CopySite) : MapRequest → Prop
  | buffer x => ∀ src, x.Valid q src →
      (MemoryObject.AcceptsMapping s (.buffer src.buffer) ((buffer x).site c).addr (x.info ((buffer x).site c) src) →
        x.offset = 0 ∧ (src.buffer.getFlags.has MemFlags.UseHostPtr = true ∨ src.buffer.getParentOffset = 0)) ∧
      ((buffer x).WritesApart q s c →
        MemoryObject.AcceptsMapping s (.buffer src.buffer) ((buffer x).site c).addr (x.info ((buffer x).site c) src))
  | image x => ∀ img o r, x.Valid q img o r →
      ¬ img.object.AcceptsMapping s ((image x).site c).addr (x.info ((image x).site c) img o r) ∧
      ¬ (image x).WritesApart q s c

/-- The object is created with its parent's mode. -/
def InheritsMode : MapRequest → Prop
  | buffer x => ∀ src, x.buf = some (.buffer src) → src.buffer.InheritsMode
  | image _ => True

end MapRequest

/-! ## Where an object's copy is -/

namespace CopySite

variable {c : CopySite} {b : Buffer}

/-- The descriptor gives the place where the parent begins. -/
theorem map_eq (o : MemoryObject) : c.map o = (c.copy o.root).map (· + o.parentOrigin) := by
  rw [map, MemoryDescriptor.allocateStorage_eq]
  simp only [MemoryDescriptor.rootStorage, copy]
  split <;> rfl

theorem useHostPtr_root (h : b.InheritsMode) : b.root.flags.has MemFlags.UseHostPtr = b.getFlags.has MemFlags.UseHostPtr := by
  induction b with
  | main m => rfl
  | sub id parent origin size flags ih =>
    obtain ⟨hflags, hparent⟩ := h
    exact (ih hparent).trans hflags.symm

theorem getHostPtr_eq (h : b.InheritsMode) (hhost : b.getFlags.has MemFlags.UseHostPtr = true) :
    b.getHostPtr = b.root.hostPtr.getD 0 + b.absoluteOrigin := by
  induction b with
  | main m => rfl
  | sub id parent origin size flags ih =>
    obtain ⟨hflags, hparent⟩ := h
    have hup : parent.getFlags.has MemFlags.UseHostPtr = true := hflags.symm.trans hhost
    rw [Buffer.getHostPtr, if_pos hup, ih hparent hup, Buffer.root, Buffer.absoluteOrigin, Nat.add_assoc]

/-- The address is the first byte's if nothing has to be added to it. -/
theorem firstByte_iff (h : b.InheritsMode) {offset : Nat} (haddr : c.acquireMappingAddrFor (.buffer b) ≠ 0) :
    (∃ base, c.copy b.root = some base ∧ c.acquireMappingAddrFor (.buffer b) = base + b.absoluteOrigin + offset) ↔
      offset = 0 ∧ (b.getFlags.has MemFlags.UseHostPtr = true ∨ b.getParentOffset = 0) := by
  have hroot := useHostPtr_root h
  by_cases hhost : b.getFlags.has MemFlags.UseHostPtr = true
  · obtain ⟨p, hp⟩ := Option.isSome_iff_exists.1 (b.root.hostPtr_isSome (hroot.trans hhost))
    have hcopy : c.copy b.root = some p := by rw [copy, hroot, if_pos hhost, hp]
    have heq : c.acquireMappingAddrFor (.buffer b) = p + b.absoluteOrigin := by
      rw [acquireMappingAddrFor, MemoryObject.getFlags, if_pos hhost, getHostPtr, getHostPtr_eq h hhost, hp, Option.getD_some]
    simp only [hcopy, Option.some.injEq, exists_eq_left', heq, hhost, true_or, and_true]
    omega
  · have heq : c.acquireMappingAddrFor (.buffer b) = ((c.copy b.root).map (· + b.parentOrigin)).getD 0 := by
      rw [acquireMappingAddrFor, MemoryObject.getFlags, if_neg hhost, map_eq]
      rfl
    rw [heq] at haddr ⊢
    cases hcopy : c.copy b.root with
    | none => simp [hcopy] at haddr
    | some base =>
      simp only [Option.some.injEq, exists_eq_left', Option.map_some, Option.getD_some, hhost, b.absoluteOrigin_eq,
        Bool.false_eq_true, false_or]
      omega

end CopySite

/-! ## What the calls return -/

namespace MapBufferArgs

variable {x : MapBufferArgs} {q : QueueInfo} {s : Mappings} {site : MapSite} {src : BufferObject}

theorem valid_accepted (h : x.Valid q src)
    (hmap : MemoryObject.AcceptsMapping s (.buffer src.buffer) site.addr (x.info site src)) : x.Accepted q s site src :=
  ⟨h.admitted, h.mapFlags, h.area, hmap, h.waitList⟩

/-- The pointer is the one that was acquired. -/
theorem call_ok_iff {ptr : Nat} : (clEnqueueMapBuffer (some q) s site x).2 = .ok ptr ↔
    ∃ src, x.Valid q src ∧ MemoryObject.AcceptsMapping s (.buffer src.buffer) site.addr (x.info site src) ∧
      ptr = site.addr := by
  have hptr : ∀ src, x.buf = some (.buffer src) → x.Accepted q s site src →
      (EnqueueMapBufferBuilder.build q s site x).params.1.mapBuf = site.addr := by
    intro src hbuf hacc
    rw [build_params hbuf, addMapBuffer_of_accepted hacc.mapped]
  simp only [clEnqueueMapBuffer]
  constructor
  · intro h
    split at h
    · cases h
    · next hfield =>
      split at h
      · cases h
      · next hsize =>
        obtain ⟨hnil, rfl⟩ := (finishMap_ok_iff build_enqueues).1 h
        cases hbuf : Mem.buffer? x.buf with
        | none => exact absurd hnil (build_of_no_buffer hbuf).2
        | some src =>
          rw [Mem.buffer?_eq_some] at hbuf
          have hacc := (build_reports_nil hbuf).1 hnil
          exact ⟨src, ⟨hbuf, by simpa using hfield, hsize, hacc.admitted, hacc.mapFlags, hacc.area, hacc.waitList⟩,
            hacc.mapped, hptr src hbuf hacc⟩
  · rintro ⟨src, hvalid, hmap, rfl⟩
    have hacc := valid_accepted hvalid hmap
    rw [if_neg (by simp [hvalid.field]), if_neg hvalid.size]
    exact (finishMap_ok_iff build_enqueues).2 ⟨(build_reports_nil hvalid.buf).2 hacc, hptr src hvalid.buf hacc⟩

end MapBufferArgs

namespace MapImageArgs

variable {x : MapImageArgs} {q : QueueInfo} {s : Mappings} {site : MapSite} {img : ImageObject} {o r : Fin 3 → SizeT}

theorem valid_accepted (h : x.Valid q img o r) (hmap : img.object.AcceptsMapping s site.addr (x.info site img o r)) :
    x.Accepted q s site img o r :=
  ⟨h.context, h.limits, h.format, h.mapFlags, h.area, hmap, h.waitList⟩

/-- The region is not known when the pitches are set, so that they are not. -/
theorem build_params (h : x.image = some (.image img)) (hacc : x.Accepted q s site img o r) :
    (EnqueueMapImageBuilder.build q s site x).params.1.mapBuf = site.addr ∧
      (EnqueueMapImageBuilder.build q s site x).params.1.mapPitches = none := by
  have hparams : (EnqueueMapImageBuilder.build q s site x).params =
      (EnqueueMapImageBuilder.setMapBuffer site (located q s x).params).1 := rfl
  rw [hparams, setMapBuffer_located h hacc.area, addMapBuffer_of_accepted hacc.mapped]
  exact ⟨rfl, rfl⟩

theorem call_ok_iff {ptr : Nat} : (clEnqueueMapImage (some q) s site x).2 = .ok ptr ↔
    ∃ img o r, x.Valid q img o r ∧ img.object.AcceptsMapping s site.addr (x.info site img o r) ∧ ptr = site.addr := by
  simp only [clEnqueueMapImage]
  constructor
  · intro h
    split at h
    · cases h
    · next hfield =>
      split at h
      · cases h
      · next hsupport =>
        obtain ⟨hnil, rfl⟩ := (finishMap_ok_iff build_enqueues).1 h
        cases himg : Mem.image? x.image with
        | none => exact absurd hnil (build_of_no_image himg).2
        | some img =>
          rw [Mem.image?_eq_some] at himg
          obtain ⟨o, r, hacc⟩ := (build_reports_nil himg).1 hnil
          exact ⟨img, o, r, ⟨himg, by simpa using hfield, by simpa using hsupport, hacc.context, hacc.limits, hacc.format,
            hacc.mapFlags, hacc.area, hacc.waitList⟩, hacc.mapped, (build_params himg hacc).1⟩
  · rintro ⟨img, o, r, hvalid, hmap, rfl⟩
    have hacc := valid_accepted hvalid hmap
    rw [if_neg (by simp [hvalid.field]), if_neg (by simp [hvalid.support])]
    exact (finishMap_ok_iff build_enqueues).2
      ⟨(build_reports_nil hvalid.image).2 ⟨o, r, hacc⟩, (build_params hvalid.image hacc).1⟩

end MapImageArgs

/-! ## When it is right -/

namespace MapRequest

variable {q : QueueInfo} {s : Mappings} {c : CopySite}

theorem buffer_maps_rightly_iff {x : MapBufferArgs} (hmode : ∀ src, x.buf = some (.buffer src) → src.buffer.InheritsMode) :
    (buffer x).MapsRightly q s c ↔ (buffer x).FromTheBase q s c := by
  have haddr : ∀ src, x.buf = some (.buffer src) →
      ((buffer x).site c).addr = c.acquireMappingAddrFor (.buffer src.buffer) := by
    intro src hbuf
    simp [site, object, hbuf, Mem.buffer?]
  have hfirst : ∀ src, x.buf = some (.buffer src) → ((buffer x).site c).addr ≠ 0 →
      ((buffer x).FirstByte c ((buffer x).site c).addr ↔ x.offset = 0 ∧
        (src.buffer.getFlags.has MemFlags.UseHostPtr = true ∨ src.buffer.getParentOffset = 0)) := by
    intro src hbuf hne
    have hoffset : x.offset.toNat = 0 ↔ x.offset = 0 := by rw [← BitVec.toNat_inj]; rfl
    rw [haddr src hbuf] at hne ⊢
    rw [← hoffset, ← CopySite.firstByte_iff (hmode src hbuf) hne]
    simp [FirstByte, hbuf]
  constructor
  · rintro ⟨hpointer, htogether, -⟩ src hvalid
    refine ⟨fun hmap => (hfirst src hvalid.buf hmap.1).1 (hpointer _ ?_), fun hwrites => ?_⟩
    · exact MapBufferArgs.call_ok_iff.2 ⟨src, hvalid, hmap, rfl⟩
    · obtain ⟨ptr, hptr⟩ := htogether hwrites
      obtain ⟨src', hvalid', hmap, -⟩ := MapBufferArgs.call_ok_iff.1 hptr
      obtain rfl : src = src' := by simpa [hvalid.buf] using hvalid'.buf
      exact hmap
  · intro hbase
    refine ⟨fun ptr hptr => ?_, fun hwrites => ?_, fun _ _ => trivial⟩
    · obtain ⟨src, hvalid, hmap, rfl⟩ := MapBufferArgs.call_ok_iff.1 hptr
      exact (hfirst src hvalid.buf hmap.1).2 ((hbase src hvalid).1 hmap)
    · have hapart := hwrites
      obtain ⟨src, hvalid, -⟩ := hapart
      exact ⟨_, MapBufferArgs.call_ok_iff.2 ⟨src, hvalid, (hbase src hvalid).2 hwrites, rfl⟩⟩

theorem image_maps_rightly_iff {x : MapImageArgs} : (image x).MapsRightly q s c ↔ (image x).FromTheBase q s c := by
  -- The pitches are wrong whenever the call succeeds.
  have hpitches : ∀ img o r, x.Valid q img o r → img.object.AcceptsMapping s ((image x).site c).addr
      (x.info ((image x).site c) img o r) → ¬ (image x).PitchesWritten q s ((image x).site c) := by
    intro img o r hvalid hmap hwritten
    obtain ⟨⟨pitches, heq, -⟩, -⟩ := hwritten img hvalid.image
    have hnone := (MapImageArgs.build_params hvalid.image (MapImageArgs.valid_accepted hvalid hmap)).2
    rw [writtenPitches, hnone] at heq
    cases heq
  have hrefused : (image x).MapsRightly q s c → ∀ img o r, x.Valid q img o r →
      ¬ img.object.AcceptsMapping s ((image x).site c).addr (x.info ((image x).site c) img o r) := by
    intro h img o r hvalid hmap
    exact hpitches img o r hvalid hmap (h.pitches _ (MapImageArgs.call_ok_iff.2 ⟨img, o, r, hvalid, hmap, rfl⟩))
  constructor
  · intro h img o r hvalid
    refine ⟨hrefused h img o r hvalid, fun hwrites => ?_⟩
    obtain ⟨ptr, hptr⟩ := h.together hwrites
    obtain ⟨img', o', r', hvalid', hmap, -⟩ := MapImageArgs.call_ok_iff.1 hptr
    exact hrefused h img' o' r' hvalid' hmap
  · intro hbase
    have hnever : ∀ ptr, ((image x).call (some q) s ((image x).site c)).2 ≠ .ok ptr := by
      intro ptr hptr
      obtain ⟨img, o, r, hvalid, hmap, -⟩ := MapImageArgs.call_ok_iff.1 hptr
      exact (hbase img o r hvalid).1 hmap
    refine ⟨fun ptr hptr => absurd hptr (hnever ptr), fun hwrites => ?_, fun ptr hptr => absurd hptr (hnever ptr)⟩
    have hapart := hwrites
    obtain ⟨img, o, r, hvalid, -⟩ := hapart
    exact absurd hwrites (hbase img o r hvalid).2

theorem maps_rightly_iff {req : MapRequest} (hmode : req.InheritsMode) :
    req.MapsRightly q s c ↔ req.FromTheBase q s c := by
  cases req with
  | buffer x => exact buffer_maps_rightly_iff hmode
  | image x => exact image_maps_rightly_iff

/-- A mapping to write of 8 bytes of a buffer of 16 bytes. -/
def eightBytes (offset : SizeT) : MapRequest :=
  .buffer
    { buf := some (.buffer BufferObject.sixteenBytes)
      blocking := true
      mapFlags := .CL_MAP_WRITE
      offset
      size := 8
      wl := WaitListArg.empty }

/-- The device has the buffer at 4096. -/
def at4096 : CopySite where
  storage := some 4096
  uninit := ⟨fun _ => 0, fun _ => 0, 0⟩
  imageHostPtr := none

theorem eightBytes_inheritsMode (offset : SizeT) : (eightBytes offset).InheritsMode := by
  rintro src ⟨⟩
  exact trivial

theorem eightBytes_mapped (offset : SizeT) :
    ((eightBytes offset).site at4096).addr = 4096 := rfl

/-- The first half, when nothing is mapped. -/
theorem maps_rightly_firstHalf :
    (eightBytes 0).MapsRightly { context := 0, device := CPUDevice.info } (fun _ => []) at4096 := by
  refine (maps_rightly_iff (eightBytes_inheritsMode 0)).2 fun src hvalid => ?_
  obtain rfl : BufferObject.sixteenBytes = src := by simpa using hvalid.buf
  refine ⟨fun _ => ⟨rfl, .inr rfl⟩, fun _ => ⟨?_, ?_, fun _ _ hm => absurd hm List.not_mem_nil⟩⟩
  · rw [← eightBytes, eightBytes_mapped]
    decide
  · decide

/-- The pointer of the last half is that of the buffer. -/
theorem lastHalf_at_base : ¬ ∀ (q : QueueInfo) (s : Mappings) (c : CopySite) (req : MapRequest), req.InheritsMode →
    req.MapsRightly q s c := by
  intro hall
  have hright := hall { context := 0, device := CPUDevice.info } (fun _ => []) at4096 (eightBytes 8)
    (eightBytes_inheritsMode 8)
  obtain ⟨base, hbase, hptr⟩ := hright.pointer 4096 (by decide) _ rfl
  cases hbase
  revert hptr
  decide

end MapRequest

end OpenCRun
