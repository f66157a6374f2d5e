import OpenCRun.Core.MapBuilders
/-!
# Buffer commands

The interval of a buffer that a command accesses. The builders compare its end
with the size of the buffer, as a machine word; here it is a natural number.
-/
namespace OpenCRun

/-- The bytes of a buffer that a command accesses. -/
structure BufferInterval where
  buffer : BufferObject
  offset : Nat
  length : Nat

namespace BufferInterval

/-- Where the interval ends, without wrapping around. -/
def last (a : BufferInterval) : Nat := a.offset + a.length

def Inside (a : BufferInterval) : Prop := a.last ≤ a.buffer.buffer.getSize

end BufferInterval

/-! ## The intervals of the commands -/

/-- What `memcpy` is called with. -/
def HostTransfer.accesses (p : HostTransfer) : List BufferInterval :=
  p.buffer.toList.map fun b => { buffer := b, offset := p.offset.toNat, length := p.size.toNat }

def CopyBuffer.accesses (p : CopyBuffer) : List BufferInterval :=
  p.target.toList.map (fun b => { buffer := b, offset := p.targetOffset.toNat, length := p.size.toNat }) ++
    p.source.toList.map fun b => { buffer := b, offset := p.sourceOffset.toNat, length := p.size.toNat }

/-- Whole patterns, as many as there are in the size. -/
def FillBuffer.accesses (p : FillBuffer) : List BufferInterval :=
  p.target.toList.map fun b =>
    { buffer := b
      offset := p.targetOffset.toNat
      length := p.targetSize.toNat / p.sourceSize.toNat * p.sourceSize.toNat }

/-- What the host may access by the pointer that it gets. -/
def MapBuffer.accesses (p : MapBuffer) : List BufferInterval :=
  p.source.toList.map fun b => { buffer := b, offset := p.offset.toNat, length := p.size.toNat }

/-- The bytes of a region of an image. -/
def ImageObject.bytes (img : ImageObject) (r : Fin 3 → SizeT) : Nat :=
  (r 0).toNat * (r 1).toNat * (r 2).toNat * img.image.getElementSize.toNat

/-- The rows of the region follow each other in the buffer. -/
def BufferImageCopy.accesses (p : BufferImageCopy) : List BufferInterval :=
  match p.buffer, p.image, p.region with
  | some b, some img, some r => [{ buffer := b, offset := p.offset.toNat, length := img.bytes r }]
  | _, _, _ => []

/-- The calls that end in a builder of a command on intervals of buffers. -/
inductive BufferRequest where
  | read (buf : Option Mem) (ptr : Option Nat) (blocking : Bool) (offset size : SizeT) (wl : WaitListArg)
  | write (buf : Option Mem) (ptr : Option Nat) (blocking : Bool) (offset size : SizeT) (wl : WaitListArg)
  | copy (target source : Option Mem) (targetOffset sourceOffset size : SizeT) (wl : WaitListArg)
  | fill (buf : Option Mem) (pattern : Option Nat) (patternSize offset size : SizeT) (wl : WaitListArg)
  | map (x : MapBufferArgs) (s : Mappings) (site : MapSite)
  | copyImageToBuffer (buffer image : Option Mem) (offset : SizeT) (origin region : Option (Fin 3 → SizeT))
    (wl : WaitListArg)
  | copyBufferToImage (buffer image : Option Mem) (offset : SizeT) (origin region : Option (Fin 3 → SizeT))
    (wl : WaitListArg)

namespace BufferRequest

/-- The intervals that the command accesses, if one is created. -/
def create (q : QueueInfo) : BufferRequest → Except CommandErrCode (List BufferInterval)
  | read buf ptr blocking offset size wl =>
    (EnqueueReadBufferBuilder.build q buf ptr blocking offset size wl).create.map (·.params.accesses)
  | write buf ptr blocking offset size wl =>
    (EnqueueWriteBufferBuilder.build q buf ptr blocking offset size wl).create.map (·.params.accesses)
  | copy target source targetOffset sourceOffset size wl =>
    (EnqueueCopyBufferBuilder.build q target source targetOffset sourceOffset size wl).create.map (·.params.accesses)
  | fill buf pattern patternSize offset size wl =>
    (EnqueueFillBufferBuilder.build q buf pattern patternSize offset size wl).create.map (·.params.accesses)
  | map x s site => (EnqueueMapBufferBuilder.build q s site x).create.map (·.params.1.accesses)
  | copyImageToBuffer buffer image offset origin region wl =>
    (EnqueueCopyImageToBufferBuilder.build q buffer image offset origin region wl).create.map (·.params.accesses)
  | copyBufferToImage buffer image offset origin region wl =>
    (EnqueueCopyBufferToImageBuilder.build q buffer image offset origin region wl).create.map (·.params.accesses)

/-- All tests of the builder let the request pass; and what it then accesses. -/
inductive Creates (q : QueueInfo) : BufferRequest → List BufferInterval → Prop
  | read {b : BufferObject} {ptr : Option Nat} {blocking : Bool} {offset size : SizeT} {wl : WaitListArg}
    (hadm : EnqueueReadBufferBuilder.tests.Admits q b) (hptr : ptr.isSome = true) (hfits : offset + size ≤ b.getSize)
    (hwl : wl.Accepted q.context blocking) :
    Creates q (.read (some (.buffer b)) ptr blocking offset size wl) [⟨b, offset.toNat, size.toNat⟩]
  | write {b : BufferObject} {ptr : Option Nat} {blocking : Bool} {offset size : SizeT} {wl : WaitListArg}
    (hadm : EnqueueWriteBufferBuilder.tests.Admits q b) (hptr : ptr.isSome = true) (hfits : offset + size ≤ b.getSize)
    (hwl : wl.Accepted q.context blocking) :
    Creates q (.write (some (.buffer b)) ptr blocking offset size wl) [⟨b, offset.toNat, size.toNat⟩]
  | copy {t s : BufferObject} {targetOffset sourceOffset size : SizeT} {wl : WaitListArg}
    (htarget : EnqueueCopyBufferBuilder.targetTests.Admits q t) (hsource : EnqueueCopyBufferBuilder.sourceTests.Admits q s)
    (harea : EnqueueCopyBufferBuilder.InArea targetOffset sourceOffset size t s) (hwl : wl.Accepted q.context false) :
    Creates q (.copy (some (.buffer t)) (some (.buffer s)) targetOffset sourceOffset size wl)
      [⟨t, targetOffset.toNat, size.toNat⟩, ⟨s, sourceOffset.toNat, size.toNat⟩]
  | fill {b : BufferObject} {pattern : Option Nat} {patternSize offset size : SizeT} {wl : WaitListArg}
    (hadm : EnqueueFillBufferBuilder.tests.Admits q b) (hpattern : pattern.isSome = true)
    (hsize : EnqueueFillBufferBuilder.PatternAccepted patternSize)
    (hregion : EnqueueFillBufferBuilder.InRegion patternSize offset size b) (hwl : wl.Accepted q.context false) :
    Creates q (.fill (some (.buffer b)) pattern patternSize offset size wl) [⟨b, offset.toNat, size.toNat⟩]
  | map {b : BufferObject} {x : MapBufferArgs} {s : Mappings} {site : MapSite} (hbuf : x.buf = some (.buffer b))
    (hacc : x.Accepted q s site b) : Creates q (.map x s site) [⟨b, x.offset.toNat, x.size.toNat⟩]
  | copyImageToBuffer {b : BufferObject} {img : ImageObject} {offset : SizeT} {o r : Fin 3 → SizeT} {wl : WaitListArg}
    (hadm : EnqueueCopyBufferBuilder.targetTests.Admits q b) (himg : BufferImageCopy.ImageAdmitted q (some b) img)
    (harea : BufferImageCopy.InArea offset o r b img) (hwl : wl.Accepted q.context false) :
    Creates q (.copyImageToBuffer (some (.buffer b)) (some (.image img)) offset (some o) (some r) wl)
      [⟨b, offset.toNat, img.bytes r⟩]
  | copyBufferToImage {b : BufferObject} {img : ImageObject} {offset : SizeT} {o r : Fin 3 → SizeT} {wl : WaitListArg}
    (hadm : EnqueueCopyBufferBuilder.sourceTests.Admits q b) (himg : BufferImageCopy.ImageAdmitted q (some b) img)
    (harea : BufferImageCopy.InArea offset o r b img) (hwl : wl.Accepted q.context false) :
    Creates q (.copyBufferToImage (some (.buffer b)) (some (.image img)) offset (some o) (some r) wl)
      [⟨b, offset.toNat, img.bytes r⟩]

end BufferRequest

theorem map_eq_ok_iff {α β ε : Type} {x : Except ε α} {f : α → β} {y : β} : x.map f = .ok y ↔ ∃ a, x = .ok a ∧ f a = y := by
  cases x <;> simp [Except.map]

/-- The command of a mapping that is created. -/
theorem MapBufferArgs.create_ok_iff {x : MapBufferArgs} {q : QueueInfo} {s : Mappings} {site : MapSite}
    {cmd : Built (MapBuffer × Mappings)} :
    (EnqueueMapBufferBuilder.build q s site x).create = .ok cmd ↔
      ∃ src, x.buf = some (.buffer src) ∧ x.Accepted q s site src ∧
        cmd = ⟨({ source := some src, blocking := x.blocking, mapFlags := x.mapFlags, offset := x.offset, size := x.size,
                  mapBuf := site.addr },
                (MemoryObject.addMapping s (.buffer src.buffer) site.addr (x.info site src)).1), x.wl.events⟩ := by
  have hset : ∀ src, x.buf = some (.buffer src) → x.Accepted q s site src →
      (EnqueueMapBufferBuilder.build q s site x).params =
        ({ source := some src, blocking := x.blocking, mapFlags := x.mapFlags, offset := x.offset, size := x.size,
           mapBuf := site.addr }, (MemoryObject.addMapping s (.buffer src.buffer) site.addr (x.info site src)).1) := by
    intro src hbuf hacc
    have harea : ¬ x.offset + x.size > src.getSize := BitVec.not_lt.2 hacc.area
    rw [build_params hbuf, addMapBuffer_of_accepted hacc.mapped, kept, hacc.mapFlags, if_neg harea, if_neg harea]
    rfl
  have hwait : (EnqueueMapBufferBuilder.build q s site x).waitList = x.wl.events := by
    rw [EnqueueMapBufferBuilder.build, CommandBuilder.setBlocking_eq rfl]
    rfl
  rw [CommandBuilder.create_ok_iff, hwait]
  constructor
  · rintro ⟨hnil, rfl⟩
    cases hbuf : Mem.buffer? x.buf with
    | none => exact absurd hnil (build_of_no_buffer hbuf).2
    | some src =>
      rw [Mem.buffer?_eq_some] at hbuf
      have hacc := (build_reports_nil hbuf).1 hnil
      exact ⟨src, hbuf, hacc, congrArg (Built.mk · _) (hset src hbuf hacc)⟩
  · rintro ⟨src, hbuf, hacc, rfl⟩
    exact ⟨(build_reports_nil hbuf).2 hacc, congrArg (Built.mk · _) (hset src hbuf hacc).symm⟩

theorem HostTransfer.accesses_ok_iff {t : BufferTests} {nullMsg areaMsg : String} {q : QueueInfo} {buf : Option Mem}
    {ptr : Option Nat} {blocking : Bool} {offset size : SizeT} {wl : WaitListArg} {as : List BufferInterval} :
    (build t nullMsg areaMsg q buf ptr blocking offset size wl).create.map (·.params.accesses) = .ok as ↔
      ∃ b, buf = some (.buffer b) ∧ t.Admits q b ∧ ptr.isSome = true ∧ offset + size ≤ b.getSize ∧
        wl.Accepted q.context blocking ∧ as = [⟨b, offset.toNat, size.toNat⟩] := by
  rw [map_eq_ok_iff]
  simp only [create_ok_iff]
  constructor
  · rintro ⟨_, ⟨b, hbuf, hadm, hptr, hfits, hwl, rfl⟩, rfl⟩
    exact ⟨b, hbuf, hadm, hptr, hfits, hwl, rfl⟩
  · rintro ⟨b, hbuf, hadm, hptr, hfits, hwl, rfl⟩
    exact ⟨_, ⟨b, hbuf, hadm, hptr, hfits, hwl, rfl⟩, rfl⟩

theorem BufferImageCopy.accesses_ok_iff {bt : BufferTests} {it : ImageTests} {msg : String} {q : QueueInfo}
    {buffer image : Option Mem} {offset : SizeT} {origin region : Option (Fin 3 → SizeT)} {wl : WaitListArg}
    {as : List BufferInterval} (hbt : bt.denied = []) :
    (build bt it msg q buffer image offset origin region wl).create.map (·.params.accesses) = .ok as ↔
      ∃ b img o r, (buffer = some (.buffer b) ∧ bt.Admits q b) ∧ (image = some (.image img) ∧ ImageAdmitted q (some b) img) ∧
        (origin = some o ∧ region = some r) ∧ InArea offset o r b img ∧ wl.Accepted q.context false ∧
        as = [⟨b, offset.toNat, img.bytes r⟩] := by
  rw [map_eq_ok_iff]
  simp only [create_ok_iff hbt]
  constructor
  · rintro ⟨_, ⟨b, img, o, r, hbuffer, himage, ⟨ho, rfl⟩, harea, hwl, rfl⟩, rfl⟩
    exact ⟨b, img, o, r, hbuffer, himage, ⟨ho, rfl⟩, harea, hwl, rfl⟩
  · rintro ⟨b, img, o, r, hbuffer, himage, ⟨ho, rfl⟩, harea, hwl, rfl⟩
    exact ⟨_, ⟨b, img, o, r, hbuffer, himage, ⟨ho, rfl⟩, harea, hwl, rfl⟩, rfl⟩

/-- The size is that of whole patterns. -/
theorem EnqueueFillBufferBuilder.InRegion.whole {patternSize offset size : SizeT} {b : BufferObject}
    (h : InRegion patternSize offset size b) : size.toNat / patternSize.toNat * patternSize.toNat = size.toNat := by
  have hwhole := congrArg BitVec.toNat h.wholeSize
  rw [BitVec.toNat_umod] at hwhole
  exact Nat.div_mul_cancel (Nat.dvd_of_mod_eq_zero hwhole)

namespace BufferRequest

theorem create_ok_iff {q : QueueInfo} {req : BufferRequest} {as : List BufferInterval} :
    req.create q = .ok as ↔ Creates q req as := by
  cases req with
  | read buf ptr blocking offset size wl =>
    refine HostTransfer.accesses_ok_iff.trans ⟨?_, fun h => ?_⟩
    · rintro ⟨b, rfl, hadm, hptr, hfits, hwl, rfl⟩
      exact .read hadm hptr hfits hwl
    · cases h with
      | read hadm hptr hfits hwl => exact ⟨_, rfl, hadm, hptr, hfits, hwl, rfl⟩
  | write buf ptr blocking offset size wl =>
    refine HostTransfer.accesses_ok_iff.trans ⟨?_, fun h => ?_⟩
    · rintro ⟨b, rfl, hadm, hptr, hfits, hwl, rfl⟩
      exact .write hadm hptr hfits hwl
    · cases h with
      | write hadm hptr hfits hwl => exact ⟨_, rfl, hadm, hptr, hfits, hwl, rfl⟩
  | copy target source targetOffset sourceOffset size wl =>
    refine map_eq_ok_iff.trans ⟨?_, fun h => ?_⟩
    · rintro ⟨_, hcmd, rfl⟩
      obtain ⟨t, s, ⟨rfl, ht⟩, ⟨rfl, hs⟩, harea, hwl, rfl⟩ := EnqueueCopyBufferBuilder.create_ok_iff.1 hcmd
      exact .copy ht hs harea hwl
    · cases h with
      | copy ht hs harea hwl =>
        exact ⟨_, EnqueueCopyBufferBuilder.create_ok_iff.2 ⟨_, _, ⟨rfl, ht⟩, ⟨rfl, hs⟩, harea, hwl, rfl⟩, rfl⟩
  | fill buf pattern patternSize offset size wl =>
    refine map_eq_ok_iff.trans ⟨?_, fun h => ?_⟩
    · rintro ⟨_, hcmd, rfl⟩
      obtain ⟨b, rfl, hadm, hptr, hpat, hreg, hwl, rfl⟩ := EnqueueFillBufferBuilder.create_ok_iff.1 hcmd
      simp only [FillBuffer.accesses, Option.toList_some, List.map_cons, List.map_nil, hreg.whole]
      exact .fill hadm hptr hpat hreg hwl
    · cases h with
      | fill hadm hptr hpat hreg hwl =>
        refine ⟨_, EnqueueFillBufferBuilder.create_ok_iff.2 ⟨_, rfl, hadm, hptr, hpat, hreg, hwl, rfl⟩, ?_⟩
        simp only [FillBuffer.accesses, Option.toList_some, List.map_cons, List.map_nil, hreg.whole]
  | map x s site =>
    refine map_eq_ok_iff.trans ⟨?_, fun h => ?_⟩
    · rintro ⟨_, hcmd, rfl⟩
      obtain ⟨b, hbuf, hacc, rfl⟩ := MapBufferArgs.create_ok_iff.1 hcmd
      exact .map hbuf hacc
    · cases h with
      | map hbuf hacc => exact ⟨_, MapBufferArgs.create_ok_iff.2 ⟨_, hbuf, hacc, rfl⟩, rfl⟩
  | copyImageToBuffer buffer image offset origin region wl =>
    refine (BufferImageCopy.accesses_ok_iff rfl).trans ⟨?_, fun h => ?_⟩
    · rintro ⟨b, img, o, r, ⟨rfl, hb⟩, ⟨rfl, hi⟩, ⟨rfl, rfl⟩, harea, hwl, rfl⟩
      exact .copyImageToBuffer hb hi harea hwl
    · cases h with
      | copyImageToBuffer hb hi harea hwl => exact ⟨_, _, _, _, ⟨rfl, hb⟩, ⟨rfl, hi⟩, ⟨rfl, rfl⟩, harea, hwl, rfl⟩
  | copyBufferToImage buffer image offset origin region wl =>
    refine (BufferImageCopy.accesses_ok_iff rfl).trans ⟨?_, fun h => ?_⟩
    · rintro ⟨b, img, o, r, ⟨rfl, hb⟩, ⟨rfl, hi⟩, ⟨rfl, rfl⟩, harea, hwl, rfl⟩
      exact .copyBufferToImage hb hi harea hwl
    · cases h with
      | copyBufferToImage hb hi harea hwl => exact ⟨_, _, _, _, ⟨rfl, hb⟩, ⟨rfl, hi⟩, ⟨rfl, rfl⟩, harea, hwl, rfl⟩

/-- The end of an interval, as a machine word, is in the buffer. -/
theorem Creates.last_mod_le {q : QueueInfo} {req : BufferRequest} {as : List BufferInterval} (h : Creates q req as) :
    ∀ a ∈ as, a.last % 2 ^ 64 ≤ a.buffer.buffer.getSize := by
  have hsum : ∀ {b : BufferObject} {offset size : SizeT}, offset + size ≤ b.getSize →
      (offset.toNat + size.toNat) % 2 ^ 64 ≤ b.buffer.getSize := by
    intro b offset size hle
    rwa [BitVec.le_def, BitVec.toNat_add, BufferObject.toNat_getSize] at hle
  have hbytes : ∀ {b : BufferObject} {img : ImageObject} {offset : SizeT} {o r : Fin 3 → SizeT},
      BufferImageCopy.InArea offset o r b img → (offset.toNat + img.bytes r) % 2 ^ 64 ≤ b.buffer.getSize := by
    intro b img offset o r harea
    have hfits := harea.fits
    rw [BitVec.le_def, BufferObject.toNat_getSize] at hfits
    simpa [ImageObject.bytes, BitVec.toNat_add, BitVec.toNat_mul, Nat.mul_mod, Nat.add_mod] using hfits
  cases h with
  | read hadm hptr hfits hwl => exact List.forall_mem_singleton.2 (hsum hfits)
  | write hadm hptr hfits hwl => exact List.forall_mem_singleton.2 (hsum hfits)
  | copy htarget hsource harea hwl =>
    exact List.forall_mem_cons.2 ⟨hsum harea.target, List.forall_mem_singleton.2 (hsum harea.source)⟩
  | fill hadm hpattern hsize hregion hwl => exact List.forall_mem_singleton.2 (hsum hregion.fits)
  | map hbuf hacc => exact List.forall_mem_singleton.2 (hsum hacc.area)
  | copyImageToBuffer hadm himg harea hwl => exact List.forall_mem_singleton.2 (hbytes harea)
  | copyBufferToImage hadm himg harea hwl => exact List.forall_mem_singleton.2 (hbytes harea)

/-- Commands access their buffers inside, if no end of an interval that the tests let pass wraps around. -/
theorem intervals_inside_iff (q : QueueInfo) (req : BufferRequest) :
    (∀ as, req.create q = .ok as → ∀ a ∈ as, a.Inside) ↔
      ¬ ∃ as, Creates q req as ∧ ∃ a ∈ as, 2 ^ 64 ≤ a.last := by
  simp only [create_ok_iff, not_exists, not_and, not_le]
  refine forall_congr' fun as => forall_congr' fun hcreates => forall_congr' fun a => forall_congr' fun ha => ?_
  have hmod := hcreates.last_mod_le a ha
  have hsize := a.buffer.size_lt
  constructor
  · exact fun hinside => lt_of_le_of_lt hinside hsize
  · intro hlt
    rwa [Nat.mod_eq_of_lt hlt] at hmod

/-- A buffer of 16 bytes is read from offset `2 ^ 64 - 1`: the sum with the size is 1. -/
theorem read_before_buffer :
    ¬ ∀ (q : QueueInfo) (req : BufferRequest) (as : List BufferInterval), req.create q = .ok as → ∀ a ∈ as, a.Inside := by
  intro hall
  have hinside := hall { context := 0, device := CPUDevice.info }
    (.read (some (.buffer BufferObject.sixteenBytes)) (some 4096) true (-1) 2
      WaitListArg.empty) _ rfl _ (List.mem_singleton_self _)
  revert hinside
  unfold BufferInterval.Inside
  decide

end BufferRequest

end OpenCRun
