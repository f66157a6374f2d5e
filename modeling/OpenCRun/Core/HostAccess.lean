import OpenCRun.Core.BufferCommands
import OpenCRun.Core.BufferRectCommands
/-!
# Host access

The context of a buffer and the flags of its host access, against the commands
that the builders create and those that they refuse.
-/
namespace OpenCRun

open CommandBuilder

/-- What the host itself does with a buffer. -/
structure HostUse where
  reads : Bool := false
  writes : Bool := false

namespace HostUse

structure Permitted (u : HostUse) (flags : MemFlags) : Prop where
  reads : u.reads = true → flags.has MemFlags.HostWriteOnly = false ∧ flags.has MemFlags.HostNoAccess = false
  writes : u.writes = true → flags.has MemFlags.HostReadOnly = false ∧ flags.has MemFlags.HostNoAccess = false

theorem permitted_none (flags : MemFlags) : Permitted {} flags := ⟨nofun, nofun⟩

end HostUse

/-- The calls that end in a builder of a command on buffers. -/
inductive EnqueueRequest where
  | interval (req : BufferRequest)
  | rect (req : RectRequest)

namespace BufferRequest

def buffers : BufferRequest → List BufferObject
  | read buf _ _ _ _ _ => (Mem.buffer? buf).toList
  | write buf _ _ _ _ _ => (Mem.buffer? buf).toList
  | copy target source _ _ _ _ => (Mem.buffer? target).toList ++ (Mem.buffer? source).toList
  | fill buf _ _ _ _ _ => (Mem.buffer? buf).toList
  | map x _ _ => (Mem.buffer? x.buf).toList
  | copyImageToBuffer buffer _ _ _ _ _ => (Mem.buffer? buffer).toList
  | copyBufferToImage buffer _ _ _ _ _ => (Mem.buffer? buffer).toList

def hostUse : BufferRequest → HostUse
  | read .. => { reads := true }
  | write .. => { writes := true }
  | map x _ _ => { reads := x.mapFlags.has .CL_MAP_READ, writes := x.mapFlags.writes }
  | _ => {}

/-- The bytes that are asked for are in the buffers. -/
def InBounds : BufferRequest → Prop
  | read buf _ _ offset size _ => ∀ b, Mem.buffer? buf = some b → offset.toNat + size.toNat ≤ b.buffer.getSize
  | write buf _ _ offset size _ => ∀ b, Mem.buffer? buf = some b → offset.toNat + size.toNat ≤ b.buffer.getSize
  | copy target source targetOffset sourceOffset size _ =>
    (∀ b, Mem.buffer? target = some b → targetOffset.toNat + size.toNat ≤ b.buffer.getSize) ∧
      ∀ b, Mem.buffer? source = some b → sourceOffset.toNat + size.toNat ≤ b.buffer.getSize
  | fill buf _ _ offset size _ => ∀ b, Mem.buffer? buf = some b → offset.toNat + size.toNat ≤ b.buffer.getSize
  | map x _ _ => ∀ b, Mem.buffer? x.buf = some b → x.offset.toNat + x.size.toNat ≤ b.buffer.getSize
  | copyImageToBuffer buffer image offset _ region _ => ∀ b img r, Mem.buffer? buffer = some b →
      Mem.image? image = some img → region = some r → offset.toNat + img.bytes r ≤ b.buffer.getSize
  | copyBufferToImage buffer image offset _ region _ => ∀ b img r, Mem.buffer? buffer = some b →
      Mem.image? image = some img → region = some r → offset.toNat + img.bytes r ≤ b.buffer.getSize

def Refuses (q : QueueInfo) : BufferRequest → Prop
  | read buf ptr blocking offset size wl => (EnqueueReadBufferBuilder.build q buf ptr blocking offset size wl).Refuses
  | write buf ptr blocking offset size wl => (EnqueueWriteBufferBuilder.build q buf ptr blocking offset size wl).Refuses
  | copy target source targetOffset sourceOffset size wl =>
    (EnqueueCopyBufferBuilder.build q target source targetOffset sourceOffset size wl).Refuses
  | fill buf pattern patternSize offset size wl =>
    (EnqueueFillBufferBuilder.build q buf pattern patternSize offset size wl).Refuses
  | map x s site => (EnqueueMapBufferBuilder.build q s site x).Refuses
  | copyImageToBuffer buffer image offset origin region wl =>
    (EnqueueCopyImageToBufferBuilder.build q buffer image offset origin region wl).Refuses
  | copyBufferToImage buffer image offset origin region wl =>
    (EnqueueCopyBufferToImageBuilder.build q buffer image offset origin region wl).Refuses

end BufferRequest

namespace RectRequest

def buffers : RectRequest → List BufferObject
  | read x => (Mem.buffer? x.buf).toList
  | write x => (Mem.buffer? x.buf).toList
  | copy x => (Mem.buffer? x.target).toList ++ (Mem.buffer? x.source).toList

def hostUse : RectRequest → HostUse
  | read _ => { reads := true }
  | write _ => { writes := true }
  | copy _ => {}

/-- The last byte of the rectangle is in the buffer. -/
def SideInBounds (mem : Option Mem) (a : RectArgs) (region : Option (Fin 3 → SizeT)) : Prop :=
  ∀ b r o, Mem.buffer? mem = some b → region = some r → a.origin = some o → a.lastByte r o < b.buffer.getSize

def InBounds : RectRequest → Prop
  | read x => SideInBounds x.buf x.bufferArgs x.region
  | write x => SideInBounds x.buf x.bufferArgs x.region
  | copy x => SideInBounds x.target x.targetArgs (some x.region) ∧ SideInBounds x.source x.sourceArgs (some x.region)

/-- All tests of the builder let the request pass. -/
def Creates (q : QueueInfo) : RectRequest → Prop
  | read x => ∃ b r o o', x.Accepted EnqueueReadBufferBuilder.tests q b r o o'
  | write x => ∃ b r o o', x.Accepted EnqueueWriteBufferRectBuilder.tests q b r o o'
  | copy x => ∃ t s ot os, x.Accepted q t s ot os

def Created (q : QueueInfo) : RectRequest → Prop
  | read x => ∃ cmd, (EnqueueReadBufferRectBuilder.build q x).create = .ok cmd
  | write x => ∃ cmd, (EnqueueWriteBufferRectBuilder.build q x).create = .ok cmd
  | copy x => ∃ cmd, (EnqueueCopyBufferRectBuilder.build q x).create = .ok cmd

def Refuses (q : QueueInfo) : RectRequest → Prop
  | read x => (EnqueueReadBufferRectBuilder.build q x).Refuses
  | write x => (EnqueueWriteBufferRectBuilder.build q x).Refuses
  | copy x => (EnqueueCopyBufferRectBuilder.build q x).Refuses

theorem created_iff {q : QueueInfo} {req : RectRequest} : req.Created q ↔ req.Creates q := by
  cases req with
  | read x =>
    simp only [Created, Creates, HostRectArgs.read_create_ok_iff]
    exact ⟨fun ⟨_, b, r, o, o', h, _⟩ => ⟨b, r, o, o', h⟩, fun ⟨b, r, o, o', h⟩ => ⟨_, b, r, o, o', h, rfl⟩⟩
  | write x =>
    simp only [Created, Creates, HostRectArgs.write_create_ok_iff]
    exact ⟨fun ⟨_, b, r, o, o', h, _⟩ => ⟨b, r, o, o', h⟩, fun ⟨b, r, o, o', h⟩ => ⟨_, b, r, o, o', h, rfl⟩⟩
  | copy x =>
    simp only [Created, Creates, CopyRectArgs.create_ok_iff]
    exact ⟨fun ⟨_, t, s, ot, os, h, _⟩ => ⟨t, s, ot, os, h⟩, fun ⟨t, s, ot, os, h⟩ => ⟨_, t, s, ot, os, h, rfl⟩⟩

end RectRequest

namespace EnqueueRequest

/-- The buffers that the call names. -/
def buffers : EnqueueRequest → List BufferObject
  | interval req => req.buffers
  | rect req => req.buffers

def hostUse : EnqueueRequest → HostUse
  | interval req => req.hostUse
  | rect req => req.hostUse

def InBounds : EnqueueRequest → Prop
  | interval req => req.InBounds
  | rect req => req.InBounds

/-- A command is created. -/
def Created (q : QueueInfo) : EnqueueRequest → Prop
  | interval req => ∃ as, req.create q = .ok as
  | rect req => req.Created q

/-- Among the errors is that of the flags of the host access. -/
def Refuses (q : QueueInfo) : EnqueueRequest → Prop
  | interval req => req.Refuses q
  | rect req => req.Refuses q

/-- All tests of the builder let the request pass. -/
def Creates (q : QueueInfo) : EnqueueRequest → Prop
  | interval req => ∃ as, BufferRequest.Creates q req as
  | rect req => req.Creates q

/-- The buffer is of the queue's context and permits the request. -/
def Rightful (q : QueueInfo) (req : EnqueueRequest) (b : BufferObject) : Prop :=
  b.context = q.context ∧ req.hostUse.Permitted b.buffer.getFlags

/-- Commands are only created for rightful buffers, and a request in bounds for rightful and aligned
buffers is not refused for their flags. -/
def Enforced (q : QueueInfo) (req : EnqueueRequest) : Prop :=
  (req.Created q → ∀ b ∈ req.buffers, req.Rightful q b) ∧
    ((∀ b ∈ req.buffers, req.Rightful q b ∧ (b.buffer.isSubBuffer = true → q.Aligned b)) → req.InBounds → ¬ req.Refuses q)

/-- A rectangle is written to a buffer with memory of its own that the host may only read, and all tests
let it pass; or to one that the host may only write, in bounds. -/
def RectFlagsMixedUp (q : QueueInfo) (req : EnqueueRequest) : Prop :=
  ∃ x b, req = rect (.write x) ∧ x.buf = some (.buffer b) ∧ b.buffer.isSubBuffer = false ∧
    ((b.buffer.getFlags.has MemFlags.HostReadOnly = true ∧ req.Creates q) ∨
      (b.buffer.getFlags.has MemFlags.HostWriteOnly = true ∧ req.Rightful q b ∧ req.InBounds))

/-- A sub-buffer is not looked at for more than its alignment, or the flags for writing a rectangle are
mixed up. -/
def Misjudged (q : QueueInfo) (req : EnqueueRequest) : Prop :=
  (req.Creates q ∧ ∃ b ∈ req.buffers, b.buffer.isSubBuffer = true ∧ ¬ req.Rightful q b) ∨ req.RectFlagsMixedUp q

end EnqueueRequest

/-! ## The flags of mappings -/

theorem CLMapFlags.has_or (flags a b : CLMapFlags) : flags.has (a ||| b) = (flags.has a || flags.has b) := by
  have hzero : ∀ x y : CLMapFlags, x ||| y = 0 ↔ x = 0 ∧ y = 0 := fun x y => BitVec.or_eq_zero_iff
  rw [Bool.eq_iff_iff]
  simp only [CLMapFlags.has, bne_iff_ne, ne_eq, Bool.or_eq_true, BitVec.and_or_distrib_left, hzero]
  exact not_and_or

section

variable {flags denied : MemFlags} {mapFlags mask bad : CLMapFlags} {r : Report}

theorem checkMapFlag_eq_none (h : checkMapFlag flags mapFlags mask bad denied = none) (hmask : mapFlags.has mask = true) :
    flags.has denied = false ∧ flags.has MemFlags.HostNoAccess = false := by
  unfold checkMapFlag at h
  rw [if_pos hmask] at h
  split_ifs at h with hbad hdenied
  simpa using hdenied

theorem checkMapFlag_invalidOperation (h : checkMapFlag flags mapFlags mask bad denied = some r)
    (hr : r.1 = .invalidOperation) :
    mapFlags.has mask = true ∧ ¬ (flags.has denied = false ∧ flags.has MemFlags.HostNoAccess = false) := by
  unfold checkMapFlag at h
  split_ifs at h with hmask hbad hdenied
  · cases h
    cases hr
  · refine ⟨hmask, fun hnone => ?_⟩
    simp [hnone.1, hnone.2] at hdenied

theorem permitted_of_checkMapFlags (h : checkMapFlags flags mapFlags = none) :
    HostUse.Permitted { reads := mapFlags.has .CL_MAP_READ, writes := mapFlags.writes } flags := by
  obtain ⟨hread, hwrite, hinvalidate⟩ := by simpa [checkMapFlags] using h
  refine ⟨checkMapFlag_eq_none hread, fun hwrites => ?_⟩
  rcases (by simpa [CLMapFlags.writes, CLMapFlags.has_or] using hwrites) with hw | hw
  · exact checkMapFlag_eq_none hwrite hw
  · exact checkMapFlag_eq_none hinvalidate hw

theorem not_permitted_of_checkMapFlags (h : checkMapFlags flags mapFlags = some r) (hr : r.1 = .invalidOperation) :
    ¬ HostUse.Permitted { reads := mapFlags.has .CL_MAP_READ, writes := mapFlags.writes } flags := by
  intro hperm
  have hwrites : mapFlags.has .CL_MAP_WRITE = true ∨ mapFlags.has .CL_MAP_WRITE_INVALIDATE_REGION = true →
      flags.has MemFlags.HostReadOnly = false ∧ flags.has MemFlags.HostNoAccess = false := fun hw =>
    hperm.writes (by simpa [CLMapFlags.writes, CLMapFlags.has_or] using hw)
  rcases (by simpa [checkMapFlags, Option.or_eq_some_iff] using h) with hread | ⟨-, hwrite | ⟨-, hinvalidate⟩⟩
  · obtain ⟨hmask, hno⟩ := checkMapFlag_invalidOperation hread hr
    exact hno (hperm.reads hmask)
  · obtain ⟨hmask, hno⟩ := checkMapFlag_invalidOperation hwrite hr
    exact hno (hwrites (.inl hmask))
  · obtain ⟨hmask, hno⟩ := checkMapFlag_invalidOperation hinvalidate hr
    exact hno (hwrites (.inr hmask))

end

/-! ## What the tests enforce -/

namespace BufferTests

variable {t : BufferTests} {q : QueueInfo} {b : BufferObject}

/-- The tests look at the context and the flags of a buffer with memory of its own. -/
theorem Admits.of_main (h : t.Admits q b) (hmain : b.buffer.isSubBuffer = false) :
    b.context = q.context ∧ ∀ m ∈ t.denied, b.buffer.getFlags.has m = false := by
  rw [Admits, hmain] at h
  exact ⟨h.2, h.1⟩

end BufferTests

theorem permitted_read {flags : MemFlags} (h : ∀ m ∈ EnqueueReadBufferBuilder.tests.denied, flags.has m = false) :
    HostUse.Permitted { reads := true } flags :=
  ⟨fun _ => ⟨h _ (by simp [EnqueueReadBufferBuilder.tests]), h _ (by simp [EnqueueReadBufferBuilder.tests])⟩, nofun⟩

theorem permitted_write {flags : MemFlags} (h : ∀ m ∈ EnqueueWriteBufferBuilder.tests.denied, flags.has m = false) :
    HostUse.Permitted { writes := true } flags :=
  ⟨nofun, fun _ => ⟨h _ (by simp [EnqueueWriteBufferBuilder.tests]), h _ (by simp [EnqueueWriteBufferBuilder.tests])⟩⟩

theorem not_denies_read {b : BufferObject} (h : HostUse.Permitted { reads := true } b.buffer.getFlags) :
    ¬ EnqueueReadBufferBuilder.tests.Denies b := by
  rintro ⟨-, m, hm, hhas⟩
  obtain ⟨hwriteOnly, hnoAccess⟩ := h.reads rfl
  simp only [EnqueueReadBufferBuilder.tests, List.mem_cons, List.not_mem_nil, or_false] at hm
  rcases hm with rfl | rfl
  · simp [hwriteOnly] at hhas
  · simp [hnoAccess] at hhas

theorem not_denies_write {b : BufferObject} (h : HostUse.Permitted { writes := true } b.buffer.getFlags) :
    ¬ EnqueueWriteBufferBuilder.tests.Denies b := by
  rintro ⟨-, m, hm, hhas⟩
  obtain ⟨hreadOnly, hnoAccess⟩ := h.writes rfl
  simp only [EnqueueWriteBufferBuilder.tests, List.mem_cons, List.not_mem_nil, or_false] at hm
  rcases hm with rfl | rfl
  · simp [hreadOnly] at hhas
  · simp [hnoAccess] at hhas

namespace BufferRequest

variable {q : QueueInfo} {req : BufferRequest} {b : BufferObject}

/-- A buffer with memory of its own is rightful when a command is created. -/
theorem Creates.rightful {as : List BufferInterval} (h : Creates q req as) (hb : b ∈ req.buffers)
    (hmain : b.buffer.isSubBuffer = false) : b.context = q.context ∧ req.hostUse.Permitted b.buffer.getFlags := by
  cases h with
  | read hadm hptr hfits hwl =>
    obtain rfl : _ = b := by simpa [buffers] using hb
    exact (hadm.of_main hmain).imp_right permitted_read
  | write hadm hptr hfits hwl =>
    obtain rfl : _ = b := by simpa [buffers] using hb
    exact (hadm.of_main hmain).imp_right permitted_write
  | copy htarget hsource harea hwl =>
    rcases (by simpa [buffers] using hb) with rfl | rfl
    · exact ⟨(htarget.of_main hmain).1, HostUse.permitted_none _⟩
    · exact ⟨(hsource.of_main hmain).1, HostUse.permitted_none _⟩
  | fill hadm hpattern hsize hregion hwl =>
    obtain rfl : _ = b := by simpa [buffers] using hb
    exact ⟨(hadm.of_main hmain).1, HostUse.permitted_none _⟩
  | map hbuf hacc =>
    obtain rfl : _ = b := by simpa [buffers, hbuf] using hb
    exact ⟨(hacc.admitted.of_main hmain).1, permitted_of_checkMapFlags hacc.mapFlags⟩
  | copyImageToBuffer hadm himg harea hwl =>
    obtain rfl : _ = b := by simpa [buffers] using hb
    exact ⟨(hadm.of_main hmain).1, HostUse.permitted_none _⟩
  | copyBufferToImage hadm himg harea hwl =>
    obtain rfl : _ = b := by simpa [buffers] using hb
    exact ⟨(hadm.of_main hmain).1, HostUse.permitted_none _⟩

end BufferRequest

namespace MapBufferArgs

open EnqueueMapBufferBuilder

variable {x : MapBufferArgs} {q : QueueInfo} {s : Mappings} {site : MapSite} {src : BufferObject}

theorem refuses_iff (h : x.buf = some (.buffer src)) :
    (build q s site x).Refuses ↔
      ∃ r, checkMapFlags src.buffer.getFlags x.mapFlags = some r ∧ r.1 = .invalidOperation := by
  rw [(build_adds h).refuses_iff, Refuses, flagged_reports h]
  simp only [List.mem_append, Option.mem_toList]
  constructor
  · rintro ⟨r, hr | hr, hop⟩
    · exact absurd hop (BufferTests.checkBuffer_code rfl hr)
    · exact ⟨r, hr, hop⟩
  · rintro ⟨r, hr, hop⟩
    exact ⟨r, .inr hr, hop⟩

/-- Without a buffer no flags are looked at. -/
theorem not_refuses_of_no_buffer (h : Mem.buffer? x.buf = none) : ¬ (build q s site x).Refuses := by
  have hnone : ∀ {p : MapBuffer × Mappings}, p.1.source = none → setMapFlags x.mapFlags p = (p, none) ∧
      setMapArea x.offset x.size p = (p, none) ∧ setMapBuffer site p = (p, none) := by
    intro p hp
    simp [setMapFlags, setMapArea, setMapBuffer, hp]
  have hskip : ∀ {b : CommandBuilder (MapBuffer × Mappings)} {f : Setter (MapBuffer × Mappings)},
      f b.params = (b.params, none) → b.call f = b := by
    intro b f hf
    simp [CommandBuilder.call, hf]
  have hnew : Adds { ctx := q.context, params := (new q s x.buf).params } (new q s x.buf)
      (∃ b, x.buf = some (.buffer b) ∧ tests.Admits q b) :=
    adds_of_option rfl BufferTests.checkBuffer_eq_none fun r => BufferTests.checkBuffer_code rfl
  rw [build, setBlocking_eq rfl]
  simp only []
  rw [hskip (hnone h).1, hskip (hnone h).2.1, hskip (hnone h).2.2, (adds_setWaitList rfl).refuses_iff]
  exact hnew.not_refuses

end MapBufferArgs

namespace BufferRequest

variable {q : QueueInfo} {req : BufferRequest}

/-- A request is refused for the flags of a buffer that does not permit it. -/
theorem Refuses.not_permitted (h : req.Refuses q) : ∃ b ∈ req.buffers, ¬ req.hostUse.Permitted b.buffer.getFlags := by
  cases req with
  | read buf ptr blocking offset size wl =>
    obtain ⟨b, rfl, hdenies⟩ := HostTransfer.new_refuses.1 (HostTransfer.build_adds.refuses_iff.1 h)
    exact ⟨b, by simp [buffers], fun hperm => not_denies_read hperm hdenies⟩
  | write buf ptr blocking offset size wl =>
    obtain ⟨b, rfl, hdenies⟩ := HostTransfer.new_refuses.1 (HostTransfer.build_adds.refuses_iff.1 h)
    exact ⟨b, by simp [buffers], fun hperm => not_denies_write hperm hdenies⟩
  | copy target source targetOffset sourceOffset size wl => exact absurd h EnqueueCopyBufferBuilder.build_adds.not_refuses
  | fill buf pattern patternSize offset size wl => exact absurd h EnqueueFillBufferBuilder.build_adds.not_refuses
  | map x s site =>
    cases hbuf : Mem.buffer? x.buf with
    | none => exact absurd h (MapBufferArgs.not_refuses_of_no_buffer hbuf)
    | some src =>
      rw [Mem.buffer?_eq_some] at hbuf
      obtain ⟨r, hr, hop⟩ := (MapBufferArgs.refuses_iff hbuf).1 h
      exact ⟨src, by simp [buffers, hbuf], not_permitted_of_checkMapFlags hr hop⟩
  | copyImageToBuffer buffer image offset origin region wl => exact absurd h (BufferImageCopy.build_adds rfl).not_refuses
  | copyBufferToImage buffer image offset origin region wl => exact absurd h (BufferImageCopy.build_adds rfl).not_refuses

end BufferRequest

namespace RectRequest

variable {q : QueueInfo} {req : RectRequest} {b : BufferObject}

/-- But for the flags with which a rectangle is written. -/
theorem Creates.rightful (h : req.Creates q) (hb : b ∈ req.buffers) (hmain : b.buffer.isSubBuffer = false) :
    b.context = q.context ∧ (req.hostUse.Permitted b.buffer.getFlags ∨
      ∃ x, req = write x ∧ x.buf = some (.buffer b) ∧ b.buffer.getFlags.has MemFlags.HostReadOnly = true) := by
  cases req with
  | read x =>
    obtain ⟨b', r, o, o', hacc⟩ := h
    obtain rfl : b' = b := by simpa [buffers, hacc.buffer] using hb
    exact (hacc.admitted.of_main hmain).imp_right fun hdenied => .inl (permitted_read hdenied)
  | write x =>
    obtain ⟨b', r, o, o', hacc⟩ := h
    obtain rfl : b' = b := by simpa [buffers, hacc.buffer] using hb
    obtain ⟨hctx, hdenied⟩ := hacc.admitted.of_main hmain
    refine ⟨hctx, ?_⟩
    cases hro : b'.buffer.getFlags.has MemFlags.HostReadOnly with
    | true => exact .inr ⟨x, rfl, hacc.buffer, rfl⟩
    | false =>
      exact .inl ⟨nofun, fun _ => ⟨hro, hdenied _ (by simp [EnqueueWriteBufferRectBuilder.tests])⟩⟩
  | copy x =>
    obtain ⟨t, s, ot, os, hacc⟩ := h
    rcases (by simpa [buffers, hacc.target, hacc.source] using hb) with rfl | rfl
    · exact ⟨(hacc.targetAdmitted.of_main hmain).1, .inl (HostUse.permitted_none _)⟩
    · exact ⟨(hacc.sourceAdmitted.of_main hmain).1, .inl (HostUse.permitted_none _)⟩

theorem Refuses.not_permitted (h : req.Refuses q) :
    ∃ b ∈ req.buffers, ¬ req.hostUse.Permitted b.buffer.getFlags ∨
      ∃ x, req = write x ∧ x.buf = some (.buffer b) ∧ b.buffer.isSubBuffer = false ∧
        b.buffer.getFlags.has MemFlags.HostWriteOnly = true := by
  cases req with
  | read x =>
    obtain ⟨b, hbuf, hdenies⟩ := HostRectTransfer.new_refuses.1 (HostRectArgs.read_adds.refuses_iff.1 h)
    exact ⟨b, by simp [buffers, hbuf], .inl fun hperm => not_denies_read hperm hdenies⟩
  | write x =>
    obtain ⟨b, hbuf, hmain, m, hm, hhas⟩ := HostRectTransfer.new_refuses.1 (HostRectArgs.write_adds.refuses_iff.1 h)
    refine ⟨b, by simp [buffers, hbuf], ?_⟩
    simp only [EnqueueWriteBufferRectBuilder.tests, List.mem_cons, List.not_mem_nil, or_false] at hm
    rcases hm with rfl | rfl
    · exact .inr ⟨x, rfl, hbuf, hmain, hhas⟩
    · refine .inl fun hperm => ?_
      simp [(hperm.writes rfl).2] at hhas
  | copy x => exact absurd h CopyRectArgs.build_adds.not_refuses

/-- A buffer that the host may only write refuses the writing of a rectangle. -/
theorem refuses_write {x : HostRectArgs} (hbuf : x.buf = some (.buffer b)) (hmain : b.buffer.isSubBuffer = false)
    (h : b.buffer.getFlags.has MemFlags.HostWriteOnly = true) : (write x).Refuses q :=
  HostRectArgs.write_adds.refuses_iff.2 (HostRectTransfer.new_refuses.2
    ⟨b, hbuf, hmain, _, List.mem_cons_self .., h⟩)

end RectRequest

namespace EnqueueRequest

variable {q : QueueInfo} {req : EnqueueRequest} {b : BufferObject}

theorem created_iff : req.Created q ↔ req.Creates q := by
  cases req with
  | interval req => exact exists_congr fun as => BufferRequest.create_ok_iff
  | rect req => exact RectRequest.created_iff

/-- Buffers with memory of their own are rightful, but for the flags with which a rectangle is written. -/
theorem Creates.rightful (h : req.Creates q) (hb : b ∈ req.buffers) (hmain : b.buffer.isSubBuffer = false) :
    req.Rightful q b ∨
      ∃ x, req = rect (.write x) ∧ x.buf = some (.buffer b) ∧ b.buffer.getFlags.has MemFlags.HostReadOnly = true := by
  cases req with
  | interval req =>
    obtain ⟨as, has⟩ := h
    exact .inl (has.rightful hb hmain)
  | rect req =>
    obtain ⟨hctx, hperm | ⟨x, rfl, hbuf, hro⟩⟩ := RectRequest.Creates.rightful h hb hmain
    · exact .inl ⟨hctx, hperm⟩
    · exact .inr ⟨x, rfl, hbuf, hro⟩

theorem Refuses.not_permitted (h : req.Refuses q) :
    ∃ b ∈ req.buffers, ¬ req.hostUse.Permitted b.buffer.getFlags ∨
      ∃ x, req = rect (.write x) ∧ x.buf = some (.buffer b) ∧ b.buffer.isSubBuffer = false ∧
        b.buffer.getFlags.has MemFlags.HostWriteOnly = true := by
  cases req with
  | interval req =>
    obtain ⟨b, hb, hno⟩ := BufferRequest.Refuses.not_permitted h
    exact ⟨b, hb, .inl hno⟩
  | rect req =>
    obtain ⟨b, hb, hno | ⟨x, rfl, hrest⟩⟩ := RectRequest.Refuses.not_permitted h
    · exact ⟨b, hb, .inl hno⟩
    · exact ⟨b, hb, .inr ⟨x, rfl, hrest⟩⟩

theorem rights_enforced_iff (q : QueueInfo) (req : EnqueueRequest) : req.Enforced q ↔ ¬ req.Misjudged q := by
  constructor
  · rintro ⟨hcreated, hrefuses⟩ (⟨hcreates, b, hb, -, hno⟩ | ⟨x, b, rfl, hbuf, hmain, hflags⟩)
    · exact hno (hcreated (created_iff.2 hcreates) b hb)
    · have hb : b ∈ (rect (.write x)).buffers := by simp [buffers, RectRequest.buffers, hbuf]
      rcases hflags with ⟨hro, hcreates⟩ | ⟨hwo, hright, hbounds⟩
      · have hperm := (hcreated (created_iff.2 hcreates) b hb).2
        simp [(hperm.writes rfl).1] at hro
      · refine hrefuses (fun b' hb' => ?_) hbounds (RectRequest.refuses_write hbuf hmain hwo)
        obtain rfl : b = b' := by simpa [buffers, RectRequest.buffers, hbuf] using hb'
        exact ⟨hright, fun hsub => by simp [hmain] at hsub⟩
  · intro hno
    constructor
    · intro hcreated b hb
      have hcreates := created_iff.1 hcreated
      by_contra hwrong
      cases hmain : b.buffer.isSubBuffer with
      | true => exact hno (.inl ⟨hcreates, b, hb, hmain, hwrong⟩)
      | false =>
        obtain ⟨x, rfl, hbuf, hro⟩ := (hcreates.rightful hb hmain).resolve_left hwrong
        exact hno (.inr ⟨x, b, rfl, hbuf, hmain, .inl ⟨hro, hcreates⟩⟩)
    · intro hall hbounds hrefuses
      obtain ⟨b, hb, hdenied | ⟨x, rfl, hbuf, hmain, hwo⟩⟩ := Refuses.not_permitted hrefuses
      · exact hdenied (hall b hb).1.2
      · exact hno (.inr ⟨x, b, rfl, hbuf, hmain, .inr ⟨hwo, (hall b hb).1, hbounds⟩⟩)

/-- A buffer of 16 bytes that the host may only read. -/
def hostReadOnly : BufferObject where
  buffer := .main { sixteen with flags := MemFlags.HostReadOnly, hostPtr_isSome := fun h => by cases h }
  context := 0
  size_lt := by decide

/-- Its first byte is written, as a rectangle. -/
theorem rect_written_to_read_only : ¬ ∀ (q : QueueInfo) (req : EnqueueRequest), req.Enforced q := by
  intro hall
  have hright := (hall { context := 0, device := CPUDevice.info } (rect (.write
    { RectRequest.rowFromOne with buf := some (.buffer hostReadOnly), region := some ![1, 1, 1] }))).1
    ⟨_, rfl⟩ hostReadOnly (by decide)
  exact absurd (hright.2.writes rfl).1 (by decide)

end EnqueueRequest

end OpenCRun
