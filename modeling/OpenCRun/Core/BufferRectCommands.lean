import Mathlib.Data.Fin.VecNotation
import OpenCRun.Core.BufferRectBuilders
/-!
# Rectangular commands

The bytes of a buffer that `MemRectCpy` reaches for a command of the builders
of rectangles. A builder compares one index with the size of the buffer, in
machine words; here the same index is a natural number.
-/
open Lib OpenCRun.CPUThread

namespace OpenCRun

/-! ## Offsets without wrapping around -/

namespace RectArgs

/-- The slice pitch; its default is a product. -/
def slicePitchNat (a : RectArgs) (r : Fin 3 → SizeT) : Nat :=
  if a.slicePitch = 0 then (r 1).toNat * (a.rowWord r).toNat else a.slicePitch.toNat

def firstByte (a : RectArgs) (r o : Fin 3 → SizeT) : Nat :=
  (o 0).toNat + (o 1).toNat * (a.rowWord r).toNat + (o 2).toNat * a.slicePitchNat r

def lastByte (a : RectArgs) (r o : Fin 3 → SizeT) : Nat :=
  ((o 0).toNat + ((r 0).toNat - 1)) + ((o 1).toNat + ((r 1).toNat - 1)) * (a.rowWord r).toNat +
    ((o 2).toNat + ((r 2).toNat - 1)) * a.slicePitchNat r

/-- The rectangle, from the beginning of the buffer. -/
def storage (a : RectArgs) (r o : Fin 3 → SizeT) : Strided :=
  strided (a.firstByte r o) r (a.rowWord r).toNat (a.slicePitchNat r)

/-- The last index is the size of the buffer, or it does not fit into a word. -/
def Overruns (a : RectArgs) (b : BufferObject) (r o : Fin 3 → SizeT) : Prop :=
  a.lastByte r o = b.buffer.getSize ∨ 2 ^ 64 ≤ a.lastByte r o

variable {a : RectArgs} {r o : Fin 3 → SizeT}

theorem ofNat_slicePitchNat : BitVec.ofNat 64 (a.slicePitchNat r) = a.sliceWord r := by
  unfold slicePitchNat sliceWord
  split
  · simp [BitVec.ofNat_mul]
  · simp

theorem ofNat_firstByte : BitVec.ofNat 64 (a.firstByte r o) = (a.side r o).offset := by
  simp [firstByte, side, BitVec.ofNat_add, BitVec.ofNat_mul, ofNat_slicePitchNat]

end RectArgs

theorem toNat_pos_of_ne_zero {a : SizeT} (h : a ≠ 0) : 0 < a.toNat :=
  Nat.pos_of_ne_zero fun h' => h (BitVec.eq_of_toNat_eq h')

theorem ofNat_toNat_pred {a : SizeT} (h : a ≠ 0) : BitVec.ofNat 64 (a.toNat - 1) = a - 1 := by
  have hpos := toNat_pos_of_ne_zero h
  bv_omega

theorem RegionAccepted.ne_zero {r : Fin 3 → SizeT} (h : RegionAccepted r) : r 0 ≠ 0 ∧ r 1 ≠ 0 ∧ r 2 ≠ 0 := by
  simpa [RegionAccepted, not_or] using h

namespace RectArgs

variable {a : RectArgs} {b : BufferObject} {r o : Fin 3 → SizeT}

/-- What is compared with the size is the last index, up to wrapping around. -/
theorem ofNat_lastByte (hr : RegionAccepted r) : BitVec.ofNat 64 (a.lastByte r o) = a.lastWord r o := by
  obtain ⟨h0, h1, h2⟩ := hr.ne_zero
  rw [lastWord, ← ofNat_toNat_pred h0, ← ofNat_toNat_pred h1, ← ofNat_toNat_pred h2]
  simp [lastByte, BitVec.ofNat_add, BitVec.ofNat_mul, ofNat_slicePitchNat]

theorem storage_nonempty (hr : RegionAccepted r) : (a.storage r o).Nonempty :=
  let ⟨h0, h1, h2⟩ := hr.ne_zero
  ⟨toNat_pos_of_ne_zero h0, toNat_pos_of_ne_zero h1, toNat_pos_of_ne_zero h2⟩

theorem storage_last : (a.storage r o).last = a.lastByte r o := by
  simp only [Strided.last, Strided.byte, storage, strided, firstByte, lastByte]
  push_cast
  ring

theorem storage_lt_iff (hr : RegionAccepted r) (h : a.Accepted (some b.getSize) r o) :
    (a.storage r o).All (· < b.buffer.getSize) ↔ ¬ a.Overruns b r o := by
  have hle : a.lastByte r o % 2 ^ 64 ≤ b.buffer.getSize := by
    have hfits := h.fits _ rfl
    rw [← ofNat_lastByte hr, BitVec.le_def, BitVec.toNat_ofNat, BufferObject.toNat_getSize] at hfits
    exact hfits
  have hsize := b.size_lt
  rw [Strided.all_lt_iff (storage_nonempty hr), storage_last, Overruns, Nat.cast_lt]
  by_cases hlt : a.lastByte r o < 2 ^ 64
  · rw [Nat.mod_eq_of_lt hlt] at hle
    omega
  · omega

end RectArgs

/-! ## The bytes that a command reaches -/

/-- The address is in the buffer that begins at `base`. -/
def BufferObject.Holds (b : BufferObject) (base address : SizeT) : Prop := (address - base).toNat < b.buffer.getSize

theorem BufferObject.holds_of_lt {b : BufferObject} {p : Int} (base : SizeT) (hp : 0 ≤ p) (hlt : p < b.buffer.getSize) :
    b.Holds base (base + BitVec.ofInt 64 p) := by
  have hsize := b.size_lt
  rw [Holds, BitVec.add_comm, BitVec.add_sub_cancel, BitVec.toNat_ofInt]
  omega

/-- The offsets of the bytes, as natural numbers, are in the buffer. -/
def RectArgs.Inside (a : RectArgs) (b : BufferObject) (region : Option (Fin 3 → SizeT)) : Prop :=
  ∀ r o, region = some r → a.origin = some o → (a.storage r o).All (· < b.buffer.getSize)

/-- The pointer of the host. -/
def HostRectTransfer.address (c : HostRectTransfer) : SizeT := BitVec.ofNat 64 (c.pointer.getD 0) + c.hostSide.offset

/-- What the device does; `base` is where it has the buffer. -/
def EnqueueReadBufferRect.execute (base : SizeT) (c : HostRectTransfer) : List Memcpy :=
  match c.region with
  | none => []
  | some r =>
    memRectCpy c.address (base + c.bufferSide.offset) r c.hostSide.rowPitch c.hostSide.slicePitch c.bufferSide.rowPitch
      c.bufferSide.slicePitch

def EnqueueWriteBufferRect.execute (base : SizeT) (c : HostRectTransfer) : List Memcpy :=
  match c.region with
  | none => []
  | some r =>
    memRectCpy (base + c.bufferSide.offset) c.address r c.bufferSide.rowPitch c.bufferSide.slicePitch c.hostSide.rowPitch
      c.hostSide.slicePitch

def EnqueueCopyBufferRect.execute (targetBase sourceBase : SizeT) (c : CopyBufferRect) : List Memcpy :=
  match c.region with
  | none => []
  | some r =>
    memRectCpy (targetBase + c.targetSide.offset) (sourceBase + c.sourceSide.offset) r c.targetSide.rowPitch
      c.targetSide.slicePitch c.sourceSide.rowPitch c.sourceSide.slicePitch

/-- The calls of the entry points. -/
inductive RectRequest where
  | read (x : HostRectArgs)
  | write (x : HostRectArgs)
  | copy (x : CopyRectArgs)

namespace RectRequest

/-- A command that is created only reaches bytes of its buffers, and no offset of them wraps around. -/
def Inside (q : QueueInfo) : RectRequest → Prop
  | read x => ∀ cmd b, (EnqueueReadBufferRectBuilder.build q x).create = .ok cmd → cmd.params.buffer = some b →
      (∀ base, ∀ c ∈ EnqueueReadBufferRect.execute base cmd.params, c.Reads (b.Holds base)) ∧
        x.bufferArgs.Inside b cmd.params.region
  | write x => ∀ cmd b, (EnqueueWriteBufferRectBuilder.build q x).create = .ok cmd → cmd.params.buffer = some b →
      (∀ base, ∀ c ∈ EnqueueWriteBufferRect.execute base cmd.params, c.Writes (b.Holds base)) ∧
        x.bufferArgs.Inside b cmd.params.region
  | copy x => ∀ cmd t s, (EnqueueCopyBufferRectBuilder.build q x).create = .ok cmd → cmd.params.target = some t →
      cmd.params.source = some s →
      (∀ targetBase sourceBase, ∀ c ∈ EnqueueCopyBufferRect.execute targetBase sourceBase cmd.params,
          c.Writes (t.Holds targetBase) ∧ c.Reads (s.Holds sourceBase)) ∧
        x.targetArgs.Inside t cmd.params.region ∧ x.sourceArgs.Inside s cmd.params.region

/-- All tests let the request pass, and a rectangle of it overruns its buffer. -/
def Overruns (q : QueueInfo) : RectRequest → Prop
  | read x => ∃ b r o o', x.Accepted EnqueueReadBufferBuilder.tests q b r o o' ∧ x.bufferArgs.Overruns b r o
  | write x => ∃ b r o o', x.Accepted EnqueueWriteBufferRectBuilder.tests q b r o o' ∧ x.bufferArgs.Overruns b r o
  | copy x => ∃ t s ot os, x.Accepted q t s ot os ∧
      (x.targetArgs.Overruns t x.region ot ∨ x.sourceArgs.Overruns s x.region os)

end RectRequest

namespace RectArgs

variable {a : RectArgs} {b : BufferObject} {r o : Fin 3 → SizeT}

theorem inside_iff (hr : RegionAccepted r) (h : a.Accepted (some b.getSize) r o) :
    a.Inside b (some r) ↔ ¬ a.Overruns b r o := by
  rw [← storage_lt_iff hr h, Inside]
  constructor
  · intro hin
    exact hin r o rfl h.origin
  · rintro hall _ o' ⟨⟩ ho'
    obtain rfl : o = o' := Option.some.inj (h.origin.symm.trans ho')
    exact hall

theorem holds_of_all_lt (base : SizeT) (h : (a.storage r o).All (· < b.buffer.getSize)) :
    (a.storage r o).All fun p => b.Holds base (base + BitVec.ofInt 64 p) :=
  h.imp fun _ hp hlt => BufferObject.holds_of_lt base (le_trans (Int.natCast_nonneg _) hp) hlt

variable (base other : SizeT) (m m' : SizeT)

theorem writes_of_not_overruns (hr : RegionAccepted r) (h : a.Accepted (some b.getSize) r o) (hno : ¬ a.Overruns b r o) :
    ∀ c ∈ memRectCpy (base + (a.side r o).offset) other r (a.side r o).rowPitch (a.side r o).slicePitch m m',
      c.Writes (b.Holds base) :=
  (memRectCpy_writes_iff _ base other ((BitVec.ofInt_natCast ..).trans ofNat_firstByte) (by simp [side])
    ofNat_slicePitchNat).2 (holds_of_all_lt base ((storage_lt_iff hr h).2 hno))

theorem reads_of_not_overruns (hr : RegionAccepted r) (h : a.Accepted (some b.getSize) r o) (hno : ¬ a.Overruns b r o) :
    ∀ c ∈ memRectCpy other (base + (a.side r o).offset) r m m' (a.side r o).rowPitch (a.side r o).slicePitch,
      c.Reads (b.Holds base) :=
  (memRectCpy_reads_iff _ base other ((BitVec.ofInt_natCast ..).trans ofNat_firstByte) (by simp [side])
    ofNat_slicePitchNat).2 (holds_of_all_lt base ((storage_lt_iff hr h).2 hno))

end RectArgs

namespace RectRequest

theorem rectangles_inside_iff (q : QueueInfo) (req : RectRequest) : req.Inside q ↔ ¬ req.Overruns q := by
  -- One argument for each rectangle: the two of a copy are independent.
  cases req with
  | read x =>
    simp only [Inside, Overruns, HostRectArgs.read_create_ok_iff]
    constructor
    · rintro h ⟨b, r, o, o', hacc, hover⟩
      exact (RectArgs.inside_iff hacc.regionPos hacc.bufferSide).1
        (h _ b ⟨b, r, o, o', hacc, rfl⟩ rfl).2 hover
    · rintro h _ b ⟨b', r, o, o', hacc, rfl⟩ hb
      obtain rfl : b' = b := Option.some.inj hb
      have hno : ¬ x.bufferArgs.Overruns b' r o := fun hover => h ⟨b', r, o, o', hacc, hover⟩
      exact ⟨fun base => RectArgs.reads_of_not_overruns base _ _ _ hacc.regionPos hacc.bufferSide hno,
        (RectArgs.inside_iff hacc.regionPos hacc.bufferSide).2 hno⟩
  | write x =>
    simp only [Inside, Overruns, HostRectArgs.write_create_ok_iff]
    constructor
    · rintro h ⟨b, r, o, o', hacc, hover⟩
      exact (RectArgs.inside_iff hacc.regionPos hacc.bufferSide).1
        (h _ b ⟨b, r, o, o', hacc, rfl⟩ rfl).2 hover
    · rintro h _ b ⟨b', r, o, o', hacc, rfl⟩ hb
      obtain rfl : b' = b := Option.some.inj hb
      have hno : ¬ x.bufferArgs.Overruns b' r o := fun hover => h ⟨b', r, o, o', hacc, hover⟩
      exact ⟨fun base => RectArgs.writes_of_not_overruns base _ _ _ hacc.regionPos hacc.bufferSide hno,
        (RectArgs.inside_iff hacc.regionPos hacc.bufferSide).2 hno⟩
  | copy x =>
    simp only [Inside, Overruns, CopyRectArgs.create_ok_iff]
    constructor
    · rintro h ⟨t, s, ot, os, hacc, hover⟩
      obtain ⟨-, htarget, hsource⟩ := h _ t s ⟨t, s, ot, os, hacc, rfl⟩ rfl rfl
      rcases hover with hover | hover
      · exact (RectArgs.inside_iff hacc.regionPos hacc.targetSide).1 htarget hover
      · exact (RectArgs.inside_iff hacc.regionPos hacc.sourceSide).1 hsource hover
    · rintro h _ t s ⟨t', s', ot, os, hacc, rfl⟩ ht hs
      obtain rfl : t' = t := Option.some.inj ht
      obtain rfl : s' = s := Option.some.inj hs
      have hnot : ¬ x.targetArgs.Overruns t' x.region ot := fun hover => h ⟨t', s', ot, os, hacc, .inl hover⟩
      have hnos : ¬ x.sourceArgs.Overruns s' x.region os := fun hover => h ⟨t', s', ot, os, hacc, .inr hover⟩
      refine ⟨fun targetBase sourceBase c hc => ⟨?_, ?_⟩, (RectArgs.inside_iff hacc.regionPos hacc.targetSide).2 hnot,
        (RectArgs.inside_iff hacc.regionPos hacc.sourceSide).2 hnos⟩
      · exact RectArgs.writes_of_not_overruns targetBase _ _ _ hacc.regionPos hacc.targetSide hnot c hc
      · exact RectArgs.reads_of_not_overruns sourceBase _ _ _ hacc.regionPos hacc.sourceSide hnos c hc

/-- A row of 16 bytes from the second byte of a buffer of 16 bytes. -/
def rowFromOne : HostRectArgs where
  buf := some (.buffer BufferObject.sixteenBytes)
  ptr := some 4096
  blocking := true
  region := some ![16, 1, 1]
  bufferArgs := { origin := some ![1, 0, 0], rowPitch := 0, slicePitch := 0 }
  hostArgs := { origin := some ![0, 0, 0], rowPitch := 0, slicePitch := 0 }
  wl := WaitListArg.empty

/-- The last index is the size, and not over it. -/
theorem row_ends_at_size : ¬ (read rowFromOne).Inside { context := 0, device := CPUDevice.info } := by
  intro h
  have hlast := (h _ _ rfl rfl).2 _ _ rfl rfl 15 (by decide) 0 (by decide) 0 (by decide)
  revert hlast
  decide

end RectRequest

end OpenCRun
