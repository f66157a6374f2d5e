import Mathlib.Data.Set.Lattice
import Mathlib.Order.CompletePartialOrder
import OpenCRun.Core.BufferCommands
import OpenCRun.Core.BufferRectCommands
/-!
# Overlapping copies

What `EnqueueCopyBufferBuilder` and `EnqueueCopyBufferRectBuilder` find out
about a copy inside one buffer, and the bytes of that buffer that the copy
reads and writes.
-/
open OpenCRun.CPUThread

namespace OpenCRun

/-! ## Intervals -/

/-- The bytes of an interval in the object with the memory. -/
def BufferInterval.bytes (a : BufferInterval) : Set Nat :=
  Set.Ico (a.buffer.buffer.absoluteOrigin + a.offset) (a.buffer.buffer.absoluteOrigin + a.offset + a.length)

/-- A buffer and a sub-buffer of it. -/
def BufferObject.Nested (t s : BufferObject) : Prop :=
  s.buffer.getParent = some t.buffer ∨ t.buffer.getParent = some s.buffer

/-- The ways in which two buffers have bytes in common. -/
def BufferObject.Aliased (t s : BufferObject) : Prop := t = s ∨ t.siblings s = true ∨ t.Nested s

/-- Two intervals of `n` bytes that begin at these numbers have a byte in common. -/
def Near (a b n : Nat) : Prop := max a b - min a b < n

instance (a b n : Nat) : Decidable (Near a b n) := inferInstanceAs (Decidable (max a b - min a b < n))

theorem Buffer.getParent_ne (b : Buffer) : b.getParent ≠ some b := by
  intro h
  cases b with
  | main m => cases h
  | sub id parent origin size flags =>
    have hsize := congrArg sizeOf (Option.some.inj h)
    simp only [Buffer.sub.sizeOf_spec] at hsize
    omega

theorem BufferObject.siblings_parents {t s : BufferObject} (h : t.siblings s = true) :
    t ≠ s ∧ t.buffer.getParent = s.buffer.getParent := by
  simp only [siblings, Bool.and_eq_true, bne_iff_ne, beq_iff_eq] at h
  exact ⟨h.1.1.1, h.2⟩

theorem BufferObject.Nested.apart {t s : BufferObject} (h : t.Nested s) : t ≠ s ∧ t.siblings s = false := by
  refine ⟨?_, ?_⟩
  · rintro rfl
    exact h.elim t.buffer.getParent_ne t.buffer.getParent_ne
  · rw [Bool.eq_false_iff]
    intro hs
    have hparents := (siblings_parents hs).2
    rcases h with h | h
    · exact t.buffer.getParent_ne (hparents.trans h)
    · exact s.buffer.getParent_ne (hparents.symm.trans h)

namespace EnqueueCopyBufferBuilder

variable {t s : BufferObject} {targetOffset sourceOffset size : SizeT}

theorem overlap_iff : overlap targetOffset sourceOffset size = true ↔
    Near targetOffset.toNat sourceOffset.toNat size.toNat := by
  unfold overlap Near
  split
  · next h =>
    rw [decide_eq_true_eq, BitVec.lt_def, BitVec.toNat_sub_of_le (BitVec.le_of_lt h)]
    rw [BitVec.lt_def] at h
    omega
  · next h =>
    rw [decide_eq_true_eq, BitVec.lt_def, BitVec.toNat_sub_of_le (BitVec.not_lt.1 h)]
    rw [BitVec.not_lt, BitVec.le_def] at h
    omega

/-- The call on the buffers that the constructor has found. -/
def area (t s : BufferObject) (targetOffset sourceOffset size : SizeT) : CopyBuffer × Option Report :=
  setCopyArea targetOffset sourceOffset size { target := some t, source := some s }

def interval (b : BufferObject) (offset size : SizeT) : BufferInterval := ⟨b, offset.toNat, size.toNat⟩

/-- The offsets of the intervals in the object with the memory are near. -/
def NearInRoot (t s : BufferObject) (targetOffset sourceOffset size : SizeT) : Prop :=
  Near (t.buffer.absoluteOrigin + targetOffset.toNat) (s.buffer.absoluteOrigin + sourceOffset.toNat) size.toNat

def Overlapping (t s : BufferObject) (targetOffset sourceOffset size : SizeT) : Prop :=
  ((interval t targetOffset size).bytes ∩ (interval s sourceOffset size).bytes).Nonempty

/-- The area is refused for an overlap if there is one; then `memcpy` gets ranges apart, and each
copy of ranges apart is made. -/
structure ChecksArea (t s : BufferObject) (targetOffset sourceOffset size : SizeT) : Prop where
  reported : (area t s targetOffset sourceOffset size).2.map Prod.fst = some .memCopyOverlap ↔
    Overlapping t s targetOffset sourceOffset size
  apart : ∀ q wl cmd, (build q (some (.buffer t)) (some (.buffer s)) targetOffset sourceOffset size wl).create = .ok cmd →
    cmd.params.accesses.Pairwise fun a b => Disjoint a.bytes b.bytes
  kept : ¬ Overlapping t s targetOffset sourceOffset size → (area t s targetOffset sourceOffset size).2 = none

/-- For two sub-buffers the offsets that are compared are near where those in the parent are; a buffer
and its sub-buffer, for which nothing is compared, are used apart. -/
def OffsetsAgree (t s : BufferObject) (targetOffset sourceOffset size : SizeT) : Prop :=
  t = s ∨
    (t.siblings s = true ∧ (Near targetOffset.toNat sourceOffset.toNat size.toNat ↔
      NearInRoot t s targetOffset sourceOffset size)) ∨
    (t.Nested s ∧ ¬ NearInRoot t s targetOffset sourceOffset size)

theorem overlapping_iff : Overlapping t s targetOffset sourceOffset size ↔
    NearInRoot t s targetOffset sourceOffset size := by
  simp only [Overlapping, BufferInterval.bytes, interval, NearInRoot, Near, Set.Ico_inter_Ico, Set.nonempty_Ico]
  omega

/-- The offsets decide as the offsets in the root do. -/
theorem offsetsAgree_iff (h : t.Aliased s) : OffsetsAgree t s targetOffset sourceOffset size ↔
    ((t = s ∨ t.siblings s = true) ∧ Near targetOffset.toNat sourceOffset.toNat size.toNat ↔
      NearInRoot t s targetOffset sourceOffset size) := by
  rcases h with rfl | h | h
  · have hroot : NearInRoot t t targetOffset sourceOffset size ↔
        Near targetOffset.toNat sourceOffset.toNat size.toNat := by
      unfold NearInRoot Near
      omega
    simp [OffsetsAgree, hroot]
  · have hnot : ¬ t.Nested s := fun hn => Bool.false_ne_true (hn.apart.2.symm.trans h)
    simp [OffsetsAgree, h, hnot, (BufferObject.siblings_parents h).1]
  · simp [OffsetsAgree, h, h.apart]

section
variable (ht : targetOffset.toNat + size.toNat ≤ t.buffer.getSize) (hs : sourceOffset.toNat + size.toNat ≤ s.buffer.getSize)
include ht hs

/-- Inside their buffers, areas are refused for nothing but an overlap. -/
theorem area_eq : (area t s targetOffset sourceOffset size).2 =
    if (t = s ∨ t.siblings s = true) ∧ Near targetOffset.toNat sourceOffset.toNat size.toNat then
      some (.memCopyOverlap, "source and destination regions overlap")
    else none := by
  have hsum : ∀ {b : BufferObject} {offset : SizeT}, offset.toNat + size.toNat ≤ b.buffer.getSize →
      ¬ offset + size > b.getSize := by
    intro b offset h
    have hlt := b.size_lt
    rw [gt_iff_lt, BitVec.lt_def, BitVec.toNat_add, BufferObject.toNat_getSize, Nat.mod_eq_of_lt (by omega)]
    omega
  rw [area, setCopyArea]
  simp only [if_neg (hsum ht), if_neg (hsum hs), overlap_iff]
  split_ifs <;> simp_all

theorem area_eq_none_iff : (area t s targetOffset sourceOffset size).2 = none ↔
    ¬ ((t = s ∨ t.siblings s = true) ∧ Near targetOffset.toNat sourceOffset.toNat size.toNat) := by
  rw [area_eq ht hs]
  split_ifs <;> simp_all

theorem area_reports_iff : (area t s targetOffset sourceOffset size).2.map Prod.fst = some .memCopyOverlap ↔
    (t = s ∨ t.siblings s = true) ∧ Near targetOffset.toNat sourceOffset.toNat size.toNat := by
  rw [area_eq ht hs]
  split_ifs <;> simp_all

/-- Where the report is right, so is what follows from it. -/
theorem checksArea_iff_reported : ChecksArea t s targetOffset sourceOffset size ↔
    ((area t s targetOffset sourceOffset size).2.map Prod.fst = some .memCopyOverlap ↔
      Overlapping t s targetOffset sourceOffset size) := by
  refine ⟨ChecksArea.reported, fun hreported => ⟨hreported, fun q wl cmd hcmd => ?_, fun hnot => ?_⟩⟩
  · obtain ⟨t', s', ⟨ht', -⟩, ⟨hs', -⟩, harea, -, rfl⟩ := create_ok_iff.1 hcmd
    obtain rfl : t = t' := by simpa using ht'
    obtain rfl : s = s' := by simpa using hs'
    have hnone : (area t s targetOffset sourceOffset size).2 = none := congrArg Prod.snd (setCopyArea_of_inArea harea)
    have hapart : ¬ Overlapping t s targetOffset sourceOffset size := by
      rw [← hreported, hnone]
      simp
    have hdisjoint : Disjoint (interval t targetOffset size).bytes (interval s sourceOffset size).bytes :=
      Set.disjoint_iff_inter_eq_empty.2 (Set.not_nonempty_iff_eq_empty.1 hapart)
    exact List.pairwise_pair.2 hdisjoint
  · rw [← hreported, area_reports_iff ht hs] at hnot
    exact (area_eq_none_iff ht hs).2 hnot

theorem area_checked_iff (h : t.Aliased s) : ChecksArea t s targetOffset sourceOffset size ↔
    OffsetsAgree t s targetOffset sourceOffset size := by
  rw [checksArea_iff_reported ht hs, area_reports_iff ht hs, overlapping_iff, offsetsAgree_iff h]

end

/-- The halves of a buffer of 16 bytes. -/
def half (id origin : Nat) : BufferObject where
  buffer := .sub id (.main sixteen) origin 8 MemFlags.ReadWrite
  context := 0
  size_lt := by simp [Buffer.getSize]

/-- The last bytes of a buffer are copied to its first ones. -/
theorem area_checked_sixteenBytes : ChecksArea BufferObject.sixteenBytes BufferObject.sixteenBytes 0 8 8 :=
  (area_checked_iff (by decide) (by decide) (.inl rfl)).2 (.inl rfl)

/-- The first half is not copied to the last one. -/
theorem halves_refused : ¬ ∀ (t s : BufferObject) (targetOffset sourceOffset size : SizeT), t.Aliased s →
    targetOffset.toNat + size.toNat ≤ t.buffer.getSize → sourceOffset.toNat + size.toNat ≤ s.buffer.getSize →
    ChecksArea t s targetOffset sourceOffset size := by
  intro hall
  have hchecks := hall (half 1 8) (half 2 0) 0 0 8 (.inr (.inl (by decide))) (by decide) (by decide)
  have hover := hchecks.reported.1 (by decide)
  simp [Overlapping, BufferInterval.bytes, interval, half, Buffer.absoluteOrigin, Set.Ico_inter_Ico] at hover

end EnqueueCopyBufferBuilder

/-! ## Rectangles -/

namespace CopyRectArgs

open EnqueueCopyBufferRectBuilder

variable {x : CopyRectArgs} {q : QueueInfo} {t s : BufferObject} {ot os : Fin 3 → SizeT}

/-- The setters accept a copy inside one buffer, or between parts of one. -/
structure InOneBuffer (x : CopyRectArgs) (t s : BufferObject) (ot os : Fin 3 → SizeT) : Prop where
  target : x.target = some (.buffer t)
  source : x.source = some (.buffer s)
  same : sameBuffer t s = true
  regionPos : RegionAccepted x.region
  targetSide : x.targetArgs.Accepted (some t.getSize) x.region ot
  sourceSide : x.sourceArgs.Accepted (some s.getSize) x.region os

/-- What the test on the overlap reports, after the other setters. -/
def overlapReport (x : CopyRectArgs) (q : QueueInfo) : Option Report := (checkCopyOverlap (x.sides q).params).2

def SameRowPitch (x : CopyRectArgs) : Prop := x.targetArgs.rowWord x.region = x.sourceArgs.rowWord x.region
def SameSlicePitch (x : CopyRectArgs) : Prop := x.targetArgs.sliceWord x.region = x.sourceArgs.sliceWord x.region

instance (x : CopyRectArgs) : Decidable x.SameRowPitch :=
  inferInstanceAs (Decidable (x.targetArgs.rowWord x.region = x.sourceArgs.rowWord x.region))

instance (x : CopyRectArgs) : Decidable x.SameSlicePitch :=
  inferInstanceAs (Decidable (x.targetArgs.sliceWord x.region = x.sourceArgs.sliceWord x.region))

/-- The rows that are copied, from where the parent begins. -/
def rows (x : CopyRectArgs) (t s : BufferObject) (ot os : Fin 3 → SizeT) : List Memcpy :=
  EnqueueCopyBufferRect.execute (BitVec.ofNat 64 t.buffer.getParentOffset) (BitVec.ofNat 64 s.buffer.getParentOffset)
    (x.command t s ot os).params

def SharesByte (x : CopyRectArgs) (t s : BufferObject) (ot os : Fin 3 → SizeT) : Prop :=
  ((⋃ c ∈ x.rows t s ot os, c.written) ∩ ⋃ c ∈ x.rows t s ot os, c.read).Nonempty

/-- With common pitches an overlap is reported if there is one; other pitches are rejected. -/
structure ChecksOverlap (x : CopyRectArgs) (q : QueueInfo) (t s : BufferObject) (ot os : Fin 3 → SizeT) : Prop where
  overlap : x.SameRowPitch → x.SameSlicePitch →
    ((x.overlapReport q).map Prod.fst = some .memCopyOverlap ↔ x.SharesByte t s ot os)
  pitches : ¬ (x.SameRowPitch ∧ x.SameSlicePitch) → (x.overlapReport q).isSome = true

/-- A copy inside one buffer is always refused, for its pitches only if both of them differ. -/
theorem overlapReport_cases (h : x.InOneBuffer t s ot os) :
    (¬ x.SameRowPitch ∧ ¬ x.SameSlicePitch ∧
        x.overlapReport q = some (.invalidValue, "different pitches between target and source buffer.")) ∨
      ((x.SameRowPitch ∨ x.SameSlicePitch) ∧
        x.overlapReport q = some (.memCopyOverlap, "source and target regions overlap")) := by
  have hreport : x.overlapReport q = (checkCopyOverlap (x.command t s ot os).params).2 := by
    rw [overlapReport, sides_params h.target h.source h.regionPos h.targetSide h.sourceSide]
  simp only [checkCopyOverlap, command, h.same, overlaps_eq_true, if_true, RectArgs.side] at hreport
  by_cases hpitches : ¬ x.SameRowPitch ∧ ¬ x.SameSlicePitch
  · refine .inl ⟨hpitches.1, hpitches.2, ?_⟩
    rw [hreport]
    exact congrArg Prod.snd (if_pos hpitches)
  · refine .inr ⟨by tauto, ?_⟩
    rw [hreport]
    exact congrArg Prod.snd (if_neg hpitches)

/-- The test is right about the copies that it has to refuse. -/
theorem rectangles_checked_iff (h : x.InOneBuffer t s ot os) :
    (x.ChecksOverlap q t s ot os ↔ (x.SameRowPitch → x.SameSlicePitch → x.SharesByte t s ot os)) ∧
      ((x.overlapReport q).map Prod.fst = some .invalidValue ↔ ¬ x.SameRowPitch ∧ ¬ x.SameSlicePitch) := by
  rcases overlapReport_cases (q := q) h with ⟨hrow, hslice, hreport⟩ | ⟨hsame, hreport⟩
  · refine ⟨⟨fun _ hrow' => absurd hrow' hrow, fun _ => ⟨fun hrow' => absurd hrow' hrow, fun _ => by rw [hreport]; rfl⟩⟩, ?_⟩
    simp [hreport, hrow, hslice]
  · refine ⟨⟨fun hchecks hrow hslice => (hchecks.overlap hrow hslice).1 (by rw [hreport]; rfl),
      fun hshares => ⟨fun hrow hslice => ?_, fun _ => by rw [hreport]; rfl⟩⟩, ?_⟩
    · rw [hreport]
      exact iff_of_true rfl (hshares hrow hslice)
    · rw [hreport]
      simp only [Option.map_some, Option.some.injEq, reduceCtorEq, false_iff]
      tauto

/-- A place in rows of four bytes. -/
def inRows (offset : SizeT) : RectArgs where
  origin := some ![offset, 0, 0]
  rowPitch := 4
  slicePitch := 0

/-- The first `n` bytes of the first `n` rows of a buffer of 16 bytes, to another place in it. -/
def squareTo (n offset : SizeT) : CopyRectArgs where
  target := some (.buffer BufferObject.sixteenBytes)
  source := some (.buffer BufferObject.sixteenBytes)
  region := ![n, n, 1]
  targetArgs := inRows offset
  sourceArgs := inRows 0
  wl := WaitListArg.empty

theorem inRows_accepted {n offset : SizeT} (hn : n ≤ 4) (hfits : (inRows offset).lastWord ![n, n, 1] ![offset, 0, 0] ≤ 16) :
    (inRows offset).Accepted (some BufferObject.sixteenBytes.getSize) ![n, n, 1] ![offset, 0, 0] where
  origin := rfl
  rowPitch := fun h => BitVec.not_lt.2 hn h.2
  slicePitch := by simp [inRows]
  fits := by
    rintro _ ⟨⟩
    exact hfits

theorem squareTo_inOneBuffer {n offset : SizeT} (hpos : n ≠ 0) (hn : n ≤ 4)
    (htarget : (inRows offset).lastWord ![n, n, 1] ![offset, 0, 0] ≤ 16)
    (hsource : (inRows 0).lastWord ![n, n, 1] ![0, 0, 0] ≤ 16) :
    (squareTo n offset).InOneBuffer BufferObject.sixteenBytes BufferObject.sixteenBytes ![offset, 0, 0] ![0, 0, 0] where
  target := rfl
  source := rfl
  same := by decide
  regionPos := by
    rintro (h | h | h)
    · exact hpos h
    · exact hpos h
    · exact absurd h (show (1 : SizeT) ≠ 0 by decide)
  targetSide := inRows_accepted hn htarget
  sourceSide := inRows_accepted hn hsource

/-- Two rows of two bytes, one byte to the right: the second byte of each row is read and written. -/
theorem rectangles_checked_squareTo : (squareTo 2 1).ChecksOverlap { context := 0, device := CPUDevice.info }
    BufferObject.sixteenBytes BufferObject.sixteenBytes ![1, 0, 0] ![0, 0, 0] := by
  have hin : (squareTo 2 1).InOneBuffer BufferObject.sixteenBytes BufferObject.sixteenBytes ![1, 0, 0] ![0, 0, 0] :=
    squareTo_inOneBuffer (by decide) (by decide) (by decide) (by decide)
  have hrows : (squareTo 2 1).rows BufferObject.sixteenBytes BufferObject.sixteenBytes ![1, 0, 0] ![0, 0, 0] =
      [⟨1, 0, 2⟩, ⟨5, 4, 2⟩] := by decide
  refine (rectangles_checked_iff hin).1.2 fun _ _ => ⟨1, ?_, ?_⟩
  · rw [hrows, Set.mem_iUnion₂]
    exact ⟨⟨1, 0, 2⟩, List.mem_cons_self, 0, by decide, rfl⟩
  · rw [hrows, Set.mem_iUnion₂]
    exact ⟨⟨1, 0, 2⟩, List.mem_cons_self, 1, by decide, rfl⟩

/-- A byte that is copied to the middle is refused too. -/
theorem middle_refused : ¬ ∀ (x : CopyRectArgs) (q : QueueInfo) (t s : BufferObject) (ot os : Fin 3 → SizeT),
    x.InOneBuffer t s ot os → x.ChecksOverlap q t s ot os := by
  intro hall
  have hin : (squareTo 1 8).InOneBuffer BufferObject.sixteenBytes BufferObject.sixteenBytes ![8, 0, 0] ![0, 0, 0] :=
    squareTo_inOneBuffer (by decide) (by decide) (by decide) (by decide)
  have hchecks := hall _ { context := 0, device := CPUDevice.info } _ _ _ _ hin
  have hshares := (hchecks.overlap rfl rfl).1 (by decide)
  have hrows : (squareTo 1 8).rows BufferObject.sixteenBytes BufferObject.sixteenBytes ![8, 0, 0] ![0, 0, 0] =
      [⟨8, 0, 1⟩] := by decide
  rw [SharesByte, hrows] at hshares
  simp [Memcpy.written, Memcpy.read, Set.Nonempty] at hshares

end CopyRectArgs

end OpenCRun
