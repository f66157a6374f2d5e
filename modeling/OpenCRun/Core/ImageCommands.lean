import Mathlib.Data.Fin.VecNotation
import OpenCRun.Core.Image
import OpenCRun.Device.MemRectCpy
/-!
# Image commands

The regions of images that commands ask for: `IsValidImgRegion`, the
constructors that turn a region into bytes, and the bytes of the storage that
`MemRectCpy` and `MemRectFill` then reach.
-/
open Lib OpenCRun.CPUThread

namespace OpenCRun

/-- `IsValidImgRegion`: the message of the error, if there is one. -/
def isValidImgRegion (img : Image) (origin region : Fin 3 → SizeT) : Option String :=
  match img.type with
  | .image1D | .image1DBuffer =>
    if origin 1 ≠ 0 ∨ origin 2 ≠ 0 then some "invalid origin"
    else if region 1 ≠ 1 ∨ region 2 ≠ 1 then some "invalid region"
    else if origin 0 + region 0 > img.getWidth then some "region out of bounds"
    else none
  | .image1DArray =>
    if origin 2 ≠ 0 then some "invalid origin"
    else if region 2 ≠ 1 then some "invalid region"
    else if origin 0 + region 0 > img.getWidth ∨ origin 1 + region 1 > img.getArraySize then some "region out of bounds"
    else none
  | .image2D =>
    if origin 2 ≠ 0 then some "invalid origin"
    else if region 2 ≠ 1 then some "invalid region"
    else if origin 0 + region 0 > img.getWidth ∨ origin 1 + region 1 > img.getHeight then some "region out of bounds"
    else none
  | .image2DArray =>
    if origin 0 + region 0 > img.getWidth ∨ origin 1 + region 1 > img.getHeight ∨
      origin 2 + region 2 > img.getArraySize then some "region out of bounds"
    else none
  | .image3D =>
    if origin 0 + region 0 > img.getWidth ∨ origin 1 + region 1 > img.getHeight ∨
      origin 2 + region 2 > img.getDepth then some "region out of bounds"
    else none

/-! ## Regions in bytes -/

namespace Image

/-- The offset that the constructors compute. -/
def offset (img : Image) (origin : Fin 3 → SizeT) : SizeT :=
  origin 0 * img.getElementSize + origin 1 * img.getRowPitch + origin 2 * img.getSlicePitch

/-- The region with its width in bytes. -/
def regionInBytes (img : Image) (region : Fin 3 → SizeT) : Fin 3 → SizeT :=
  Function.update region 0 (region 0 * img.getElementSize)

end Image

/-- An image of a command: the address of its storage, and the origin of the region there. -/
structure ImageOperand where
  image : Image
  base : SizeT
  origin : Fin 3 → SizeT

/-- The pointer that the device finds for it. -/
def ImageOperand.pointer (o : ImageOperand) : SizeT := o.base + o.image.offset o.origin

/-- The commands that reach bytes of images. -/
inductive ImageCommand where
  | readImage (target : SizeT) (source : ImageOperand) (region : Fin 3 → SizeT) (targetPitches : SizeT × SizeT)
  | writeImage (target : ImageOperand) (source : SizeT) (region : Fin 3 → SizeT) (sourcePitches : SizeT × SizeT)
  | copyImage (target source : ImageOperand) (region : Fin 3 → SizeT)
  | copyImageToBuffer (target : SizeT) (source : ImageOperand) (region : Fin 3 → SizeT)
  | copyBufferToImage (target : ImageOperand) (source : SizeT) (region : Fin 3 → SizeT)
  | fillImage (target : ImageOperand) (region : Fin 3 → SizeT)

namespace ImageCommand

/-- What the device copies; the region in bytes is the target's where both are images. -/
def execute : ImageCommand → List Memcpy
  | readImage target source region pitches =>
    memRectCpy target source.pointer (source.image.regionInBytes region) pitches.1 pitches.2 source.image.getRowPitch
      source.image.getSlicePitch
  | writeImage target source region pitches =>
    memRectCpy target.pointer source (target.image.regionInBytes region) target.image.getRowPitch
      target.image.getSlicePitch pitches.1 pitches.2
  | copyImage target source region =>
    memRectCpy target.pointer source.pointer (target.image.regionInBytes region) target.image.getRowPitch
      target.image.getSlicePitch source.image.getRowPitch source.image.getSlicePitch
  | copyImageToBuffer target source region =>
    let bytes := source.image.regionInBytes region
    memRectCpy target source.pointer bytes (bytes 0) (bytes 0 * bytes 1) source.image.getRowPitch
      source.image.getSlicePitch
  | copyBufferToImage target source region =>
    let bytes := target.image.regionInBytes region
    memRectCpy target.pointer source bytes target.image.getRowPitch target.image.getSlicePitch (bytes 0)
      (bytes 0 * bytes 1)
  | fillImage _ _ => []

/-- What it fills; it has types for some sizes of elements. -/
def fills : ImageCommand → List MemFill
  | fillImage target region =>
    let size := target.image.getElementSize.toNat
    if size ∈ [1, 2, 4, 8, 16] then
      memRectFill target.pointer size (target.image.regionInBytes region) target.image.getRowPitch
        target.image.getSlicePitch
    else []
  | _ => []

def region : ImageCommand → Fin 3 → SizeT
  | readImage _ _ region _ => region
  | writeImage _ _ region _ => region
  | copyImage _ _ region => region
  | copyImageToBuffer _ _ region => region
  | copyBufferToImage _ _ region => region
  | fillImage _ region => region

def operands : ImageCommand → List ImageOperand
  | readImage _ source _ _ => [source]
  | writeImage target _ _ _ => [target]
  | copyImage target source _ => [target, source]
  | copyImageToBuffer _ source _ => [source]
  | copyBufferToImage target _ _ => [target]
  | fillImage target _ => [target]

end ImageCommand

/-- In the storage of the image, and of the buffer that it is over; the image begins where that does. -/
def ImageOperand.InStorage (o : ImageOperand) (address : SizeT) : Prop :=
  (address - o.base).toNat < o.image.size.toNat ∧
    ∀ buf, o.image.buf = some buf → (address - o.base).toNat < buf.getSize

/-- The bytes of its images that a command reaches are in them. -/
def ImageCommand.Inside : ImageCommand → Prop
  | readImage t s r p => ∀ c ∈ (readImage t s r p).execute, c.Reads s.InStorage
  | writeImage t s r p => ∀ c ∈ (writeImage t s r p).execute, c.Writes t.InStorage
  | copyImage t s r => (∀ c ∈ (copyImage t s r).execute, c.Writes t.InStorage) ∧
      ∀ c ∈ (copyImage t s r).execute, c.Reads s.InStorage
  | copyImageToBuffer t s r => ∀ c ∈ (copyImageToBuffer t s r).execute, c.Reads s.InStorage
  | copyBufferToImage t s r => ∀ c ∈ (copyBufferToImage t s r).execute, c.Writes t.InStorage
  | fillImage t r => ∀ f ∈ (fillImage t r).fills, f.Writes t.InStorage

/-! ## When the bytes are in the images -/

/-- A coordinate of an origin; below zero where its sum with the region's wraps around. -/
def firstOf (origin region : SizeT) : Int :=
  if origin.toNat + region.toNat < 2 ^ 64 then origin.toNat else origin.toNat - 2 ^ 64

namespace ImageOperand

/-- Where the region begins in the storage, with such coordinates. -/
def firstByte (o : ImageOperand) (region : Fin 3 → SizeT) : Int :=
  firstOf (o.origin 0 * o.image.getElementSize) (region 0 * o.image.getElementSize) +
    firstOf (o.origin 1) (region 1) * o.image.getRowPitch.toNat +
    firstOf (o.origin 2) (region 2) * o.image.getSlicePitch.toNat

/-- There are no bytes in a row, or the first one is not before the storage, and the buffer of an
image of one dimension goes as far as the region. -/
def Fits (o : ImageOperand) (region : Fin 3 → SizeT) : Prop :=
  region 0 * o.image.getElementSize = 0 ∨
    0 ≤ o.firstByte region ∧
      ∀ buf, o.image.buf = some buf →
        (o.origin 0 * o.image.getElementSize).toNat + (region 0 * o.image.getElementSize).toNat ≤ buf.getSize

/-- `setImage` has accepted the image, for a context of `n` devices, and `IsValidImgRegion` the region. -/
structure Accepted (o : ImageOperand) (region : Fin 3 → SizeT) : Prop where
  image : ∃ n fmt desc,
    MemoryObjectBuilder.computeImage (MemoryObjectBuilder.new .image).hostPtr (contextDevices n) fmt desc = .ok o.image
  valid : isValidImgRegion o.image o.origin region = none
  pos : ∀ d, region d ≠ 0

end ImageOperand

theorem error_eq_none {c : Prop} [Decidable c] {msg : String} {x : Option String} :
    (if c then some msg else x) = none ↔ ¬ c ∧ x = none := by
  split <;> simp_all

theorem valid_le_extent {img : Image} {origin region : Fin 3 → SizeT} (h : isValidImgRegion img origin region = none)
    (d : Fin 3) : (origin d + region d).toNat ≤ img.extent d := by
  simp only [isValidImgRegion] at h
  cases ht : img.type <;>
    simp only [ht, error_eq_none, not_or, not_not, gt_iff_lt, BitVec.not_lt, BitVec.le_def, and_true] at h <;>
    match d with
    | 0 => simp only [Image.extent]; omega
    | 1 => simp only [Image.extent, ht]; first | omega | (obtain ⟨ho, hr, -⟩ := h; simp [ho, hr])
    | 2 => simp only [Image.extent, ht]; first | omega | (obtain ⟨ho, hr, -⟩ := h; simp [ho, hr])

theorem firstOf_add (a b : SizeT) : firstOf a b + b.toNat = (a + b).toNat := by
  have ha := a.isLt
  have hb := b.isLt
  rw [firstOf, BitVec.toNat_add]
  split <;> omega

theorem ofInt_firstOf (a b : SizeT) : BitVec.ofInt 64 (firstOf a b) = a := by
  have hmod : firstOf a b % 2 ^ 64 = a.toNat := by
    have ha := a.isLt
    rw [firstOf]
    split <;> omega
  rw [← BitVec.toNat_inj, BitVec.toNat_ofInt]
  exact_mod_cast congrArg Int.toNat hmod

namespace Image

theorem toNat_getElementSize (img : Image) : img.getElementSize.toNat = img.format.elementSize := by
  have hbounds := img.format.elementSize_bounds
  rw [getElementSize, BitVec.toNat_ofNat, Nat.mod_eq_of_lt (by omega)]

/-- The width in bytes is a multiple of the element size also where the product wraps around. -/
theorem elementSize_dvd_regionInBytes {img : Image} (hsize : img.format.elementSize ∈ [1, 2, 4, 8, 16])
    (region : Fin 3 → SizeT) : img.format.elementSize ∣ (img.regionInBytes region 0).toNat := by
  have hall : ∀ n ∈ [1, 2, 4, 8, 16], n ∣ 2 ^ 64 := by decide
  rw [regionInBytes, Function.update_self, BitVec.toNat_mul, toNat_getElementSize]
  exact (Nat.dvd_mod_iff (hall _ hsize)).2 (Nat.dvd_mul_left _ _)

end Image

namespace ImageOperand

variable {o : ImageOperand} {region : Fin 3 → SizeT}

theorem ofInt_firstByte : BitVec.ofInt 64 (o.firstByte region) = o.image.offset o.origin := by
  simp [firstByte, Image.offset, BitVec.ofInt_add, BitVec.ofInt_mul, BitVec.ofInt_natCast, ofInt_firstOf]

theorem inStorage_iff (p : Int) :
    o.InStorage (o.base + BitVec.ofInt 64 p) ↔
      p % 2 ^ 64 < o.image.size.toNat ∧ ∀ buf, o.image.buf = some buf → p % 2 ^ 64 < buf.getSize := by
  have haddr : ((o.base + BitVec.ofInt 64 p - o.base).toNat : Int) = p % 2 ^ 64 := by
    rw [BitVec.add_comm, BitVec.add_sub_cancel, BitVec.toNat_ofInt]
    omega
  simp only [InStorage, ← haddr]
  norm_cast

/-- A row of the region ends in its row of the image. -/
theorem width_le (h : o.image.Laid) (hv : isValidImgRegion o.image o.origin region = none) :
    (o.origin 0 * o.image.getElementSize + region 0 * o.image.getElementSize).toNat ≤ o.image.getRowPitch.toNat := by
  have hle := valid_le_extent hv 0
  rw [← BitVec.add_mul, BitVec.toNat_mul, h.rowPitch]
  calc (o.origin 0 + region 0).toNat * o.image.getElementSize.toNat % 2 ^ 64
      ≤ (o.origin 0 + region 0).toNat * o.image.getElementSize.toNat := Nat.mod_le _ _
    _ ≤ o.image.getWidth.toNat * o.image.getElementSize.toNat := Nat.mul_le_mul_right _ hle
    _ ≤ o.image.getWidth.toNat * o.image.format.elementSize := Nat.mul_le_mul_left _ (Nat.mod_le _ _)

/-- The bytes of the region, counted from the beginning of the storage. -/
def storage (o : ImageOperand) (region : Fin 3 → SizeT) : Strided :=
  strided (o.firstByte region) (o.image.regionInBytes region) o.image.getRowPitch.toNat o.image.getSlicePitch.toNat

theorem storage_nonempty (hpos : ∀ d, region d ≠ 0) (hw : region 0 * o.image.getElementSize ≠ 0) :
    (o.storage region).Nonempty := by
  have toNat_pos : ∀ a : SizeT, a ≠ 0 → 0 < a.toNat := fun a ha =>
    Nat.pos_of_ne_zero fun h => ha (BitVec.eq_of_toNat_eq h)
  exact ⟨toNat_pos _ hw, toNat_pos _ (hpos 1), toNat_pos _ (hpos 2)⟩

/-- The last byte, by the ends of the region in the three coordinates. -/
theorem storage_last (hpos : ∀ d, region d ≠ 0) (hw : region 0 * o.image.getElementSize ≠ 0) :
    (o.storage region).last =
      ((o.origin 0 * o.image.getElementSize + region 0 * o.image.getElementSize).toNat - 1) +
        ((o.origin 1 + region 1).toNat - 1) * o.image.getRowPitch.toNat +
        ((o.origin 2 + region 2).toNat - 1) * o.image.getSlicePitch.toNat := by
  obtain ⟨h0, h1, h2⟩ := storage_nonempty hpos hw
  rw [← firstOf_add, ← firstOf_add, ← firstOf_add, Strided.last, Strided.byte, Nat.cast_pred h0, Nat.cast_pred h1,
    Nat.cast_pred h2]
  simp only [storage, strided, firstByte, Image.regionInBytes, Function.update_self, ne_eq, Fin.reduceEq,
    not_false_eq_true, Function.update_of_ne]
  ring

theorem storage_last_lt (h : o.image.Laid) (hv : isValidImgRegion o.image o.origin region = none)
    (hpos : ∀ d, region d ≠ 0) (hw : region 0 * o.image.getElementSize ≠ 0) :
    (o.storage region).last < o.image.size.toNat := by
  rw [storage_last hpos hw]
  have hwidth := width_le h hv
  have hrows := valid_le_extent hv 1
  have hslices := valid_le_extent hv 2
  have hfits : (o.image.extent 1 * o.image.getRowPitch.toNat + (o.image.extent 2 - 1 : Nat) * o.image.getSlicePitch.toNat :
      Int) ≤ o.image.size.toNat := by exact_mod_cast h.fits
  have hrow : ((o.origin 1 + region 1).toNat - 1 : Int) * o.image.getRowPitch.toNat ≤
      o.image.extent 1 * o.image.getRowPitch.toNat - o.image.getRowPitch.toNat := by
    rw [← sub_one_mul]
    exact mul_le_mul_of_nonneg_right (by omega) (Int.natCast_nonneg _)
  have hslice : ((o.origin 2 + region 2).toNat - 1 : Int) * o.image.getSlicePitch.toNat ≤
      (o.image.extent 2 - 1 : Nat) * o.image.getSlicePitch.toNat :=
    mul_le_mul_of_nonneg_right (by omega) (Int.natCast_nonneg _)
  omega

theorem storage_le_last (h : o.image.Laid) (hpos : ∀ d, region d ≠ 0) (hw : region 0 * o.image.getElementSize ≠ 0) :
    -(2 ^ 64 - o.image.size.toNat : Int) ≤ (o.storage region).last := by
  rw [storage_last hpos hw]
  have hsmall := h.small
  have hrow : (-1 : Int) * o.image.getRowPitch.toNat ≤ ((o.origin 1 + region 1).toNat - 1) * o.image.getRowPitch.toNat :=
    mul_le_mul_of_nonneg_right (by omega) (Int.natCast_nonneg _)
  have hslice : (-1 : Int) * o.image.getSlicePitch.toNat ≤
      ((o.origin 2 + region 2).toNat - 1) * o.image.getSlicePitch.toNat :=
    mul_le_mul_of_nonneg_right (by omega) (Int.natCast_nonneg _)
  omega

/-- An image over a buffer has one row. -/
theorem storage_last_buffer (h : o.image.Laid) (hv : isValidImgRegion o.image o.origin region = none)
    (hpos : ∀ d, region d ≠ 0) (hw : region 0 * o.image.getElementSize ≠ 0) {buf : Buffer} (hbuf : o.image.buf = some buf) :
    (o.storage region).last =
      (o.origin 0 * o.image.getElementSize + region 0 * o.image.getElementSize).toNat - 1 ∧
      o.firstByte region = firstOf (o.origin 0 * o.image.getElementSize) (region 0 * o.image.getElementSize) := by
  have ht : o.image.type = .image1DBuffer := h.buf (by rw [hbuf]; rfl)
  simp only [isValidImgRegion, ht, error_eq_none, not_or, not_not] at hv
  obtain ⟨⟨ho1, ho2⟩, ⟨hr1, hr2⟩, -⟩ := hv
  rw [storage_last hpos hw, firstByte, ho1, ho2, hr1, hr2]
  simp [firstOf]

theorem all_inStorage_iff (h : o.image.Laid) (hv : isValidImgRegion o.image o.origin region = none)
    (hpos : ∀ d, region d ≠ 0) :
    ((o.storage region).All fun p => o.InStorage (o.base + BitVec.ofInt 64 p)) ↔ o.Fits region := by
  unfold Fits
  by_cases hw : region 0 * o.image.getElementSize = 0
  · refine iff_of_true (fun x hx => ?_) (.inl hw)
    simp [storage, strided, Image.regionInBytes, hw] at hx
  have hs := storage_nonempty hpos hw
  have hlast := storage_last_lt h hv hpos hw
  simp only [hw, false_or, inStorage_iff, Strided.all_and]
  have hsmall := h.small
  have hrow : ((o.storage region).rowPitch : Int) ≤ 2 ^ 64 - o.image.size.toNat := by
    show (o.image.getRowPitch.toNat : Int) ≤ _
    omega
  have hslice : ((o.storage region).slicePitch : Int) ≤ 2 ^ 64 - o.image.size.toNat := by
    show (o.image.getSlicePitch.toNat : Int) ≤ _
    omega
  rw [Strided.all_emod_lt_iff hs (by omega) (by omega) hrow hslice (storage_le_last h hpos hw) hlast]
  refine and_congr_right fun hstart => ?_
  cases hbuf : o.image.buf with
  | none => simp [Strided.All]
  | some buf =>
    -- the addresses do not wrap around, so the last byte decides
    have hmod : ((o.storage region).All fun p => p % 2 ^ 64 < buf.getSize) ↔ (o.storage region).All (· < buf.getSize) := by
      have hlt := (Strided.all_lt_iff hs _).2 hlast
      constructor <;> intro hall <;> refine (Strided.all_and.2 ⟨hlt, hall⟩).imp fun p hge hp => ?_
      · have heq : p % 2 ^ 64 = p := Int.emod_eq_of_lt (hstart.trans hge) (by omega)
        omega
      · have heq : p % 2 ^ 64 = p := Int.emod_eq_of_lt (hstart.trans hge) (by omega)
        omega
    obtain ⟨hend, hfirst⟩ := storage_last_buffer h hv hpos hw hbuf
    have hstart : 0 ≤ o.firstByte region := hstart
    have hadd := firstOf_add (o.origin 0 * o.image.getElementSize) (region 0 * o.image.getElementSize)
    simp only [Option.some.injEq, forall_eq']
    rw [hmod, Strided.all_lt_iff hs, hend, ← hadd]
    rw [hfirst] at hstart
    unfold firstOf at hstart ⊢
    split at hstart <;> omega

section

variable (pitch slicePitch pointer : SizeT)

theorem writes_iff (h : o.image.Laid) (hv : isValidImgRegion o.image o.origin region = none) (hpos : ∀ d, region d ≠ 0) :
    (∀ c ∈ memRectCpy o.pointer pointer (o.image.regionInBytes region) o.image.getRowPitch o.image.getSlicePitch pitch
      slicePitch, c.Writes o.InStorage) ↔ o.Fits region :=
  (memRectCpy_writes_iff _ o.base pointer ofInt_firstByte (by simp) (by simp)).trans (all_inStorage_iff h hv hpos)

theorem reads_iff (h : o.image.Laid) (hv : isValidImgRegion o.image o.origin region = none) (hpos : ∀ d, region d ≠ 0) :
    (∀ c ∈ memRectCpy pointer o.pointer (o.image.regionInBytes region) pitch slicePitch o.image.getRowPitch
      o.image.getSlicePitch, c.Reads o.InStorage) ↔ o.Fits region :=
  (memRectCpy_reads_iff _ o.base pointer ofInt_firstByte (by simp) (by simp)).trans (all_inStorage_iff h hv hpos)

end

theorem fills_iff (h : o.image.Laid) (hv : isValidImgRegion o.image o.origin region = none) (hpos : ∀ d, region d ≠ 0)
    (hsize : o.image.format.elementSize ∈ [1, 2, 4, 8, 16]) :
    (∀ f ∈ (ImageCommand.fillImage o region).fills, f.Writes o.InStorage) ↔ o.Fits region := by
  have hbounds := o.image.format.elementSize_bounds
  simp only [ImageCommand.fills, o.image.toNat_getElementSize, if_pos hsize]
  rw [memRectFill_writes_iff _ _ (by omega) (Image.elementSize_dvd_regionInBytes hsize region)]
  exact writes_iff 0 0 0 h hv hpos

theorem Accepted.laid (h : o.Accepted region) : o.image.Laid :=
  let ⟨_, _, _, himg⟩ := h.image
  MemoryObjectBuilder.computeImage_laid himg

theorem Accepted.elementSize_mem (h : o.Accepted region) : o.image.format.elementSize ∈ [1, 2, 4, 8, 16] :=
  let ⟨_, _, _, himg⟩ := h.image
  ImageFormat.elementSize_mem (MemoryObjectBuilder.computeImage_ok himg).1

end ImageOperand

/-- Images of one format have regions of one width in bytes. -/
theorem Image.regionInBytes_congr {img img' : Image} (h : img.format = img'.format) (region : Fin 3 → SizeT) :
    img.regionInBytes region = img'.regionInBytes region := by
  rw [Image.regionInBytes, Image.regionInBytes, Image.getElementSize, Image.getElementSize, h]

namespace ImageCommand

/-- A command for accepted images and regions keeps to their storage if each of the regions fits. -/
theorem bytes_inside_iff (cmd : ImageCommand) (hacc : ∀ o ∈ cmd.operands, o.Accepted cmd.region)
    (hfmt : ∀ o ∈ cmd.operands, ∀ o' ∈ cmd.operands, o.image.format = o'.image.format) :
    cmd.Inside ↔ ∀ o ∈ cmd.operands, o.Fits cmd.region := by
  cases cmd with
  | readImage target source region pitches =>
    have hs := hacc source (List.mem_singleton_self _)
    rw [operands, List.forall_mem_singleton]
    exact ImageOperand.reads_iff _ _ _ hs.laid hs.valid hs.pos
  | writeImage target source region pitches =>
    have ht := hacc target (List.mem_singleton_self _)
    rw [operands, List.forall_mem_singleton]
    exact ImageOperand.writes_iff _ _ _ ht.laid ht.valid ht.pos
  | copyImage target source region =>
    have ht := hacc target (List.mem_cons_self ..)
    have hs := hacc source (List.mem_cons_of_mem _ (List.mem_singleton_self _))
    have heq : target.image.regionInBytes region = source.image.regionInBytes region :=
      Image.regionInBytes_congr (hfmt target (by simp [operands]) source (by simp [operands])) region
    rw [operands, List.forall_mem_cons, List.forall_mem_singleton]
    refine and_congr (ImageOperand.writes_iff _ _ _ ht.laid ht.valid ht.pos) ?_
    rw [execute, heq]
    exact ImageOperand.reads_iff _ _ _ hs.laid hs.valid hs.pos
  | copyImageToBuffer target source region =>
    have hs := hacc source (List.mem_singleton_self _)
    rw [operands, List.forall_mem_singleton]
    exact ImageOperand.reads_iff _ _ _ hs.laid hs.valid hs.pos
  | copyBufferToImage target source region =>
    have ht := hacc target (List.mem_singleton_self _)
    rw [operands, List.forall_mem_singleton]
    exact ImageOperand.writes_iff _ _ _ ht.laid ht.valid ht.pos
  | fillImage target region =>
    have ht := hacc target (List.mem_singleton_self _)
    rw [operands, List.forall_mem_singleton]
    exact ImageOperand.fills_iff ht.laid ht.valid ht.pos ht.elementSize_mem

/-- An image of four rows of four bytes, at the address 4096. -/
def fourByFour (origin : Fin 3 → SizeT) : ImageOperand where
  image := { type := .image2D, format := ⟨.r, .unsignedInt8⟩, desc := { width := 4, height := 4, rowPitch := 4 },
             buf := none, size := 16 }
  base := 4096
  origin

theorem fourByFour_accepted {origin region : Fin 3 → SizeT}
    (hv : isValidImgRegion (fourByFour origin).image origin region = none) (hpos : ∀ d, region d ≠ 0) :
    (fourByFour origin).Accepted region where
  image := ⟨1, some ⟨some .r, some .unsignedInt8⟩, some { imageType := some .image2D, imageWidth := 4, imageHeight := 4 },
    by rfl⟩
  valid := hv
  pos := hpos

theorem bytes_inside_iff_fourByFour :
    (readImage 0 (fourByFour ![1, 1, 0]) ![2, 2, 1] (2, 4)).Inside ↔ (fourByFour ![1, 1, 0]).Fits ![2, 2, 1] := by
  have h := bytes_inside_iff (readImage 0 (fourByFour ![1, 1, 0]) ![2, 2, 1] (2, 4))
    (List.forall_mem_singleton.2 (fourByFour_accepted (by decide) (by decide)))
    (List.forall_mem_singleton.2 (List.forall_mem_singleton.2 rfl))
  rwa [operands, List.forall_mem_singleton] at h

/-- The sum of the first coordinate with the region wraps around: the row begins a byte before the image. -/
theorem byte_before_image :
    (fourByFour ![-1, 0, 0]).Accepted ![2, 1, 1] ∧
      ¬ (readImage 0 (fourByFour ![-1, 0, 0]) ![2, 1, 1] (2, 2)).Inside := by
  refine ⟨fourByFour_accepted (by decide) (by decide), fun h => ?_⟩
  have hc : ⟨0, 4095, 2⟩ ∈ (readImage 0 (fourByFour ![-1, 0, 0]) ![2, 1, 1] (2, 2)).execute := by decide
  have hbyte := (h _ hc 0 (by decide)).1
  revert hbyte
  decide

end ImageCommand

end OpenCRun
