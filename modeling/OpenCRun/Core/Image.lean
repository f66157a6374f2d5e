import Mathlib.Tactic.Ring
import OpenCRun.Core.MemMapping
import OpenCRun.Core.MemoryObjectBuilder
/-!
# Images

`Image` of `MemoryObject.h`, and `MemoryObjectBuilder::setImage`, which decides
what an image is from the caller's format and descriptor. The constants of the
interface that an enumeration does not have are `none`.
-/
namespace OpenCRun

/-! ## Formats -/

inductive ChannelOrder where
  | r | a | rg | ra | rgb | rgba | bgra | argb | intensity | luminance | rx | rgx | rgbx
  deriving DecidableEq, Repr

inductive ChannelDataType where
  | snormInt8 | snormInt16 | unormInt8 | unormInt16 | unormShort565 | unormShort555 | unormInt101010
  | signedInt8 | signedInt16 | signedInt32 | unsignedInt8 | unsignedInt16 | unsignedInt32 | halfFloat | float
  deriving DecidableEq, Repr

/-- `cl_image_format`, of constants that are known. -/
structure ImageFormat where
  order : ChannelOrder
  dataType : ChannelDataType
  deriving DecidableEq, Repr

def computeImageNumChannels : ChannelOrder → Nat
  | .r | .a | .rx | .intensity | .luminance => 1
  | .rg | .ra | .rgx => 2
  | .rgb | .rgbx => 3
  | .rgba | .bgra | .argb => 4

def computeImageChannelSizeInBytes : ChannelDataType → Nat
  | .signedInt8 | .unsignedInt8 | .snormInt8 | .unormInt8 => 1
  | .signedInt16 | .unsignedInt16 | .snormInt16 | .unormInt16 | .unormShort565 | .unormShort555 | .halfFloat => 2
  | .signedInt32 | .unsignedInt32 | .unormInt101010 | .float => 4

def isPackedChannelType : ChannelDataType → Bool
  | .unormShort565 | .unormShort555 | .unormInt101010 => true
  | _ => false

def ImageFormat.elementSize (fmt : ImageFormat) : Nat :=
  if isPackedChannelType fmt.dataType then computeImageChannelSizeInBytes fmt.dataType
  else computeImageChannelSizeInBytes fmt.dataType * computeImageNumChannels fmt.order

theorem ImageFormat.elementSize_bounds (fmt : ImageFormat) : 0 < fmt.elementSize ∧ fmt.elementSize ≤ 16 := by
  obtain ⟨order, dataType⟩ := fmt
  cases order <;> cases dataType <;> decide

/-- The channel orders that `setImage` restricts to some of the data types. -/
def isValidFormat (fmt : ImageFormat) : Bool :=
  match fmt.order with
  | .rgb | .rgbx => fmt.dataType ∈ [.unormShort565, .unormShort555, .unormInt101010]
  | .argb | .bgra => fmt.dataType ∈ [.unormInt8, .snormInt8, .signedInt8, .unsignedInt8]
  | .intensity | .luminance =>
    fmt.dataType ∈ [.unormInt8, .unormInt16, .snormInt8, .snormInt16, .halfFloat, .float]
  | _ => true

/-- What they leave are sizes of one type of the device. -/
theorem ImageFormat.elementSize_mem {fmt : ImageFormat} (h : isValidFormat fmt = true) :
    fmt.elementSize ∈ [1, 2, 4, 8, 16] := by
  obtain ⟨order, dataType⟩ := fmt
  revert h
  cases order <;> cases dataType <;> decide

/-! ## Devices -/

/-- What a device says of images, and of sub-buffers. -/
structure DeviceInfo where
  supportedImageFormats : List ImageFormat
  hasImageSupport : Bool
  image2DMaxWidth : SizeT
  image2DMaxHeight : SizeT
  image3DMaxWidth : SizeT
  image3DMaxHeight : SizeT
  image3DMaxDepth : SizeT
  imageMaxBufferSize : SizeT
  imageMaxArraySize : SizeT
  memoryBaseAddressAlignment : Nat

def DeviceInfo.isImageFormatSupported (d : DeviceInfo) (fmt : ImageFormat) : Bool := fmt ∈ d.supportedImageFormats

namespace CPUDevice

def imgFmts : List ImageFormat :=
  let all := [.snormInt8, .snormInt16, .unormInt8, .unormInt16, .signedInt8, .signedInt16, .signedInt32, .unsignedInt8,
    .unsignedInt16, .unsignedInt32, .halfFloat, .float]
  let bytes := [.snormInt8, .unormInt8, .signedInt8, .unsignedInt8]
  let normalized := [.snormInt8, .snormInt16, .unormInt8, .unormInt16, .halfFloat, .float]
  [(.r, all), (.a, all), (.rg, all), (.rgba, all), (.argb, bytes), (.bgra, bytes), (.luminance, normalized),
    (.intensity, normalized), (.ra, all)].flatMap fun (order, dataTypes) => dataTypes.map (⟨order, ·⟩)

/-- `CPUDevice::InitDeviceInfo`. -/
def info : DeviceInfo where
  supportedImageFormats := imgFmts
  hasImageSupport := true
  image2DMaxWidth := 8192
  image2DMaxHeight := 8192
  image3DMaxWidth := 2048
  image3DMaxHeight := 2048
  image3DMaxDepth := 2048
  imageMaxBufferSize := 65536
  imageMaxArraySize := 2048
  memoryBaseAddressAlignment := 128 * 8

end CPUDevice

/-! ## `setImage` -/

/-- The smallest of what the devices allow. -/
structure ImageLimits where
  mmImg2DWidth : SizeT := BitVec.allOnes 64
  mmImg2DHeight : SizeT := BitVec.allOnes 64
  mmImg3DWidth : SizeT := BitVec.allOnes 64
  mmImg3DHeight : SizeT := BitVec.allOnes 64
  mmImg3DDepth : SizeT := BitVec.allOnes 64
  mmImgBufSize : SizeT := BitVec.allOnes 64
  mmImgArraySize : SizeT := BitVec.allOnes 64

/-- `std::min`. -/
def minSize (a b : SizeT) : SizeT := if b < a then b else a

/-- The depth is limited by the height that a device allows. -/
def ImageLimits.restrict (l : ImageLimits) (d : DeviceInfo) : ImageLimits where
  mmImg2DWidth := minSize d.image2DMaxWidth l.mmImg2DWidth
  mmImg2DHeight := minSize d.image2DMaxHeight l.mmImg2DHeight
  mmImg3DWidth := minSize d.image3DMaxWidth l.mmImg3DWidth
  mmImg3DHeight := minSize d.image3DMaxHeight l.mmImg3DHeight
  mmImg3DDepth := minSize d.image3DMaxHeight l.mmImg3DDepth
  mmImgBufSize := minSize d.imageMaxBufferSize l.mmImgBufSize
  mmImgArraySize := minSize d.imageMaxArraySize l.mmImgArraySize

/-- Of the devices that support the format, if there are any. -/
def imageLimits (devices : List DeviceInfo) (fmt : ImageFormat) : Option ImageLimits :=
  match devices.filter (·.isImageFormatSupported fmt) with
  | [] => none
  | supporting => some (supporting.foldl ImageLimits.restrict {})

/-- `cl_image_format`, as a caller gives it. -/
structure CLImageFormat where
  imageChannelOrder : Option ChannelOrder
  imageChannelDataType : Option ChannelDataType

/-- `cl_image_desc`. -/
structure CLImageDesc where
  imageType : Option ImageType
  imageWidth : SizeT := 0
  imageHeight : SizeT := 0
  imageDepth : SizeT := 0
  imageArraySize : SizeT := 0
  imageRowPitch : SizeT := 0
  imageSlicePitch : SizeT := 0
  numMipLevels : Nat := 0
  numSamples : Nat := 0
  buffer : Option Buffer := none

/-- `Image::Descriptor`; the builder sets it to zero first. -/
structure ImageDescriptor where
  width : SizeT := 0
  height : SizeT := 0
  depth : SizeT := 0
  arraySize : SizeT := 0
  rowPitch : SizeT := 0
  slicePitch : SizeT := 0
  deriving DecidableEq, Repr

/-- What an image is made of. -/
structure Image where
  type : ImageType
  format : ImageFormat
  desc : ImageDescriptor
  buf : Option Buffer
  size : SizeT
  deriving DecidableEq

namespace Image

def getWidth (img : Image) : SizeT := img.desc.width
def getHeight (img : Image) : SizeT := img.desc.height
def getDepth (img : Image) : SizeT := img.desc.depth
def getArraySize (img : Image) : SizeT := img.desc.arraySize
def getRowPitch (img : Image) : SizeT := img.desc.rowPitch
def getSlicePitch (img : Image) : SizeT := img.desc.slicePitch
def getElementSize (img : Image) : SizeT := BitVec.ofNat 64 img.format.elementSize

end Image

namespace MemoryObjectBuilder

/-- An error of `setImage`, with what it leaves in the builder. -/
structure ImageError where
  code : MemoryErrCode
  msg : String
  params : ImageParams := {}

/-- `return error(…)`. -/
def errorIf (c : Bool) (code : MemoryErrCode) (msg : String) (params : ImageParams := {}) : Except ImageError Unit :=
  if c then .error { code, msg, params } else .ok ()

def checkFormat (fmt : Option CLImageFormat) : Except ImageError ImageFormat :=
  match fmt with
  | none => .error { code := .invalidImageFormatDescriptor, msg := "image format is null" }
  | some ⟨none, _⟩ => .error { code := .invalidImageFormatDescriptor, msg := "invalid image channel order" }
  | some ⟨some _, none⟩ => .error { code := .invalidImageFormatDescriptor, msg := "invalid image channel data type" }
  | some ⟨some order, some dataType⟩ => do
    errorIf (!isValidFormat ⟨order, dataType⟩) .invalidImageFormatDescriptor "invalid image channel order-data type pair"
    pure ⟨order, dataType⟩

/-- An array image has the array size of its descriptor, another one has zero. -/
def checkArraySize (isArray : Bool) (lim : ImageLimits) (d : CLImageDesc) : Except ImageError SizeT := do
  errorIf (isArray && d.imageArraySize == 0) .invalidImageDescriptor "image array size is zero"
  errorIf (isArray && decide (d.imageArraySize ≥ lim.mmImgArraySize)) .invalidImageDescriptor "invalid image array size"
  pure (if isArray then d.imageArraySize else 0)

/-- The cases of a switch: what sizes an image may have. -/
def checkSizes (lim : ImageLimits) (elementSize : SizeT) (type : ImageType) (d : CLImageDesc) :
    Except ImageError ImageDescriptor :=
  match type with
  | .image1D | .image1DBuffer | .image1DArray => do
    errorIf (d.imageWidth == 0) .invalidImageDescriptor "image width is zero"
    errorIf (d.imageWidth ≥ lim.mmImgBufSize / elementSize) .invalidImageSize "image width bigger than image buffer size"
    errorIf (type == .image1DBuffer && d.buffer.isNone) .invalidImageDescriptor "buffer object is null"
    errorIf (type != .image1DBuffer && d.buffer.isSome) .invalidImageDescriptor "buffer object is not null"
    let arraySize ← checkArraySize (type == .image1DArray) lim d
    pure { width := d.imageWidth, arraySize }
  | .image2D | .image2DArray => do
    errorIf (d.imageWidth == 0) .invalidImageDescriptor "image width is zero"
    errorIf (d.imageWidth ≥ lim.mmImg2DWidth) .invalidImageSize "image width bigger than image buffer size"
    errorIf (d.imageHeight == 0) .invalidImageDescriptor "image height is zero"
    errorIf (d.imageHeight ≥ lim.mmImg2DHeight) .invalidImageSize "image height bigger than image buffer size"
    errorIf d.buffer.isSome .invalidImageDescriptor "buffer object is not null"
    let arraySize ← checkArraySize (type == .image2DArray) lim d
    pure { width := d.imageWidth, height := d.imageHeight, arraySize }
  | .image3D => do
    errorIf (d.imageWidth == 0) .invalidImageDescriptor "image width is zero"
    errorIf (d.imageWidth ≥ lim.mmImg3DWidth) .invalidImageSize "invalid image width"
    errorIf (d.imageHeight == 0) .invalidImageDescriptor "image height is zero"
    errorIf (d.imageHeight ≥ lim.mmImg3DHeight) .invalidImageSize "invalid image height"
    errorIf (d.imageDepth == 0) .invalidImageDescriptor "image depth is zero"
    errorIf (d.imageDepth ≥ lim.mmImg3DDepth) .invalidImageSize "invalid image depth"
    errorIf d.buffer.isSome .invalidImageDescriptor "buffer object is not null"
    pure { width := d.imageWidth, height := d.imageHeight, depth := d.imageDepth }

/-- `RequiresSlicePitch`. -/
def requiresSlicePitch (type : ImageType) : Bool := type ∈ [.image1DArray, .image2DArray, .image3D]

/-- The pitches; with a host pointer they may be given. The image's type is known by now. -/
def setPitches (hostPtr : Option Nat) (elementSize : SizeT) (type : ImageType) (d : CLImageDesc)
    (desc : ImageDescriptor) : Except ImageError ImageDescriptor :=
  let params : ImageParams := { type := some type, buf := d.buffer }
  let minRowPitch := desc.width * elementSize
  if hostPtr.isNone then do
    errorIf (d.imageRowPitch != 0) .invalidImageDescriptor "host-ptr is null but row pitch is not zero" params
    errorIf (requiresSlicePitch type && d.imageSlicePitch != 0) .invalidImageDescriptor
      "host-ptr is null but slice pitch is not zero" params
    let slicePitch := if requiresSlicePitch type then minRowPitch * desc.height else 0
    pure { desc with rowPitch := minRowPitch, slicePitch }
  else do
    let rowPitch := if d.imageRowPitch != 0 then d.imageRowPitch else minRowPitch
    errorIf (decide (rowPitch < minRowPitch) || rowPitch % elementSize != 0) .invalidImageDescriptor
      "invalid row pitch value" params
    let minSlicePitch := rowPitch * desc.height
    let slicePitch := if d.imageSlicePitch != 0 then d.imageSlicePitch else minSlicePitch
    errorIf (requiresSlicePitch type && (decide (slicePitch < minSlicePitch) || slicePitch % rowPitch != 0))
      .invalidImageDescriptor "invalid row pitch value" params
    pure { desc with rowPitch, slicePitch := if requiresSlicePitch type then slicePitch else 0 }

/-- `Img.Size`. -/
def imageSize (type : ImageType) (desc : ImageDescriptor) : SizeT :=
  match type with
  | .image1D | .image1DBuffer => desc.rowPitch
  | .image1DArray => desc.rowPitch * desc.arraySize
  | .image2D => desc.rowPitch * desc.height
  | .image2DArray => desc.rowPitch * desc.slicePitch * desc.arraySize
  | .image3D => desc.rowPitch * desc.slicePitch * desc.depth

/-- `setImage`, with the pointer that the builder has at that time. -/
def computeImage (hostPtr : Option Nat) (devices : List DeviceInfo) (fmt : Option CLImageFormat)
    (desc : Option CLImageDesc) : Except ImageError Image := do
  let format ← checkFormat fmt
  match desc with
  | none => .error { code := .invalidImageDescriptor, msg := "image descriptor is null" }
  | some d => do
    errorIf (d.numMipLevels != 0) .invalidImageDescriptor "non zero mip levels"
    errorIf (d.numSamples != 0) .invalidImageDescriptor "non zero samples"
    match imageLimits devices format with
    | none => .error { code := .imageFormatNotSupported, msg := "specified image format unsupported" }
    | some lim =>
      let elementSize := BitVec.ofNat 64 format.elementSize
      match d.imageType with
      | none => .error { code := .invalidImageDescriptor, msg := "invalid image type" }
      | some type => do
        let sizes ← checkSizes lim elementSize type d
        let desc ← setPitches hostPtr elementSize type d sizes
        pure { type, format, desc, buf := d.buffer, size := imageSize type desc }

end MemoryObjectBuilder

/-! ## The images of CPU devices -/

/-- The devices of a context: all that the platform has are CPU devices. -/
def contextDevices (n : Nat) : List DeviceInfo := List.replicate n CPUDevice.info

theorem minSize_idem (a b : SizeT) : minSize a (minSize a b) = minSize a b := by
  unfold minSize
  split <;> simp_all

theorem ImageLimits.restrict_idem (l : ImageLimits) (d : DeviceInfo) : (l.restrict d).restrict d = l.restrict d := by
  simp [restrict, minSize_idem]

/-- Several devices allow what one of them does. -/
theorem foldl_restrict_replicate (l : ImageLimits) (d : DeviceInfo) (n : Nat) :
    (List.replicate (n + 1) d).foldl ImageLimits.restrict l = l.restrict d := by
  induction n generalizing l with
  | zero => rfl
  | succ n ih => rw [List.replicate_succ, List.foldl_cons, ih, l.restrict_idem]

def cpuLimits : ImageLimits := ImageLimits.restrict {} CPUDevice.info

theorem cpuLimits_eq : cpuLimits = ⟨8192#64, 8192#64, 2048#64, 2048#64, 2048#64, 65536#64, 2048#64⟩ := rfl

theorem imageLimits_contextDevices {n : Nat} {fmt : ImageFormat} {lim : ImageLimits}
    (h : imageLimits (contextDevices n) fmt = some lim) : lim = cpuLimits := by
  rw [imageLimits, contextDevices, List.filter_replicate] at h
  split at h
  · cases h
  · cases n with
    | zero => simp at *
    | succ n =>
      by_cases hsup : CPUDevice.info.isImageFormatSupported fmt = true
      · rw [if_pos hsup, foldl_restrict_replicate] at h
        exact (Option.some.inj h).symm
      · simp [hsup] at *

namespace Image

/-- How far an image goes in each coordinate: the width, and what its type makes of the other two. -/
def extent (img : Image) : Fin 3 → Nat
  | 0 => img.getWidth.toNat
  | 1 =>
    match img.type with
    | .image1D | .image1DBuffer => 1
    | .image1DArray => img.getArraySize.toNat
    | .image2D | .image2DArray | .image3D => img.getHeight.toNat
  | 2 =>
    match img.type with
    | .image2DArray => img.getArraySize.toNat
    | .image3D => img.getDepth.toNat
    | _ => 1

/-- The pitches of an image and its size, over the natural numbers. -/
structure Laid (img : Image) : Prop where
  /-- No other image is over a buffer. -/
  buf : img.buf.isSome = true → img.type = .image1DBuffer
  rowPitch : img.getRowPitch.toNat = img.getWidth.toNat * img.format.elementSize
  /-- All rows and slices are in the storage. -/
  fits : img.extent 1 * img.getRowPitch.toNat + (img.extent 2 - 1) * img.getSlicePitch.toNat ≤ img.size.toNat
  /-- A row or slice below the storage does not come out in it. -/
  small : img.size.toNat + img.getRowPitch.toNat + img.getSlicePitch.toNat < 2 ^ 64

end Image

namespace MemoryObjectBuilder

theorem errorIf_bind_ok {α : Type} {c : Bool} {code : MemoryErrCode} {msg : String} {params : ImageParams}
    {f : Unit → Except ImageError α} {r : α} :
    (errorIf c code msg params >>= f) = .ok r ↔ c = false ∧ f () = .ok r := by
  cases c <;> simp [errorIf, bind, Except.bind]

theorem bind_ok {α β : Type} {x : Except ImageError α} {f : α → Except ImageError β} {r : β} :
    (x >>= f) = .ok r ↔ ∃ a, x = .ok a ∧ f a = .ok r := by
  cases x <;> simp [bind, Except.bind]

/-- What a CPU device allows: the width in bytes, and the other sizes. -/
structure Allowed (elementSize : Nat) (type : ImageType) (desc : ImageDescriptor) : Prop where
  width_pos : 0 < desc.width.toNat
  width : desc.width.toNat * elementSize < 2 ^ 17
  height : desc.height.toNat < 2 ^ 13
  depth : desc.depth.toNat < 2 ^ 11
  arraySize : desc.arraySize.toNat < 2 ^ 11
  slices_pos : (type = .image2DArray → 0 < desc.arraySize.toNat) ∧ (type = .image3D → 0 < desc.depth.toNat)

theorem pos_of_beq_zero {a : SizeT} (h : (a == 0) = false) : 0 < a.toNat := by
  simp only [beq_eq_false_iff_ne, ne_eq, ← BitVec.toNat_inj] at h
  exact Nat.pos_of_ne_zero h

theorem lt_of_decide_ge {a b : SizeT} (h : decide (a ≥ b) = false) : a.toNat < b.toNat := by
  simp only [decide_eq_false_iff_not, ge_iff_le, BitVec.le_def] at h
  exact not_le.1 h

theorem checkArraySize_ok {isArray : Bool} {d : CLImageDesc} {arraySize : SizeT}
    (h : checkArraySize isArray cpuLimits d = .ok arraySize) :
    arraySize.toNat < 2 ^ 11 ∧ (isArray = true → 0 < arraySize.toNat) := by
  simp only [checkArraySize, errorIf_bind_ok] at h
  obtain ⟨hzero, hmax, heq⟩ := h
  cases heq
  cases isArray with
  | false => simp
  | true => exact ⟨lt_of_decide_ge (b := 2048#64) hmax, fun _ => pos_of_beq_zero hzero⟩

/-- The images of one dimension, whose width in bytes is limited. -/
theorem checkSizes_ok_1D {elementSize : Nat} (hle : elementSize ≤ 16) {type : ImageType}
    (ht : type = .image1D ∨ type = .image1DBuffer ∨ type = .image1DArray) {d : CLImageDesc} {desc : ImageDescriptor}
    (h : checkSizes cpuLimits (BitVec.ofNat 64 elementSize) type d = .ok desc) : Allowed elementSize type desc := by
  have hparts : (d.imageWidth == 0) = false ∧
      decide (d.imageWidth ≥ cpuLimits.mmImgBufSize / BitVec.ofNat 64 elementSize) = false ∧
      ∃ arraySize, checkArraySize (type == .image1DArray) cpuLimits d = .ok arraySize ∧
        { width := d.imageWidth, arraySize } = desc := by
    rcases ht with rfl | rfl | rfl
    all_goals
      simp only [checkSizes, errorIf_bind_ok] at h
      rw [bind_ok] at h
      obtain ⟨hzero, hmax, -, -, arraySize, harray, heq⟩ := h
      exact ⟨hzero, hmax, arraySize, harray, Except.ok.inj heq⟩
  obtain ⟨hzero, hmax, arraySize, harray, rfl⟩ := hparts
  refine ⟨pos_of_beq_zero hzero, ?_, Nat.two_pow_pos _, Nat.two_pow_pos _, (checkArraySize_ok harray).1, ?_⟩
  · have hwidth : d.imageWidth.toNat < 65536 / elementSize := by
      have hlt := lt_of_decide_ge hmax
      rwa [cpuLimits_eq, BitVec.toNat_udiv, BitVec.toNat_ofNat, BitVec.toNat_ofNat,
        Nat.mod_eq_of_lt (show elementSize < 2 ^ 64 by omega)] at hlt
    calc d.imageWidth.toNat * elementSize ≤ 65536 / elementSize * elementSize := Nat.mul_le_mul_right _ hwidth.le
      _ ≤ 65536 := Nat.div_mul_le_self _ _
      _ < 2 ^ 17 := by decide
  · rcases ht with rfl | rfl | rfl <;> simp

/-- The images of a width and a height. -/
theorem checkSizes_ok_2D {elementSize : Nat} (hle : elementSize ≤ 16) {type : ImageType}
    (ht : type = .image2D ∨ type = .image2DArray) {d : CLImageDesc} {desc : ImageDescriptor}
    (h : checkSizes cpuLimits (BitVec.ofNat 64 elementSize) type d = .ok desc) : Allowed elementSize type desc := by
  have hparts : (d.imageWidth == 0) = false ∧ decide (d.imageWidth ≥ cpuLimits.mmImg2DWidth) = false ∧
      decide (d.imageHeight ≥ cpuLimits.mmImg2DHeight) = false ∧
      ∃ arraySize, checkArraySize (type == .image2DArray) cpuLimits d = .ok arraySize ∧
        { width := d.imageWidth, height := d.imageHeight, arraySize } = desc := by
    rcases ht with rfl | rfl
    all_goals
      simp only [checkSizes, errorIf_bind_ok] at h
      rw [bind_ok] at h
      obtain ⟨hzero, hmax, -, hheight, -, arraySize, harray, heq⟩ := h
      exact ⟨hzero, hmax, hheight, arraySize, harray, Except.ok.inj heq⟩
  obtain ⟨hzero, hmax, hheight, arraySize, harray, rfl⟩ := hparts
  have hwidth : d.imageWidth.toNat < 2 ^ 13 := lt_of_decide_ge (b := 8192#64) hmax
  have hbytes : d.imageWidth.toNat * elementSize < 2 ^ 13 * 16 := Nat.mul_lt_mul_of_lt_of_le hwidth hle (by decide)
  refine ⟨pos_of_beq_zero hzero, hbytes, lt_of_decide_ge (b := 8192#64) hheight, Nat.two_pow_pos _,
    (checkArraySize_ok harray).1, fun ht => ?_, ?_⟩
  · exact (checkArraySize_ok harray).2 (beq_iff_eq.2 ht)
  · rcases ht with rfl | rfl <;> simp

theorem checkSizes_ok_3D {elementSize : Nat} (hle : elementSize ≤ 16) {d : CLImageDesc} {desc : ImageDescriptor}
    (h : checkSizes cpuLimits (BitVec.ofNat 64 elementSize) .image3D d = .ok desc) :
    Allowed elementSize .image3D desc := by
  simp only [checkSizes, errorIf_bind_ok] at h
  obtain ⟨hzero, hmax, -, hheight, hdepth, hmaxDepth, -, heq⟩ := h
  cases heq
  have hwidth : d.imageWidth.toNat < 2 ^ 11 := lt_of_decide_ge (b := 2048#64) hmax
  have hheight : d.imageHeight.toNat < 2 ^ 11 := lt_of_decide_ge (b := 2048#64) hheight
  refine ⟨pos_of_beq_zero hzero, ?_, hheight.trans (by decide), lt_of_decide_ge (b := 2048#64) hmaxDepth,
    Nat.two_pow_pos _, by simp, fun _ => pos_of_beq_zero hdepth⟩
  exact (Nat.mul_lt_mul_of_lt_of_le hwidth hle (by decide)).trans (by decide)

theorem checkSizes_ok {elementSize : Nat} (hle : elementSize ≤ 16) {type : ImageType} {d : CLImageDesc}
    {desc : ImageDescriptor} (h : checkSizes cpuLimits (BitVec.ofNat 64 elementSize) type d = .ok desc) :
    Allowed elementSize type desc := by
  cases type with
  | image1D => exact checkSizes_ok_1D hle (.inl rfl) h
  | image1DBuffer => exact checkSizes_ok_1D hle (.inr (.inl rfl)) h
  | image1DArray => exact checkSizes_ok_1D hle (.inr (.inr rfl)) h
  | image2D => exact checkSizes_ok_2D hle (.inl rfl) h
  | image2DArray => exact checkSizes_ok_2D hle (.inr rfl) h
  | image3D => exact checkSizes_ok_3D hle h

/-- A product of two sizes that has room in the 64 bits. -/
theorem toNat_mul_of_lt {a b : SizeT} {i j : Nat} (ha : a.toNat < 2 ^ i) (hb : b.toNat < 2 ^ j) (h : i + j ≤ 64) :
    (a * b).toNat = a.toNat * b.toNat ∧ (a * b).toNat < 2 ^ (i + j) := by
  have hlt : a.toNat * b.toNat < 2 ^ (i + j) := by
    rw [Nat.pow_add]
    exact Nat.mul_lt_mul_of_lt_of_le ha hb.le (Nat.two_pow_pos j)
  have hmod : (a * b).toNat = a.toNat * b.toNat := by
    rw [BitVec.toNat_mul]
    exact Nat.mod_eq_of_lt (hlt.trans_le (Nat.pow_le_pow_right (by decide) h))
  exact ⟨hmod, hmod.symm ▸ hlt⟩

/-- The descriptor with its pitches, as `setPitches` sets them. -/
def pitched (type : ImageType) (elementSize : SizeT) (sizes : ImageDescriptor) : ImageDescriptor :=
  { sizes with
    rowPitch := sizes.width * elementSize
    slicePitch := if requiresSlicePitch type then sizes.width * elementSize * sizes.height else 0 }

theorem setPitches_ok {elementSize : SizeT} {type : ImageType} {d : CLImageDesc} {sizes desc : ImageDescriptor}
    (h : setPitches none elementSize type d sizes = .ok desc) : desc = pitched type elementSize sizes := by
  simp only [setPitches, Option.isNone_none, if_true, errorIf_bind_ok] at h
  obtain ⟨-, -, heq⟩ := h
  exact (Except.ok.inj heq).symm

/-- The slices of an image, each of them `h` rows, take no more than the size that is computed. -/
theorem sliced_fits {rp h n : SizeT} (hrp : rp.toNat < 2 ^ 17) (hpos : 0 < rp.toNat) (hh : h.toNat < 2 ^ 13)
    (hn : 0 < n.toNat) (hlt : n.toNat < 2 ^ 11) :
    h.toNat * rp.toNat + (n.toNat - 1) * (rp * h).toNat ≤ (rp * (rp * h) * n).toNat ∧
      (rp * (rp * h) * n).toNat < 2 ^ 58 := by
  obtain ⟨hslice, hslicelt⟩ := toNat_mul_of_lt hrp hh (by decide)
  obtain ⟨hrs, hrslt⟩ := toNat_mul_of_lt hrp hslicelt (by decide)
  obtain ⟨hsize, hsizelt⟩ := toNat_mul_of_lt hrslt hlt (by decide)
  refine ⟨?_, hsizelt⟩
  have hsum : h.toNat * rp.toNat + (n.toNat - 1) * (rp.toNat * h.toNat) = n.toNat * (rp.toNat * h.toNat) := by
    obtain ⟨m, hm⟩ : ∃ m, n.toNat = m + 1 := Nat.exists_eq_add_of_le' hn
    rw [hm, Nat.add_sub_cancel]
    ring
  have hcomm : rp.toNat * (rp.toNat * h.toNat) * n.toNat = rp.toNat * (n.toNat * (rp.toNat * h.toNat)) := by ring
  rw [hsize, hrs, hslice, hsum, hcomm]
  exact Nat.le_mul_of_pos_left _ hpos

theorem checkSizes_buf {lim : ImageLimits} {elementSize : SizeT} {type : ImageType} {d : CLImageDesc}
    {desc : ImageDescriptor} (h : checkSizes lim elementSize type d = .ok desc) (hbuf : d.buffer.isSome = true) :
    type = .image1DBuffer := by
  cases type with
  | image1DBuffer => rfl
  | _ =>
    simp only [checkSizes, errorIf_bind_ok, hbuf] at h
    simp at h

theorem laid_of_allowed {format : ImageFormat} {type : ImageType} {sizes : ImageDescriptor} {buf : Option Buffer}
    (hbuf : buf.isSome = true → type = .image1DBuffer) (h : Allowed format.elementSize type sizes) :
    (Image.mk type format (pitched type (BitVec.ofNat 64 format.elementSize) sizes) buf
      (imageSize type (pitched type (BitVec.ofNat 64 format.elementSize) sizes))).Laid := by
  obtain ⟨hes, hes16⟩ := format.elementSize_bounds
  obtain ⟨hpos, hwidth, hheight, hdepth, harray, hslices⟩ := h
  -- The limits of the devices keep every product below 64 bits.
  have hrow : (sizes.width * BitVec.ofNat 64 format.elementSize).toNat = sizes.width.toNat * format.elementSize := by
    rw [BitVec.toNat_mul, BitVec.toNat_ofNat, Nat.mod_eq_of_lt (show format.elementSize < 2 ^ 64 by omega),
      Nat.mod_eq_of_lt (by omega)]
  have hrowpos : 0 < sizes.width.toNat * format.elementSize := Nat.mul_pos hpos hes
  rw [← hrow] at hwidth hrowpos
  have hslice := toNat_mul_of_lt hwidth hheight (by decide)
  have harrays := toNat_mul_of_lt hwidth harray (by decide)
  refine ⟨hbuf, ?rowPitch, ?fits, ?small⟩ <;>
    simp only [pitched, Image.extent, Image.getRowPitch, Image.getSlicePitch, Image.getWidth, Image.getHeight,
      Image.getArraySize, Image.getDepth]
  case rowPitch => exact hrow
  all_goals generalize sizes.width * BitVec.ofNat 64 format.elementSize = rp at hwidth hrowpos hslice harrays
  case fits =>
    cases type with
    | image1D | image1DBuffer => simp [imageSize]
    | image1DArray => simp [imageSize, harrays.1, Nat.mul_comm]
    | image2D => simp [imageSize, hslice.1, Nat.mul_comm]
    | image2DArray =>
      simpa [imageSize, requiresSlicePitch] using (sliced_fits hwidth hrowpos hheight (hslices.1 rfl) harray).1
    | image3D =>
      simpa [imageSize, requiresSlicePitch] using (sliced_fits hwidth hrowpos hheight (hslices.2 rfl) hdepth).1
  case small =>
    have hpitch : (if requiresSlicePitch type = true then rp * sizes.height else 0).toNat < 2 ^ 30 := by
      split
      · exact hslice.2
      · decide
    have hsize : (imageSize type { sizes with
        rowPitch := rp
        slicePitch := if requiresSlicePitch type then rp * sizes.height else 0 }).toNat < 2 ^ 58 := by
      cases type with
      | image1D | image1DBuffer => exact hwidth.trans (by decide)
      | image1DArray => exact harrays.2.trans (by decide)
      | image2D => exact hslice.2.trans (by decide)
      | image2DArray => exact (sliced_fits hwidth hrowpos hheight (hslices.1 rfl) harray).2
      | image3D => exact (sliced_fits hwidth hrowpos hheight (hslices.2 rfl) hdepth).2
    omega

theorem checkFormat_ok {fmt : Option CLImageFormat} {format : ImageFormat} (h : checkFormat fmt = .ok format) :
    isValidFormat format = true := by
  unfold checkFormat at h
  split at h
  · cases h
  · cases h
  · cases h
  · rw [errorIf_bind_ok, Bool.not_eq_false'] at h
    obtain ⟨hvalid, heq⟩ := h
    cases heq
    exact hvalid

/-- The checks that an accepted image has passed. -/
theorem computeImage_ok {hostPtr : Option Nat} {devices : List DeviceInfo} {fmt : Option CLImageFormat}
    {desc : Option CLImageDesc} {img : Image} (h : computeImage hostPtr devices fmt desc = .ok img) :
    isValidFormat img.format = true ∧ ∃ d lim sizes, imageLimits devices img.format = some lim ∧
      checkSizes lim (BitVec.ofNat 64 img.format.elementSize) img.type d = .ok sizes ∧
      setPitches hostPtr (BitVec.ofNat 64 img.format.elementSize) img.type d sizes = .ok img.desc ∧
      img.buf = d.buffer ∧ img.size = imageSize img.type img.desc := by
  unfold computeImage at h
  rw [bind_ok] at h
  obtain ⟨format, hformat, h⟩ := h
  cases desc with
  | none => cases h
  | some d =>
    simp only [errorIf_bind_ok] at h
    obtain ⟨-, -, h⟩ := h
    cases hlim : imageLimits devices format with
    | none => simp [hlim] at h
    | some lim =>
      cases htype : d.imageType with
      | none => simp [hlim, htype] at h
      | some type =>
        simp only [hlim, htype] at h
        obtain ⟨sizes, hsizes, h⟩ := bind_ok.1 h
        obtain ⟨desc, hdesc, h⟩ := bind_ok.1 h
        cases h
        exact ⟨checkFormat_ok hformat, d, lim, sizes, hlim, hsizes, hdesc, rfl, rfl⟩

/-- The images that are accepted for CPU devices; there is no host pointer yet. -/
theorem computeImage_laid {n : Nat} {fmt : Option CLImageFormat} {desc : Option CLImageDesc} {img : Image}
    (h : computeImage none (contextDevices n) fmt desc = .ok img) : img.Laid := by
  obtain ⟨-, d, lim, sizes, hlim, hsizes, hdesc, hbuf, hsize⟩ := computeImage_ok h
  cases imageLimits_contextDevices hlim
  obtain ⟨type, format, desc, buf, size⟩ := img
  simp only at hsizes hdesc hbuf hsize
  rw [hsize, setPitches_ok hdesc, hbuf]
  exact laid_of_allowed (checkSizes_buf hsizes) (checkSizes_ok format.elementSize_bounds.2 hsizes)

end MemoryObjectBuilder

end OpenCRun
