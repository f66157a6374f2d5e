import OpenCRun.Core.ImageCommands
import OpenCRun.Lib.Bytes
/-!
# Pixels of images on the device

The header of an image that `CPUImageDescriptor` makes, and how the library of
kernels reads and writes a pixel by it. The header has fields of 32 bits. What
floats are made of the stored numbers, and the other way round, is left open.
-/
open Lib Lib.Bytes

namespace OpenCRun.ImageAccess

/-- `int4`, `uint4` and `float4`. -/
structure Vec4 (V : Type) where
  x : V
  y : V
  z : V
  w : V
  deriving DecidableEq, Repr

/-! ## The header -/

/-- `device_image_t`, which is `cpu_image_t` on the host. -/
structure DeviceImage where
  imageChannelOrder : ChannelOrder
  imageChannelDataType : ChannelDataType
  numChannels : BitVec 32
  elementSize : BitVec 32
  width : BitVec 32
  height : BitVec 32
  depth : BitVec 32
  rowPitch : BitVec 32
  slicePitch : BitVec 32
  arraySize : BitVec 32
  numMipLevels : BitVec 32
  numSamples : BitVec 32
  data : SizeT
  deriving DecidableEq, Repr

def fixup (x : SizeT) : SizeT := if x = 0 then 1 else x

/-- The header that `CPUImageDescriptor::allocate` makes. -/
def header (img : Image) (ptr : SizeT) : DeviceImage where
  imageChannelOrder := img.format.order
  imageChannelDataType := img.format.dataType
  numChannels := BitVec.ofNat 32 (computeImageNumChannels img.format.order)
  elementSize := img.getElementSize.setWidth 32
  width := (fixup img.getWidth).setWidth 32
  height := (fixup img.getHeight).setWidth 32
  depth := (fixup img.getDepth).setWidth 32
  rowPitch := (fixup img.getRowPitch).setWidth 32
  slicePitch := (fixup img.getSlicePitch).setWidth 32
  arraySize := (fixup img.getArraySize).setWidth 32
  numMipLevels := 0
  numSamples := 0
  data := ptr

/-! ## Channels -/

/-- How a number of a channel is read and written. -/
structure Channel (V : Type) where
  size : Nat
  decode : Nat → V
  encode : V → Nat
  encode_lt : ∀ v, encode v < 256 ^ size

/-- The values of a kind of read: its constants, and the data types that its switch knows. -/
structure PixelType (V : Type) where
  zero : V
  one : V
  channel : ChannelDataType → Option (Channel V)

/-- A conversion with saturation to a signed integer. -/
def convertSat (size : Nat) (v : Int) : Nat :=
  ((max (-(128 * 256 ^ (size - 1))) (min (128 * 256 ^ (size - 1) - 1) v)) % 256 ^ size).toNat

def signedChannel (size : Nat) (encode : Int → Nat) (h : ∀ v, encode v < 256 ^ size) : Channel Int where
  size := size
  decode n := (BitVec.ofNat (8 * size) n).toInt
  encode := encode
  encode_lt := h

def unsignedChannel (size : Nat) (encode : Nat → Nat) (h : ∀ v, encode v < 256 ^ size) : Channel Nat where
  size := size
  decode n := n
  encode := encode
  encode_lt := h

theorem toNat_emod_lt (v : Int) (size : Nat) : (v % 256 ^ size).toNat < 256 ^ size := by
  have hpos : (0 : Int) < 256 ^ size := Int.pow_pos (by decide)
  rw [Int.toNat_lt (Int.emod_nonneg v hpos.ne'), Nat.cast_pow]
  exact Int.emod_lt_of_pos v hpos

/-- Of `read_pixeli`, and `write_pixel` of an `int4`. -/
def pixelsi : PixelType Int where
  zero := 0
  one := 1
  channel
    | .signedInt8 => some (signedChannel 1 (convertSat 1) fun _ => toNat_emod_lt _ _)
    | .signedInt16 => some (signedChannel 2 (convertSat 2) fun _ => toNat_emod_lt _ _)
    | .signedInt32 => some (signedChannel 4 (fun v => (v % 256 ^ 4).toNat) fun _ => toNat_emod_lt _ _)
    | _ => none

/-- Of `read_pixelui`, and `write_pixel` of a `uint4`. -/
def pixelsui : PixelType Nat where
  zero := 0
  one := 1
  channel
    | .unsignedInt8 => some (unsignedChannel 1 (fun v => min v 255) fun v => by omega)
    | .unsignedInt16 => some (unsignedChannel 2 (fun v => min v 65535) fun v => by omega)
    | .unsignedInt32 => some (unsignedChannel 4 (fun v => v % 2 ^ 32) fun v => by omega)
    | _ => none

/-- Floats, and what they are of the numbers of a data type; some number is not zero. -/
structure FloatOps (F : Type) where
  zero : F
  one : F
  decode : ChannelDataType → Nat → F
  encode : (t : ChannelDataType) → F → Fin (256 ^ computeImageChannelSizeInBytes t)
  ne_zero : ∀ t, ∃ n < 256 ^ computeImageChannelSizeInBytes t, decode t n ≠ zero

namespace FloatOps

variable {F : Type} (ops : FloatOps F)

def channelOf (t : ChannelDataType) : Channel F where
  size := computeImageChannelSizeInBytes t
  decode := ops.decode t
  encode v := (ops.encode t v).val
  encode_lt v := (ops.encode t v).isLt

/-- Of `read_pixelf`, and `write_pixel` of a `float4`. No device supports the packed types. -/
def pixelsf : PixelType F where
  zero := ops.zero
  one := ops.one
  channel
    | .snormInt8 => some (ops.channelOf .snormInt8)
    | .snormInt16 => some (ops.channelOf .snormInt16)
    | .unormInt8 => some (ops.channelOf .unormInt8)
    | .unormInt16 => some (ops.channelOf .unormInt16)
    | .float => some (ops.channelOf .float)
    | _ => none

end FloatOps

/-! ## Reading and writing -/

section Access
variable {V : Type} (P : PixelType V)

def mapChannelsRead (order : ChannelOrder) (color : Vec4 V) : Vec4 V :=
  match order with
  | .r | .rx => ⟨color.x, P.zero, P.zero, P.one⟩
  | .a => ⟨P.zero, P.zero, P.zero, color.x⟩
  | .rg | .rgx => ⟨color.x, color.y, P.zero, P.one⟩
  | .ra => ⟨color.x, P.zero, P.zero, color.y⟩
  | .rgb | .rgbx => ⟨color.x, color.y, color.z, P.one⟩
  | .rgba => color
  | .bgra => ⟨color.z, color.y, color.x, color.w⟩
  | .argb => ⟨color.y, color.z, color.w, color.x⟩
  | .intensity => ⟨color.x, color.x, color.x, color.x⟩
  | .luminance => ⟨color.x, color.x, color.x, P.one⟩

/-- The components that are not set are not stored. -/
def mapChannelsWrite (order : ChannelOrder) (color : Vec4 V) : Vec4 V :=
  match order with
  | .r | .rx => ⟨color.x, P.zero, P.zero, P.zero⟩
  | .a => ⟨color.w, P.zero, P.zero, P.zero⟩
  | .rg | .rgx => ⟨color.x, color.y, P.zero, P.zero⟩
  | .ra => ⟨color.x, color.w, P.zero, P.zero⟩
  | .rgb | .rgbx => ⟨color.x, color.y, color.z, P.zero⟩
  | .rgba => color
  | .bgra => ⟨color.z, color.y, color.x, color.w⟩
  | .argb => ⟨color.w, color.x, color.y, color.z⟩
  | .intensity | .luminance => ⟨color.x, P.zero, P.zero, P.zero⟩

/-- The colour outside of an image. -/
def border (order : ChannelOrder) : Vec4 V :=
  match order with
  | .a | .intensity | .rx | .ra | .rgx | .rgbx | .argb | .bgra | .rgba => ⟨P.zero, P.zero, P.zero, P.zero⟩
  | .r | .rg | .rgb | .luminance => ⟨P.zero, P.zero, P.zero, P.one⟩

def outside (img : DeviceImage) (coord : Vec4 (BitVec 32)) : Bool :=
  (coord.x.toInt ≤ -1 || coord.x.toInt ≥ img.width.toInt) ||
    (coord.y.toInt ≤ -1 || coord.y.toInt ≥ img.height.toInt) ||
      (coord.z.toInt ≤ -1 || coord.z.toInt ≥ img.depth.toInt)

/-- The address of a pixel; the products have 32 bits. -/
def address (img : DeviceImage) (coord : Vec4 (BitVec 32)) : SizeT :=
  img.data + (img.elementSize * coord.x).setWidth 64 + (img.rowPitch * coord.y).setWidth 64 +
    (img.slicePitch * coord.z).setWidth 64

/-- A channel of the pixel at an address. -/
def channelAt (c : Channel V) (m : Memory 64) (src : SizeT) (i : Nat) : V :=
  c.decode (ofBytes (load m (src + BitVec.ofNat 64 (i * c.size)) c.size))

def colorAt (c : Channel V) (m : Memory 64) (src : SizeT) (numChannels : BitVec 32) : Vec4 V :=
  if numChannels = 1 then ⟨channelAt c m src 0, P.zero, P.zero, P.zero⟩
  else if numChannels = 2 then ⟨channelAt c m src 0, channelAt c m src 1, P.zero, P.zero⟩
  else if numChannels = 3 then ⟨channelAt c m src 0, channelAt c m src 1, channelAt c m src 2, P.zero⟩
  else ⟨channelAt c m src 0, channelAt c m src 1, channelAt c m src 2, channelAt c m src 3⟩

/-- The body of `read_pixeli`, `read_pixelui` and `read_pixelf`. -/
def readPixel (m : Memory 64) (img : DeviceImage) (coord : Vec4 (BitVec 32)) : Vec4 V :=
  if outside img coord then border P img.imageChannelOrder
  else
    let color := match P.channel img.imageChannelDataType with
      | some c => colorAt P c m (address img coord) img.numChannels
      | none => ⟨P.zero, P.zero, P.zero, P.zero⟩
    mapChannelsRead P img.imageChannelOrder color

/-- The components that are stored. -/
def stored (numChannels : BitVec 32) (color : Vec4 V) : List V :=
  if numChannels = 1 then [color.x]
  else if numChannels = 2 then [color.x, color.y]
  else if numChannels = 3 then [color.x, color.y, color.z]
  else [color.x, color.y, color.z, color.w]

/-- The body of `write_pixel`. -/
def writePixel (m : Memory 64) (img : DeviceImage) (coord : Vec4 (BitVec 32)) (color : Vec4 V) : Memory 64 :=
  match P.channel img.imageChannelDataType with
  | some c => store m (address img coord) (((stored img.numChannels color).map c.encode).flatMap (toBytes c.size))
  | none => m

/-- `write_imagei`, `write_imageui` and `write_imagef`. -/
def writeImage (m : Memory 64) (img : DeviceImage) (coord : Vec4 (BitVec 32)) (color : Vec4 V) : Memory 64 :=
  writePixel P m img coord (mapChannelsWrite P img.imageChannelOrder color)

end Access

def readPixeli := readPixel pixelsi
def readPixelui := readPixel pixelsui
def readPixelf {F : Type} (ops : FloatOps F) := readPixel ops.pixelsf

/-! ## What pixels are -/

/-- The data types of the images whose pixels are floats. -/
def FloatOps.floats {F : Type} (ops : FloatOps F) : PixelType F where
  zero := ops.zero
  one := ops.one
  channel
    | .snormInt8 => some (ops.channelOf .snormInt8)
    | .snormInt16 => some (ops.channelOf .snormInt16)
    | .unormInt8 => some (ops.channelOf .unormInt8)
    | .unormInt16 => some (ops.channelOf .unormInt16)
    | .halfFloat => some (ops.channelOf .halfFloat)
    | .float => some (ops.channelOf .float)
    | _ => none

section Pixels
variable {V : Type} (P : PixelType V)

/-- The colour that the channels of a pixel stand for. -/
def colorOf (order : ChannelOrder) (channel : Nat → V) : Vec4 V :=
  match order with
  | .r | .rx => ⟨channel 0, P.zero, P.zero, P.one⟩
  | .a => ⟨P.zero, P.zero, P.zero, channel 0⟩
  | .rg | .rgx => ⟨channel 0, channel 1, P.zero, P.one⟩
  | .ra => ⟨channel 0, P.zero, P.zero, channel 1⟩
  | .rgb | .rgbx => ⟨channel 0, channel 1, channel 2, P.one⟩
  | .rgba => ⟨channel 0, channel 1, channel 2, channel 3⟩
  | .bgra => ⟨channel 2, channel 1, channel 0, channel 3⟩
  | .argb => ⟨channel 1, channel 2, channel 3, channel 0⟩
  | .intensity => ⟨channel 0, channel 0, channel 0, channel 0⟩
  | .luminance => ⟨channel 0, channel 0, channel 0, P.one⟩

/-- What an image with such channels holds of a colour that is written, where a value comes back as `f` of it. -/
def held (order : ChannelOrder) (f : V → V) (color : Vec4 V) : Vec4 V :=
  match order with
  | .r | .rx => ⟨f color.x, P.zero, P.zero, P.one⟩
  | .a => ⟨P.zero, P.zero, P.zero, f color.w⟩
  | .rg | .rgx => ⟨f color.x, f color.y, P.zero, P.one⟩
  | .ra => ⟨f color.x, P.zero, P.zero, f color.w⟩
  | .rgb | .rgbx => ⟨f color.x, f color.y, f color.z, P.one⟩
  | .rgba | .bgra | .argb => ⟨f color.x, f color.y, f color.z, f color.w⟩
  | .intensity => ⟨f color.x, f color.x, f color.x, f color.x⟩
  | .luminance => ⟨f color.x, f color.x, f color.x, P.one⟩

end Pixels

/-- The coordinate of a pixel, as a kernel gives it. -/
def coordOf (origin : Fin 3 → Nat) : Vec4 (BitVec 32) where
  x := BitVec.ofNat 32 (origin 0)
  y := BitVec.ofNat 32 (origin 1)
  z := BitVec.ofNat 32 (origin 2)
  w := 0

/-- The address that the image commands of the host have for a pixel. -/
def hostAddress (img : Image) (base : SizeT) (origin : Fin 3 → Nat) : SizeT :=
  base + img.offset fun d => BitVec.ofNat 64 (origin d)

/-- For the data types of `S`: a read returns the pixel that is stored, and a write stores the pixel that a read then
returns, and nothing else. -/
structure Returns {V : Type} (P S : PixelType V) (img : Image) (base : SizeT) (origin : Fin 3 → Nat) : Prop where
  read : ∀ c, S.channel img.format.dataType = some c → ∀ m, readPixel P m (header img base) (coordOf origin) =
    colorOf P img.format.order (channelAt c m (hostAddress img base origin))
  written : ∀ c, S.channel img.format.dataType = some c → ∀ m color,
    readPixel P (writeImage P m (header img base) (coordOf origin) color) (header img base) (coordOf origin) =
      held P img.format.order (fun v => c.decode (c.encode v)) color
  elsewhere : ∀ m color (p : SizeT), img.format.elementSize ≤ (p - hostAddress img base origin).toNat →
    writeImage P m (header img base) (coordOf origin) color p = m p

/-- The device has the same address for a pixel as the host, in the storage, and the same pixel there. -/
structure Agrees {F : Type} (ops : FloatOps F) (img : Image) (base : SizeT) (origin : Fin 3 → Nat) : Prop where
  same : address (header img base) (coordOf origin) = hostAddress img base origin
  inside : (address (header img base) (coordOf origin) - base).toNat + img.format.elementSize ≤ img.size.toNat
  readi : Returns pixelsi pixelsi img base origin
  readui : Returns pixelsui pixelsui img base origin
  readf : Returns ops.pixelsf ops.floats img base origin

/-- The pixel is of the first row or slice of an array, the offset of its slice has 32 bits, and the library knows
the data type. -/
structure Covered (img : Image) (origin : Fin 3 → Nat) : Prop where
  array1D : img.type = .image1DArray → origin 1 = 0
  array2D : img.type = .image2DArray → origin 2 = 0
  slice : img.getSlicePitch.toNat * origin 2 < 2 ^ 32
  dataType : img.format.dataType ≠ .halfFloat

/-! ## The sizes of an image -/

/-- An image that `setImage` makes for CPU devices, in numbers. -/
structure Sized (img : Image) : Prop where
  laid : img.Laid
  width : img.getWidth.toNat * img.format.elementSize < 2 ^ 17
  height : img.getHeight.toNat < 2 ^ 13
  depth : img.getDepth.toNat < 2 ^ 11
  arraySize : img.getArraySize.toNat < 2 ^ 11
  /-- A row has no height, and only a volume has a depth. -/
  flat : img.type = .image1D ∨ img.type = .image1DBuffer ∨ img.type = .image1DArray → img.getHeight = 0
  thin : img.type ≠ .image3D → img.getDepth = 0
  slicePitch : img.getSlicePitch.toNat =
    if MemoryObjectBuilder.requiresSlicePitch img.type then img.getRowPitch.toNat * img.getHeight.toNat else 0
  supported : img.format ∈ CPUDevice.imgFmts

open MemoryObjectBuilder in
theorem checkSizes_shape {lim : ImageLimits} {elementSize : SizeT} {type : ImageType} {d : CLImageDesc}
    {desc : ImageDescriptor} (h : checkSizes lim elementSize type d = .ok desc) :
    (type = .image1D ∨ type = .image1DBuffer ∨ type = .image1DArray → desc.height = 0) ∧
      (type ≠ .image3D → desc.depth = 0) := by
  cases type with
  | image3D => exact ⟨by simp, fun h => absurd rfl h⟩
  | image2D | image2DArray =>
    simp only [checkSizes, errorIf_bind_ok] at h
    rw [bind_ok] at h
    obtain ⟨-, -, -, -, -, arraySize, -, heq⟩ := h
    cases heq
    exact ⟨by simp, fun _ => rfl⟩
  | image1D | image1DBuffer | image1DArray =>
    simp only [checkSizes, errorIf_bind_ok] at h
    rw [bind_ok] at h
    obtain ⟨-, -, -, -, arraySize, -, heq⟩ := h
    cases heq
    exact ⟨fun _ => rfl, fun _ => rfl⟩

open MemoryObjectBuilder in
theorem sized_of_computeImage {n : Nat} {fmt : Option CLImageFormat} {desc : Option CLImageDesc} {img : Image}
    (h : computeImage none (contextDevices n) fmt desc = .ok img) : Sized img := by
  have hlaid := computeImage_laid h
  obtain ⟨-, d, lim, sizes, hlim, hsizes, hdesc, -, -⟩ := computeImage_ok h
  have hsupported : img.format ∈ CPUDevice.imgFmts := by
    rw [imageLimits, contextDevices, List.filter_replicate] at hlim
    by_contra hnot
    simp [DeviceInfo.isImageFormatSupported, CPUDevice.info, hnot] at hlim
  cases imageLimits_contextDevices hlim
  have hallowed := checkSizes_ok img.format.elementSize_bounds.2 hsizes
  obtain ⟨hflat, hthin⟩ := checkSizes_shape hsizes
  have hpitched := setPitches_ok hdesc
  have hrow : img.getRowPitch.toNat < 2 ^ 17 := by
    rw [hlaid.rowPitch, Image.getWidth, hpitched]
    exact hallowed.width
  refine ⟨hlaid, ?_, ?_, ?_, ?_, ?_, ?_, ?_, hsupported⟩
  · rw [Image.getWidth, hpitched]
    exact hallowed.width
  · rw [Image.getHeight, hpitched]
    exact hallowed.height
  · rw [Image.getDepth, hpitched]
    exact hallowed.depth
  · rw [Image.getArraySize, hpitched]
    exact hallowed.arraySize
  · intro ht
    rw [Image.getHeight, hpitched]
    exact hflat ht
  · intro ht
    rw [Image.getDepth, hpitched]
    exact hthin ht
  · rw [Image.getSlicePitch, Image.getRowPitch, Image.getHeight, hpitched]
    rw [Image.getRowPitch, hpitched] at hrow
    simp only [pitched] at hrow ⊢
    split
    · exact (toNat_mul_of_lt hrow hallowed.height (by decide)).1
    · rfl

/-! ## Fields of 32 bits -/

theorem toNat_fixup {v : SizeT} (h : v.toNat < 2 ^ 32) :
    ((fixup v).setWidth 32).toNat = if v.toNat = 0 then 1 else v.toNat := by
  unfold fixup
  by_cases hv : v = 0
  · rw [if_pos hv, hv]
    rfl
  · have hne : v.toNat ≠ 0 := fun h => hv (BitVec.eq_of_toNat_eq h)
    rw [if_neg hv, if_neg hne, BitVec.toNat_setWidth, Nat.mod_eq_of_lt h]

theorem toInt_eq {v : BitVec 32} {n : Nat} (hv : v.toNat = n) (hn : n < 2 ^ 31) : v.toInt = n := by
  rw [BitVec.toInt_eq_toNat_of_lt (by omega), hv]

theorem toInt_fixup {v : SizeT} (h : v.toNat < 2 ^ 31) :
    ((fixup v).setWidth 32).toInt = if v.toNat = 0 then 1 else (v.toNat : Int) := by
  rw [toInt_eq (toNat_fixup (by omega)) (by split <;> omega)]
  split <;> rfl

theorem toInt_coord {k : Nat} (h : k < 2 ^ 31) : (BitVec.ofNat 32 k).toInt = k :=
  toInt_eq (by rw [BitVec.toNat_ofNat, Nat.mod_eq_of_lt (by omega)]) h

/-- A product on the device is cut to 32 bits. -/
theorem toNat_product {a : BitVec 32} {k : Nat} (hk : k < 2 ^ 32) :
    ((a * BitVec.ofNat 32 k).setWidth 64).toNat = a.toNat * k % 2 ^ 32 := by
  rw [BitVec.toNat_setWidth, BitVec.toNat_mul, BitVec.toNat_ofNat, Nat.mod_eq_of_lt hk]
  exact Nat.mod_eq_of_lt ((Nat.mod_lt _ (by decide)).trans (by decide))

theorem toNat_offset {k : Nat} {b : SizeT} (h : k * b.toNat < 2 ^ 64) (hk : k < 2 ^ 64) :
    (BitVec.ofNat 64 k * b).toNat = k * b.toNat := by
  rw [BitVec.toNat_mul, BitVec.toNat_ofNat, Nat.mod_eq_of_lt hk, Nat.mod_eq_of_lt h]

section Coordinates
variable {img : Image} {base : SizeT} {origin : Fin 3 → Nat}

/-- The coordinates of a pixel are small, whatever the type of the image. -/
theorem origin_lt (h : Sized img) (horigin : ∀ d, origin d < img.extent d) :
    origin 0 < img.getWidth.toNat ∧ origin 1 < 2 ^ 13 ∧ origin 2 < 2 ^ 11 := by
  have hx := horigin 0
  have hy := horigin 1
  have hz := horigin 2
  have hheight := h.height
  have hdepth := h.depth
  have harray := h.arraySize
  simp only [Image.extent] at hx hy hz
  refine ⟨hx, ?_, ?_⟩
  · cases ht : img.type <;> simp only [ht] at hy <;> omega
  · cases ht : img.type <;> simp only [ht] at hz <;> omega

theorem width_lt (h : Sized img) : img.getWidth.toNat < 2 ^ 17 := by
  have hwidth := h.width
  have hpos := img.format.elementSize_bounds.1
  exact (Nat.le_mul_of_pos_right _ hpos).trans_lt hwidth

/-- A pixel of the image is outside of the header's exactly in the later rows or slices of an array. -/
theorem outside_eq_false (h : Sized img) (horigin : ∀ d, origin d < img.extent d) :
    outside (header img base) (coordOf origin) = false ↔
      (img.type = .image1DArray → origin 1 = 0) ∧ (img.type = .image2DArray → origin 2 = 0) := by
  obtain ⟨hx, hy, hz⟩ := origin_lt h horigin
  have hwidth := width_lt h
  have hheight := h.height
  have hdepth := h.depth
  have hy' := horigin 1
  have hz' := horigin 2
  simp only [outside, header, coordOf, toInt_fixup (show img.getWidth.toNat < 2 ^ 31 by omega),
    toInt_fixup (show img.getHeight.toNat < 2 ^ 31 by omega), toInt_fixup (show img.getDepth.toNat < 2 ^ 31 by omega),
    toInt_coord (show origin 0 < 2 ^ 31 by omega), toInt_coord (show origin 1 < 2 ^ 31 by omega),
    toInt_coord (show origin 2 < 2 ^ 31 by omega), Bool.or_eq_false_iff, decide_eq_false_iff_not]
  have hflat : img.type = .image1D ∨ img.type = .image1DBuffer ∨ img.type = .image1DArray → img.getHeight.toNat = 0 :=
    fun ht => by rw [h.flat ht]; rfl
  have hthin : img.type ≠ .image3D → img.getDepth.toNat = 0 := fun ht => by rw [h.thin ht]; rfl
  simp only [Image.extent] at hy' hz'
  cases ht : img.type <;> simp only [ht] at hy' hz' hflat hthin <;> simp at hflat hthin <;> simp <;> omega

/-- The slice of a pixel that is not in the first one has a height. -/
theorem slicePitch_eq (h : Sized img) (horigin : ∀ d, origin d < img.extent d) (hz : origin 2 ≠ 0) :
    img.getSlicePitch.toNat = img.getRowPitch.toNat * img.getHeight.toNat ∧ 0 < img.getSlicePitch.toNat := by
  have hy' := horigin 1
  have hz' := horigin 2
  have hslice := h.slicePitch
  have hrow : 0 < img.getRowPitch.toNat := by
    rw [h.laid.rowPitch]
    exact Nat.mul_pos (Nat.zero_lt_of_lt (origin_lt h horigin).1) img.format.elementSize_bounds.1
  simp only [Image.extent] at hy' hz'
  have hsliced : MemoryObjectBuilder.requiresSlicePitch img.type = true ∧ 0 < img.getHeight.toNat := by
    cases ht : img.type <;> simp only [ht] at hy' hz' <;> first | omega | exact ⟨rfl, by omega⟩
  rw [if_pos hsliced.1] at hslice
  exact ⟨hslice, hslice ▸ Nat.mul_pos hrow hsliced.2⟩

theorem rowPitch_lt (h : Sized img) : img.getRowPitch.toNat < 2 ^ 17 := by
  rw [h.laid.rowPitch]
  exact h.width

theorem slicePitch_lt (h : Sized img) : img.getSlicePitch.toNat < 2 ^ 30 := by
  have hproduct : img.getRowPitch.toNat * img.getHeight.toNat < 2 ^ 17 * 2 ^ 13 :=
    Nat.mul_lt_mul_of_lt_of_le (rowPitch_lt h) h.height.le (by decide)
  rw [h.slicePitch]
  split
  · exact hproduct.trans_le (by decide)
  · decide

/-- The parts of the offset, on the host and on the device. -/
theorem offsets (h : Sized img) (horigin : ∀ d, origin d < img.extent d) :
    ((header img base).elementSize * (coordOf origin).x).setWidth 64 = BitVec.ofNat 64 (origin 0) * img.getElementSize ∧
    ((header img base).rowPitch * (coordOf origin).y).setWidth 64 = BitVec.ofNat 64 (origin 1) * img.getRowPitch ∧
    (((header img base).slicePitch * (coordOf origin).z).setWidth 64 = BitVec.ofNat 64 (origin 2) * img.getSlicePitch ↔
      img.getSlicePitch.toNat * origin 2 < 2 ^ 32) := by
  obtain ⟨hx, hy, hz⟩ := origin_lt h horigin
  have hwidth := width_lt h
  have hrow := rowPitch_lt h
  have hslice := slicePitch_lt h
  have hes := img.toNat_getElementSize
  have hes16 := img.format.elementSize_bounds
  have hrowpos : img.getRowPitch.toNat ≠ 0 := by
    rw [h.laid.rowPitch]
    exact (Nat.mul_pos (Nat.zero_lt_of_lt hx) hes16.1).ne'
  -- The products stay below the width of the fields, but for the one with the slice pitch.
  have hbytes : origin 0 * img.format.elementSize < 2 ^ 17 * 16 :=
    Nat.mul_lt_mul_of_lt_of_le (hx.trans hwidth) hes16.2 (by decide)
  have hrows : img.getRowPitch.toNat * origin 1 < 2 ^ 17 * 2 ^ 13 := Nat.mul_lt_mul_of_lt_of_le hrow hy.le (by decide)
  have hslices : img.getSlicePitch.toNat * origin 2 < 2 ^ 30 * 2 ^ 11 :=
    Nat.mul_lt_mul_of_lt_of_le hslice hz.le (by decide)
  have hes32 : img.format.elementSize % 2 ^ 32 = img.format.elementSize := Nat.mod_eq_of_lt (by omega)
  refine ⟨?_, ?_, ?_⟩
  · refine BitVec.eq_of_toNat_eq ?_
    rw [header, coordOf, toNat_product (by omega), BitVec.toNat_setWidth, hes, hes32, Nat.mul_comm,
      toNat_offset (by rw [hes]; omega) (by omega), hes, Nat.mod_eq_of_lt (by omega)]
  · refine BitVec.eq_of_toNat_eq ?_
    rw [header, coordOf, toNat_product (by omega), toNat_fixup (by omega), if_neg hrowpos, Nat.mod_eq_of_lt (by omega),
      toNat_offset (by rw [Nat.mul_comm]; omega) (by omega), Nat.mul_comm]
  · have hfield : ((header img base).slicePitch.toNat) * origin 2 = img.getSlicePitch.toNat * origin 2 := by
      by_cases hz0 : origin 2 = 0
      · rw [hz0, Nat.mul_zero, Nat.mul_zero]
      · rw [header, toNat_fixup (by omega), if_neg (slicePitch_eq h horigin hz0).2.ne']
    rw [← BitVec.toNat_inj, toNat_offset (by rw [Nat.mul_comm]; omega) (by omega), coordOf, toNat_product (by omega),
      hfield, Nat.mul_comm (origin 2)]
    omega

theorem same_iff (h : Sized img) (horigin : ∀ d, origin d < img.extent d) :
    address (header img base) (coordOf origin) = hostAddress img base origin ↔
      img.getSlicePitch.toNat * origin 2 < 2 ^ 32 := by
  rw [← (offsets h horigin).2.2, address, (offsets h horigin).1, (offsets h horigin).2.1, hostAddress, Image.offset,
    ← BitVec.add_assoc, ← BitVec.add_assoc]
  exact BitVec.add_right_inj _

/-- The bytes of a pixel are in the storage. -/
theorem inside (h : Sized img) (horigin : ∀ d, origin d < img.extent d) :
    (hostAddress img base origin - base).toNat + img.format.elementSize ≤ img.size.toNat := by
  obtain ⟨hx, hy, hz⟩ := origin_lt h horigin
  have hwidth := width_lt h
  have hrow := rowPitch_lt h
  have hslice := slicePitch_lt h
  have hes := img.toNat_getElementSize
  have hes16 := img.format.elementSize_bounds
  have hbytes : (origin 0 + 1) * img.format.elementSize ≤ img.getRowPitch.toNat := by
    rw [h.laid.rowPitch]
    exact Nat.mul_le_mul_right _ hx
  have hrows : origin 1 * img.getRowPitch.toNat + img.getRowPitch.toNat ≤ img.extent 1 * img.getRowPitch.toNat := by
    rw [← Nat.succ_mul]
    exact Nat.mul_le_mul_right _ (horigin 1)
  have hslices : origin 2 * img.getSlicePitch.toNat ≤ (img.extent 2 - 1) * img.getSlicePitch.toNat := by
    have hlt := horigin 2
    exact Nat.mul_le_mul_right _ (by omega)
  have hfits := h.laid.fits
  have hsmall := h.laid.small
  rw [Nat.add_mul, Nat.one_mul] at hbytes
  -- Nothing wraps around on the way to the pixel.
  have hsum : (hostAddress img base origin - base).toNat =
      origin 0 * img.format.elementSize + origin 1 * img.getRowPitch.toNat + origin 2 * img.getSlicePitch.toNat := by
    rw [hostAddress, BitVec.add_comm, BitVec.add_sub_cancel, Image.offset, BitVec.toNat_add, BitVec.toNat_add,
      toNat_offset (by rw [hes]; omega) (by omega), toNat_offset (by omega) (by omega), toNat_offset (by omega) (by omega),
      hes, Nat.mod_eq_of_lt (show _ < 2 ^ 64 by omega), Nat.mod_eq_of_lt (by omega)]
  omega

end Coordinates

/-! ## What is read and written -/

section Contents
variable {V : Type} {P : PixelType V}

/-- The channels have the sizes of their data types. -/
def PixelType.Fitting (P : PixelType V) : Prop := ∀ t c, P.channel t = some c →
  c.size = computeImageChannelSizeInBytes t ∧ isPackedChannelType t = false

theorem fitting_pixelsi : pixelsi.Fitting := by
  intro t c h
  cases t <;> cases h <;> exact ⟨rfl, rfl⟩

theorem fitting_pixelsui : pixelsui.Fitting := by
  intro t c h
  cases t <;> cases h <;> exact ⟨rfl, rfl⟩

theorem FloatOps.fitting_pixelsf {F : Type} (ops : FloatOps F) : ops.pixelsf.Fitting := by
  intro t c h
  cases t <;> cases h <;> exact ⟨rfl, rfl⟩

theorem FloatOps.fitting_floats {F : Type} (ops : FloatOps F) : ops.floats.Fitting := by
  intro t c h
  cases t <;> cases h <;> exact ⟨rfl, rfl⟩

theorem elementSize_eq (hP : P.Fitting) {fmt : ImageFormat} {c : Channel V} (h : P.channel fmt.dataType = some c) :
    fmt.elementSize = computeImageNumChannels fmt.order * c.size := by
  obtain ⟨hsize, hpacked⟩ := hP _ c h
  rw [ImageFormat.elementSize, hpacked, hsize, Nat.mul_comm]
  rfl

theorem mapChannelsRead_colorAt (order : ChannelOrder) (c : Channel V) (m : Memory 64) (src : SizeT) :
    mapChannelsRead P order (colorAt P c m src (BitVec.ofNat 32 (computeImageNumChannels order))) =
      colorOf P order (channelAt c m src) := by
  cases order <;> rfl

theorem length_stored (order : ChannelOrder) (color : Vec4 V) :
    (stored (BitVec.ofNat 32 (computeImageNumChannels order)) color).length = computeImageNumChannels order := by
  cases order <;> rfl

/-- The channels of a pixel after a write. -/
theorem channelAt_store (c : Channel V) (m : Memory 64) (dst : SizeT) {values : List V}
    (hlength : values.length * c.size ≤ 2 ^ 64) {i : Nat} {v : V} (h : values[i]? = some v) :
    channelAt c (store m dst ((values.map c.encode).flatMap (toBytes c.size))) dst i = c.decode (c.encode v) := by
  have hmap : (values.map c.encode)[i]? = some (c.encode v) := by rw [List.getElem?_map, h]; rfl
  rw [channelAt, load_store_number (by rwa [List.length_map]) hmap (c.encode_lt v)]

/-- The pixel that comes back after a write. -/
theorem colorOf_store (order : ChannelOrder) (c : Channel V) (m : Memory 64) (dst : SizeT)
    (hlength : computeImageNumChannels order * c.size ≤ 2 ^ 64) (color : Vec4 V) :
    colorOf P order (channelAt c (store m dst (((stored (BitVec.ofNat 32 (computeImageNumChannels order))
      (mapChannelsWrite P order color)).map c.encode).flatMap (toBytes c.size))) dst) =
      held P order (fun v => c.decode (c.encode v)) color := by
  have hchannel := fun i v => channelAt_store c m dst (i := i) (v := v)
    ((length_stored order (mapChannelsWrite P order color)).symm ▸ hlength)
  cases order with
  | r | rx | a | intensity | luminance =>
    simp only [colorOf, held, hchannel 0 _ rfl]
    rfl
  | rg | rgx | ra =>
    simp only [colorOf, held, hchannel 0 _ rfl, hchannel 1 _ rfl]
    rfl
  | rgb | rgbx =>
    simp only [colorOf, held, hchannel 0 _ rfl, hchannel 1 _ rfl, hchannel 2 _ rfl]
    rfl
  | rgba | bgra | argb =>
    simp only [colorOf, held, hchannel 0 _ rfl, hchannel 1 _ rfl, hchannel 2 _ rfl, hchannel 3 _ rfl]
    rfl

/-- Bytes that are stored are where they should be. -/
theorem store_elsewhere {m : Memory 64} {dst p : SizeT} {bs : List (BitVec 8)} (h : bs.length ≤ (p - dst).toNat) :
    store m dst bs p = m p := by
  rw [store, List.getElem?_eq_none h]
  rfl

/-- Some number of each channel is not zero. -/
def PixelType.Telling (P : PixelType V) : Prop := ∀ t c, P.channel t = some c → ∃ n < 256 ^ c.size, c.decode n ≠ P.zero

theorem telling_pixelsi : pixelsi.Telling := by
  intro t c h
  cases t <;> cases h <;> exact ⟨1, by decide, by decide⟩

theorem telling_pixelsui : pixelsui.Telling := by
  intro t c h
  cases t <;> cases h <;> exact ⟨1, by decide, by decide⟩

theorem FloatOps.telling_floats {F : Type} (ops : FloatOps F) : ops.floats.Telling := by
  intro t c h
  have hne := ops.ne_zero t
  cases t <;> cases h <;> exact hne

/-- The component of a colour that is the first channel. -/
def firstChannel (order : ChannelOrder) (color : Vec4 V) : V :=
  match order with
  | .a | .argb => color.w
  | .bgra => color.z
  | _ => color.x

theorem firstChannel_colorOf (order : ChannelOrder) (channel : Nat → V) :
    firstChannel order (colorOf P order channel) = channel 0 := by
  cases order <;> rfl

theorem firstChannel_border (order : ChannelOrder) : firstChannel order (border P order) = P.zero := by
  cases order <;> rfl

theorem firstChannel_mapChannelsRead (order : ChannelOrder) :
    firstChannel order (mapChannelsRead P order ⟨P.zero, P.zero, P.zero, P.zero⟩) = P.zero := by
  cases order <;> rfl

variable {S : PixelType V} {img : Image} {base : SizeT} {origin : Fin 3 → Nat}

/-- Where the pixels that are stored come back, the coordinate is one of the header, and the library knows the data
type. -/
theorem Returns.known (h : Returns P S img base origin) (hfit : S.Fitting) (htelling : S.Telling)
    (hzero : S.zero = P.zero) {c : Channel V} (hc : S.channel img.format.dataType = some c) :
    outside (header img base) (coordOf origin) = false ∧ P.channel img.format.dataType ≠ none := by
  obtain ⟨n, hn, hne⟩ := htelling _ c hc
  have hsize : [n].length * c.size ≤ 2 ^ 64 := by
    rw [(hfit _ c hc).1, List.length_singleton, Nat.one_mul]
    cases img.format.dataType <;> decide
  -- A memory whose pixel is not zero.
  let m : Memory 64 := store (fun _ => 0) (hostAddress img base origin) ([n].flatMap (toBytes c.size))
  have hfirst : channelAt c m (hostAddress img base origin) 0 ≠ P.zero := by
    rw [channelAt, load_store_number hsize rfl hn, ← hzero]
    exact hne
  have hread := congrArg (firstChannel img.format.order) (h.read c hc m)
  rw [firstChannel_colorOf] at hread
  constructor
  · by_contra hout
    rw [readPixel, if_pos (Bool.not_eq_false _ ▸ hout)] at hread
    exact hfirst (hread.symm.trans (firstChannel_border _))
  · intro hnone
    refine hfirst (hread.symm.trans ?_)
    unfold readPixel
    split
    · exact firstChannel_border _
    · have hheader : P.channel (header img base).imageChannelDataType = none := hnone
      rw [hheader]
      exact firstChannel_mapChannelsRead _

/-- The number of bytes of a pixel that is written. -/
theorem length_written (hP : P.Fitting) {c : Channel V} (hc : P.channel img.format.dataType = some c) (color : Vec4 V) :
    (((stored (header img base).numChannels color).map c.encode).flatMap (toBytes c.size)).length =
      img.format.elementSize := by
  rw [length_flatMap (length_toBytes c.size), List.length_map, elementSize_eq hP hc]
  exact congrArg (· * c.size) (length_stored _ _)

/-- With the address of the host, and a coordinate of the header, the pixels come back. -/
theorem returns (hP : P.Fitting) (hS : ∀ c, S.channel img.format.dataType = some c → P.channel img.format.dataType = some c)
    (hsame : address (header img base) (coordOf origin) = hostAddress img base origin)
    (hinside : outside (header img base) (coordOf origin) = false) : Returns P S img base origin := by
  have hread : ∀ c, P.channel img.format.dataType = some c → ∀ m, readPixel P m (header img base) (coordOf origin) =
      colorOf P img.format.order (channelAt c m (hostAddress img base origin)) := by
    intro c hc m
    have hheader : P.channel (header img base).imageChannelDataType = some c := hc
    rw [readPixel, if_neg (ne_true_of_eq_false hinside), hheader, hsame]
    exact mapChannelsRead_colorAt _ _ _ _
  refine ⟨fun c hc => hread c (hS c hc), fun c hc m color => ?_, fun m color p hp => ?_⟩
  · have hheader : P.channel (header img base).imageChannelDataType = some c := hS c hc
    have hsize : computeImageNumChannels img.format.order * c.size ≤ 2 ^ 64 := by
      rw [← elementSize_eq hP (hS c hc)]
      exact img.format.elementSize_bounds.2.trans (by decide)
    rw [hread c (hS c hc), writeImage, writePixel, hheader, hsame]
    exact colorOf_store _ _ _ _ hsize _
  · rw [writeImage, writePixel]
    cases hc : P.channel (header img base).imageChannelDataType with
    | none => rfl
    | some c =>
      rw [hsame]
      exact store_elsewhere ((length_written hP hc _).trans_le hp)

end Contents

/-! ## Agreement -/

section Agreement
variable {F : Type} (ops : FloatOps F) {img : Image} (base : SizeT) {origin : Fin 3 → Nat}

/-- The pixels of a supported format are integers or floats. -/
theorem channel_of_supported {fmt : ImageFormat} (h : fmt ∈ CPUDevice.imgFmts) :
    (∃ c, pixelsi.channel fmt.dataType = some c) ∨ (∃ c, pixelsui.channel fmt.dataType = some c) ∨
      ∃ c, ops.floats.channel fmt.dataType = some c := by
  have hpacked : ∀ f ∈ CPUDevice.imgFmts, isPackedChannelType f.dataType = false := by decide
  have hfmt := hpacked fmt h
  cases ht : fmt.dataType with
  | signedInt8 | signedInt16 | signedInt32 => exact .inl ⟨_, rfl⟩
  | unsignedInt8 | unsignedInt16 | unsignedInt32 => exact .inr (.inl ⟨_, rfl⟩)
  | snormInt8 | snormInt16 | unormInt8 | unormInt16 | halfFloat | float => exact .inr (.inr ⟨_, rfl⟩)
  | unormShort565 | unormShort555 | unormInt101010 =>
    rw [ht] at hfmt
    cases hfmt

theorem floats_eq_pixelsf {t : ChannelDataType} (ht : t ≠ .halfFloat) : ops.floats.channel t = ops.pixelsf.channel t := by
  cases t with
  | halfFloat => exact absurd rfl ht
  | _ => rfl

/-- The device and the host agree on a pixel of an image exactly when it is covered. -/
theorem agrees_iff_covered {n : Nat} {fmt : Option CLImageFormat} {desc : Option CLImageDesc}
    (h : MemoryObjectBuilder.computeImage (MemoryObjectBuilder.new .image).hostPtr (contextDevices n) fmt desc = .ok img)
    (horigin : ∀ d, origin d < img.extent d) : Agrees ops img base origin ↔ Covered img origin := by
  have hsized := sized_of_computeImage h
  have hsame : address (header img base) (coordOf origin) = hostAddress img base origin ↔ _ := same_iff hsized horigin
  have hout : outside (header img base) (coordOf origin) = false ↔ _ := outside_eq_false hsized horigin
  constructor
  · intro hagrees
    -- One of the three reads knows the data type, and it returns what is stored.
    have hknown : outside (header img base) (coordOf origin) = false ∧ img.format.dataType ≠ .halfFloat := by
      rcases channel_of_supported ops hsized.supported with ⟨c, hc⟩ | ⟨c, hc⟩ | ⟨c, hc⟩
      · refine ⟨(hagrees.readi.known fitting_pixelsi telling_pixelsi rfl hc).1, fun ht => ?_⟩
        rw [ht] at hc
        cases hc
      · refine ⟨(hagrees.readui.known fitting_pixelsui telling_pixelsui rfl hc).1, fun ht => ?_⟩
        rw [ht] at hc
        cases hc
      · obtain ⟨hfalse, hne⟩ := hagrees.readf.known ops.fitting_floats ops.telling_floats rfl hc
        refine ⟨hfalse, fun ht => ?_⟩
        rw [ht] at hne
        exact hne rfl
    obtain ⟨h1D, h2D⟩ := hout.1 hknown.1
    exact ⟨h1D, h2D, hsame.1 hagrees.same, hknown.2⟩
  · intro hcovered
    have haddress := hsame.2 hcovered.slice
    have hfalse := hout.2 ⟨hcovered.array1D, hcovered.array2D⟩
    refine ⟨haddress, ?_, ?_, ?_, ?_⟩
    · rw [haddress]
      exact inside hsized horigin
    · exact returns fitting_pixelsi (fun _ hc => hc) haddress hfalse
    · exact returns fitting_pixelsui (fun _ hc => hc) haddress hfalse
    · exact returns ops.fitting_pixelsf (fun _ hc => (floats_eq_pixelsf ops hcovered.dataType) ▸ hc) haddress hfalse

/-- Floats as the bits that are stored. -/
def bits : FloatOps Nat where
  zero := 0
  one := 1
  decode _ n := n
  encode t v := ⟨v % 256 ^ computeImageChannelSizeInBytes t, Nat.mod_lt _ (Nat.pow_pos (by decide))⟩
  ne_zero t := ⟨1, by cases t <;> decide, by decide⟩

def fourByFour : Image where
  type := .image2D
  format := ⟨.r, .signedInt8⟩
  desc := { width := 4, height := 4, rowPitch := 4 }
  buf := none
  size := 16

theorem fourByFour_agrees : Agrees bits fourByFour 4096 ![1, 2, 0] ↔ Covered fourByFour ![1, 2, 0] :=
  have hcomputed : MemoryObjectBuilder.computeImage (MemoryObjectBuilder.new .image).hostPtr (contextDevices 1)
      (some ⟨some .r, some .signedInt8⟩) (some { imageType := some .image2D, imageWidth := 4, imageHeight := 4 }) =
      .ok fourByFour := rfl
  agrees_iff_covered bits 4096 hcomputed (by decide)

/-- An array of two rows. -/
def twoRows : Image where
  type := .image1DArray
  format := ⟨.r, .signedInt8⟩
  desc := { width := 4, rowPitch := 4, arraySize := 2 }
  buf := none
  size := 8

/-- The second row of an array is read as the border, whatever it holds. -/
theorem second_row_border :
    MemoryObjectBuilder.computeImage (MemoryObjectBuilder.new .image).hostPtr (contextDevices 1)
      (some ⟨some .r, some .signedInt8⟩)
      (some { imageType := some .image1DArray, imageWidth := 4, imageArraySize := 2 }) = .ok twoRows ∧
    (∀ d, ![1, 1, 0] d < twoRows.extent d) ∧
    (∀ m, readPixeli m (header twoRows 4096) (coordOf ![1, 1, 0]) = ⟨0, 0, 0, 1⟩) ∧
    ¬ Agrees bits twoRows 4096 ![1, 1, 0] := by
  have hread : ∀ m, readPixeli m (header twoRows 4096) (coordOf ![1, 1, 0]) = ⟨0, 0, 0, 1⟩ := fun m => by
    rw [readPixeli, readPixel, if_pos (by decide)]
    rfl
  refine ⟨rfl, by decide, hread, fun h => ?_⟩
  have hone := (hread _).symm.trans (h.readi.read _ rfl fun _ => 1)
  revert hone
  decide

end Agreement

end OpenCRun.ImageAccess
