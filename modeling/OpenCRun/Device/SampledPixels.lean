import OpenCRun.Core.SamplerBuilder
import OpenCRun.Device.ImagePixels
import OpenCRun.Device.SamplerAddressing
/-!
# Pixels in kernels

A kernel reads an image through the word that is behind the pointer of a
sampler, and writes single pixels. Commands of the host and writes of kernels
draw on the same canvas; a read finds the pixel of it that the word picks.
Coordinates are rational numbers and nothing is rounded, where the library has
floats.
-/
open Lib Lib.Bytes Lib.BinaryFormat OpenCRun.CPUThread OpenCRun.KernelArgs.Stub OpenCRun.ImageAccess
open OpenCRun.ImagePixels OpenCRun.SamplerAddressing

namespace OpenCRun.SampledPixels

/-! ## The word of a sampler -/

/-- The table of the host, with the host's flags. -/
def samplerLUT : List DeviceSampler :=
  [0x00, 0x01, 0x02, 0x03, 0x04, 0x05, 0x06, 0x07,
    0x08, 0x09, 0x0A, 0x0B, 0x0C, 0x0D, 0x0E, 0x0F,
    0x10, 0x11, 0x12, 0x13, 0x14, 0x15, 0x16, 0x17,
    0x18, 0x19, 0x1A, 0x1B, 0x1C, 0x1D, 0x1E, 0x1F]

/-- Of samplers in the source of a kernel. -/
def translateSamplerInitializer (initVal : DeviceSampler) : Pointer := .samplerLUT initVal.toNat

/-- `*(device_sampler_t *) sampler`, where the pointer is to an entry of the table. -/
def deviceSampler : Pointer → Option DeviceSampler
  | .samplerLUT i => samplerLUT[i]?
  | _ => none

def clkFilterLinear : DeviceSampler := 0x100

/-- `dev_sampler & CLK_FILTER_LINEAR` -/
def isLinear (devSampler : DeviceSampler) : Bool := devSampler &&& clkFilterLinear != 0

/-- `CLK_NORMALIZED_COORDS_x | CLK_ADDRESS_x | CLK_FILTER_x`, with the flags of the library. -/
def literal (normalized : Bool) (mode : DeviceSampler) (linear : Bool) : DeviceSampler :=
  (if normalized then clkNormalizedCoordsTrue else 0) ||| mode ||| (if linear then clkFilterLinear else 0)

/-! ## Reads -/

section Reads
variable {V : Type}

/-- `read_imagei`, `read_imageui`, and `read_imagef` with integers. -/
def readImage (P : PixelType V) (m : Memory 64) (devImage : DeviceImage) (devSampler : DeviceSampler) (coord : Vec4 ℚ) :
    Checked (Vec4 V) := do
  let coord4 ← applyFilterNearest devImage devSampler coord
  pure (readPixel P m devImage coord4)

/-- `read_imagef` of `Image.cl`, for an image with `size` coordinates. -/
def readImagef (ops : FloatOps ℚ) (m : Memory 64) (devImage : DeviceImage) (devSampler : DeviceSampler) (coord : Vec4 ℚ)
    (size : Nat) : Checked (Vec4 ℚ) :=
  if isLinear devSampler then applyFilterLinear devImage devSampler coord (readPixelf ops m devImage) size
  else readImage ops.pixelsf m devImage devSampler coord

end Reads

/-- Coordinates in texels, where those of the sampler may be normalized. The product is exact; the one of floats may
be rounded into the next texel. -/
def position (normalized : Bool) (devImage : DeviceImage) (coord : Vec4 ℚ) : Fin 3 → ℚ :=
  if normalized then ![coord.x * devImage.width.toNat, coord.y * devImage.height.toNat, coord.z * devImage.depth.toNat]
  else ![coord.x, coord.y, coord.z]

/-- The coordinates are in a texel. The last one is not looked at, but it is converted. -/
structure Hits (normalized : Bool) (devImage : DeviceImage) (coord : Vec4 ℚ) (p : Fin 3 → Nat) : Prop where
  texel : ∀ d, ⌊position normalized devImage coord d⌋ = p d
  last : |coord.w| < 2 ^ 31

/-! ## The texel that is picked -/

section Axes
variable {size : BitVec 32} {c : ℚ} {k : Nat}

theorem convertInt_of_truncate {n : Int} (hn : truncate c = n) (hrange : CInteger.IntType.int.InRange n) :
    convertInt c = pure (BitVec.ofInt 32 n) := by
  rw [← convertInt_intCast hrange, convertInt, convertInt, hn, truncate_intCast]

theorem inRange_natCast (hk : k < 2 ^ 31) : CInteger.IntType.int.InRange k := by
  have hmin : CInteger.IntType.int.minValue = -2 ^ 31 := rfl
  have hmax : CInteger.IntType.int.maxValue = 2 ^ 31 - 1 := rfl
  unfold CInteger.IntType.InRange
  omega

theorem nonneg_of_floor (h : ⌊c⌋ = k) : 0 ≤ c := Int.floor_nonneg.1 (h ▸ Int.natCast_nonneg k)

/-- Positions that are not negative are cut off, as by the floor. -/
theorem convertInt_of_floor (h : ⌊c⌋ = k) (hk : k < 2 ^ 31) : convertInt c = pure (BitVec.ofNat 32 k) := by
  have htruncate : truncate c = k := by rw [truncate, if_pos (nonneg_of_floor h), h]
  rw [convertInt_of_truncate htruncate (inRange_natCast hk), BitVec.ofInt_natCast]

theorem convertInt_floor (h : ⌊c⌋ = k) (hk : k < 2 ^ 31) : convertInt (⌊c⌋ : ℚ) = pure (BitVec.ofNat 32 k) :=
  convertInt_of_floor (by rw [Int.floor_intCast, h]) hk

/-- The last coordinate is converted, whatever it is then used for. -/
theorem convertInt_last (h : |c| < 2 ^ 31) : (∃ l, convertInt c = pure l) ∧ ∃ l, convertInt (⌊c⌋ : ℚ) = pure l := by
  obtain ⟨hlo, hhi⟩ := abs_lt.1 h
  have hmin : CInteger.IntType.int.minValue = -2 ^ 31 := rfl
  have hmax : CInteger.IntType.int.maxValue = 2 ^ 31 - 1 := rfl
  have hfloor : -2 ^ 31 ≤ ⌊c⌋ ∧ ⌊c⌋ < 2 ^ 31 :=
    ⟨Int.le_floor.2 (by push_cast; exact hlo.le), Int.floor_lt.2 (by push_cast; exact hhi)⟩
  have htruncate : -2 ^ 31 ≤ truncate c ∧ truncate c < 2 ^ 31 := by
    rw [truncate]
    split
    · exact hfloor
    · next hneg =>
      have hceil : ⌈c⌉ ≤ 0 := Int.ceil_le.2 (by push_cast; exact (not_le.1 hneg).le)
      exact ⟨hfloor.1.trans (Int.floor_le_ceil c), by omega⟩
  refine ⟨⟨_, convertInt_of_truncate rfl ?_⟩, _, convertInt_intCast ?_⟩
  · unfold CInteger.IntType.InRange
    omega
  · unfold CInteger.IntType.InRange
    omega

theorem clamp_of_within {x lo hi : BitVec 32} (hlo : lo.toInt ≤ x.toInt) (hhi : x.toInt ≤ hi.toInt) : clamp x lo hi = x := by
  refine BitVec.eq_of_toInt_eq ?_
  rw [clamp, toInt_minInt, toInt_maxInt]
  omega

theorem clamp_texel (h : IsSize size) (hk : k < size.toNat) :
    clamp (BitVec.ofNat 32 k) 0 (size - 1) = BitVec.ofNat 32 k ∧ clamp (BitVec.ofNat 32 k) (-1) size = BitVec.ofNat 32 k := by
  have hlt := h.2
  have hint : (BitVec.ofNat 32 k).toInt = k := toInt_coord (by omega)
  have hlast := h.toInt_sub_one
  have hsize := h.toInt
  have hzero : (0 : BitVec 32).toInt = 0 := rfl
  have hminus : (-1 : BitVec 32).toInt = -1 := rfl
  exact ⟨clamp_of_within (by omega) (by omega), clamp_of_within (by omega) (by omega)⟩

/-- A normalized coordinate of a texel is between zero and one. -/
theorem coord_bounds (h : ⌊c * size.toNat⌋ = k) (hk : k < size.toNat) : 0 ≤ c ∧ c < 1 := by
  have hsize : (0 : ℚ) < size.toNat := by exact_mod_cast Nat.zero_lt_of_lt hk
  have hlt : c * size.toNat < size.toNat := by
    have hfloor : ⌊c * size.toNat⌋ < (size.toNat : Int) := by rw [h]; exact_mod_cast hk
    exact_mod_cast Int.floor_lt.1 hfloor
  exact ⟨nonneg_of_mul_nonneg_left (nonneg_of_floor h) hsize, lt_of_mul_lt_mul_right (by rwa [one_mul]) hsize.le⟩

theorem repeatTexel_of_floor (hsize : IsSize size) (h : ⌊c * size.toNat⌋ = k) (hk : k < size.toNat) :
    repeatTexel c size = k := by
  have hposition : repeatPosition c size = c * size.toNat := by
    rw [repeatPosition, Int.floor_eq_zero_iff.2 (coord_bounds h hk), Int.cast_zero, sub_zero]
  have hlast : ¬ (((k : Int) : ℚ) > (size - 1).toNat) := by
    rw [hsize.toNat_sub_one, not_lt]
    exact_mod_cast (by omega : k ≤ size.toNat - 1)
  rw [repeatTexel, hposition, h, if_neg hlast, Int.cast_natCast]

theorem mirroredTexel_of_floor (hsize : IsSize size) (h : ⌊c * size.toNat⌋ = k) (hk : k < size.toNat) :
    mirroredTexel c size = k := by
  obtain ⟨hlo, hhi⟩ := coord_bounds h hk
  have hfract : Int.fract (c / 2) = c / 2 := Int.fract_eq_self.2 ⟨by linarith, by linarith⟩
  have hposition : mirroredPosition c size = c * size.toNat := by
    rw [mirroredPosition_eq, hfract, min_eq_left (by linarith)]
    ring
  rw [mirroredTexel, hposition, h, hsize.toNat_sub_one, Int.cast_natCast]
  exact min_eq_left (by exact_mod_cast (by omega : k ≤ size.toNat - 1))

end Axes

section Nearest
variable {devImage : DeviceImage} {devSampler : DeviceSampler} {coord : Vec4 ℚ} {p : Fin 3 → Nat}

/-- The sizes of the header on the axes of a pixel. -/
def sizes (devImage : DeviceImage) : Fin 3 → BitVec 32 := ![devImage.width, devImage.height, devImage.depth]

/-- The texel of a pixel, with a last component that no read looks at. -/
def texel (p : Fin 3 → Nat) (l : BitVec 32) : Vec4 (BitVec 32) := { coordOf p with w := l }

theorem convertInt4_texel {x y z w : ℚ} {l : BitVec 32} (hx : convertInt x = pure (BitVec.ofNat 32 (p 0)))
    (hy : convertInt y = pure (BitVec.ofNat 32 (p 1))) (hz : convertInt z = pure (BitVec.ofNat 32 (p 2)))
    (hw : convertInt w = pure l) : convertInt4 ⟨x, y, z, w⟩ = pure (texel p l) := by
  simp only [convertInt4, hx, hy, hz, hw, pure_bind]
  rfl

theorem readPixel_texel {V : Type} (P : PixelType V) (m : Memory 64) (l : BitVec 32) :
    readPixel P m devImage (texel p l) = readPixel P m devImage (coordOf p) := rfl

/-- A mode that clamps leaves texels of the image where they are. -/
theorem addressMode_texel (hsize : Sized devImage) (hp : ∀ d, p d < (sizes devImage d).toNat) (l : BitVec 32) :
    ∃ l', addressMode devImage devSampler (texel p l) = texel p l' := by
  have hx := clamp_texel hsize.width (hp 0)
  have hy := clamp_texel hsize.height (hp 1)
  have hz := clamp_texel hsize.depth (hp 2)
  unfold addressMode
  split
  · exact ⟨l, rfl⟩
  split
  · exact ⟨_, by rw [clamp4]; simp only [texel, coordOf, hx.2, hy.2, hz.2]; rfl⟩
  split
  · exact ⟨_, by rw [clamp4]; simp only [texel, coordOf, hx.1, hy.1, hz.1]; rfl⟩
  · exact ⟨l, rfl⟩

/-- What the filter makes of coordinates that are in a texel of the image. -/
theorem coordTmp_hits (hsize : Sized devImage) (hp : ∀ d, p d < (sizes devImage d).toNat)
    (h : Hits (isNormalized devSampler) devImage coord p) :
    ⌊(coordTmp devImage devSampler coord).x⌋ = p 0 ∧ ⌊(coordTmp devImage devSampler coord).y⌋ = p 1 ∧
      ⌊(coordTmp devImage devSampler coord).z⌋ = p 2 ∧ |(coordTmp devImage devSampler coord).w| < 2 ^ 31 := by
  have hx := h.texel 0
  have hy := h.texel 1
  have hz := h.texel 2
  have hzero : |(0 : ℚ)| < 2 ^ 31 := by norm_num
  unfold coordTmp
  cases hn : isNormalized devSampler with
  | false =>
    rw [hn] at hx hy hz
    exact ⟨hx, hy, hz, h.last⟩
  | true =>
    rw [hn] at hx hy hz
    simp only [if_true]
    split
    · rw [repeatTexel_of_floor hsize.width hx (hp 0), repeatTexel_of_floor hsize.height hy (hp 1),
        repeatTexel_of_floor hsize.depth hz (hp 2)]
      exact ⟨Int.floor_natCast _, Int.floor_natCast _, Int.floor_natCast _, hzero⟩
    split
    · rw [mirroredTexel_of_floor hsize.width hx (hp 0), mirroredTexel_of_floor hsize.height hy (hp 1),
        mirroredTexel_of_floor hsize.depth hz (hp 2)]
      exact ⟨Int.floor_natCast _, Int.floor_natCast _, Int.floor_natCast _, hzero⟩
    · exact ⟨hx, hy, hz, hzero⟩

/-- All modes pick the texel that the coordinates are in, if it is one of the image. -/
theorem nearest_hits (hsize : Sized devImage) (hp : ∀ d, p d < (sizes devImage d).toNat)
    (h : Hits (isNormalized devSampler) devImage coord p) :
    ∃ l, applyFilterNearest devImage devSampler coord = pure (texel p l) := by
  obtain ⟨hx, hy, hz, hw⟩ := coordTmp_hits hsize hp h
  have hltx : p 0 < 2 ^ 31 := (hp 0).trans hsize.width.2
  have hlty : p 1 < 2 ^ 31 := (hp 1).trans hsize.height.2
  have hltz : p 2 < 2 ^ 31 := (hp 2).trans hsize.depth.2
  obtain ⟨⟨l, hl⟩, l', hl'⟩ := convertInt_last hw
  unfold applyFilterNearest
  simp only
  split
  · rw [convertInt4_texel (convertInt_floor hx hltx) (convertInt_floor hy hlty) (convertInt_floor hz hltz) hl', pure_bind]
    obtain ⟨l'', hmode⟩ := @addressMode_texel devImage devSampler p hsize hp l'
    exact ⟨l'', congrArg pure hmode⟩
  · exact ⟨l, convertInt4_texel (convertInt_of_floor hx hltx) (convertInt_of_floor hy hlty) (convertInt_of_floor hz hltz) hl⟩

/-- So a read returns the pixel there, whatever the mode is. -/
theorem readImage_hits {V : Type} (P : PixelType V) (m : Memory 64) (hsize : Sized devImage)
    (hp : ∀ d, p d < (sizes devImage d).toNat) (h : Hits (isNormalized devSampler) devImage coord p) :
    readImage P m devImage devSampler coord = pure (readPixel P m devImage (coordOf p)) := by
  obtain ⟨l, hnearest⟩ := nearest_hits hsize hp h
  rw [readImage, hnearest, pure_bind, readPixel_texel]

end Nearest

/-! ## Colours of pixels -/

section Colours
variable {V : Type} (P : PixelType V)

/-- The colour that the bytes of a pixel stand for. -/
def colorIn (fmt : ImageFormat) (c : Channel V) (px : Pixel) : Vec4 V :=
  colorOf P fmt.order fun i => c.decode (ofBytes ((px.drop (i * c.size)).take c.size))

/-- The bytes that a colour is stored as. -/
def pixelOf (fmt : ImageFormat) (c : Channel V) (color : Vec4 V) : Pixel :=
  ((stored (BitVec.ofNat 32 (computeImageNumChannels fmt.order)) (mapChannelsWrite P fmt.order color)).map
    c.encode).flatMap (toBytes c.size)

variable {P} {fmt : ImageFormat} {c : Channel V}

theorem colorOf_congr {order : ChannelOrder} {f g : Nat → V} (h : ∀ i < computeImageNumChannels order, f i = g i) :
    colorOf P order f = colorOf P order g := by
  cases order with
  | r | rx | a | intensity | luminance => simp only [colorOf, h 0 (by decide)]
  | rg | rgx | ra => simp only [colorOf, h 0 (by decide), h 1 (by decide)]
  | rgb | rgbx => simp only [colorOf, h 0 (by decide), h 1 (by decide), h 2 (by decide)]
  | rgba | bgra | argb => simp only [colorOf, h 0 (by decide), h 1 (by decide), h 2 (by decide), h 3 (by decide)]

/-- The bytes that are loaded for a channel are bytes of the pixel. -/
theorem colorOf_load (hP : P.Fitting) (hc : P.channel fmt.dataType = some c) (m : Memory 64) (a : SizeT) :
    colorOf P fmt.order (channelAt c m a) = colorIn P fmt c (load m a fmt.elementSize) := by
  refine colorOf_congr fun i hi => ?_
  have hend : i * c.size + c.size ≤ fmt.elementSize := by
    rw [elementSize_eq hP hc, ← Nat.succ_mul]
    exact Nat.mul_le_mul_right _ hi
  rw [channelAt, take_drop_load hend]

theorem length_pixelOf (hP : P.Fitting) (hc : P.channel fmt.dataType = some c) (color : Vec4 V) :
    (pixelOf P fmt c color).length = fmt.elementSize := by
  rw [pixelOf, length_flatMap (length_toBytes c.size), List.length_map, length_stored, elementSize_eq hP hc]

/-- A colour that is stored and read again. -/
theorem colorIn_pixelOf (hP : P.Fitting) (hc : P.channel fmt.dataType = some c) (color : Vec4 V) :
    colorIn P fmt c (pixelOf P fmt c color) = held P fmt.order (fun v => c.decode (c.encode v)) color := by
  have hsize : fmt.elementSize ≤ 2 ^ 64 := fmt.elementSize_bounds.2.trans (by decide)
  have hload := load_store_all (fun _ => 0) (0 : SizeT) (length_pixelOf hP hc color) hsize
  rw [← hload, ← colorOf_load hP hc]
  exact colorOf_store _ _ _ _ (elementSize_eq hP hc ▸ hsize) _

end Colours

/-! ## Kernels and commands -/

/-- A colour that a kernel writes. -/
inductive Color where
  | int (color : Vec4 Int)
  | uint (color : Vec4 Nat)
  | float (color : Vec4 ℚ)

namespace Color

variable (ops : FloatOps ℚ)

/-- `write_imagei`, `write_imageui` and `write_imagef`. -/
def write (m : Memory 64) (devImage : DeviceImage) (coord : Vec4 (BitVec 32)) : Color → Memory 64
  | int color => writeImage pixelsi m devImage coord color
  | uint color => writeImage pixelsui m devImage coord color
  | float color => writeImage ops.pixelsf m devImage coord color

/-- The pixel that is stored, if the kind has a case for the data type. -/
def pixel (fmt : ImageFormat) : Color → Option Pixel
  | int color => (pixelsi.channel fmt.dataType).map fun c => pixelOf pixelsi fmt c color
  | uint color => (pixelsui.channel fmt.dataType).map fun c => pixelOf pixelsui fmt c color
  | float color => (ops.pixelsf.channel fmt.dataType).map fun c => pixelOf ops.pixelsf fmt c color

end Color

/-- A command of the host, or a write of a kernel. -/
inductive Access where
  | command (call : ImageCall)
  | write (img : ImageObject) (p : Fin 3 → Nat) (color : Color)

/-- A pixel as the origin of a region. -/
def words (p : Fin 3 → Nat) : Fin 3 → SizeT := fun d => BitVec.ofNat 64 (p d)

namespace Access

variable (floats : FillFloats) (ops : FloatOps ℚ)

/-- Kernels write to pixels of images, with offsets of slices that have 32 bits. -/
def Allowed (G : Gallery) : Access → Prop
  | command call => (∃ q, call.Issued q) ∧ G.Admits call
  | write img p _ => img ∈ G.images ∧ (∀ d, p d < img.image.extent d) ∧ img.image.getSlicePitch.toNat * p 2 < 2 ^ 32

def execute (G : Gallery) (m : Memory 64) : Access → Memory 64
  | command call => call.execute floats G m
  | write img p color => color.write ops m (header img.image (G.base img)) (coordOf p)

def Draws : Access → Canvas → Canvas → Prop
  | command call, cv, cv' => call.Draws floats cv cv'
  | write img p color, cv, cv' =>
    cv' = match color.pixel ops img.image.format with
      | some px => cv.paste img (words p) (fun _ => 1) fun _ => px
      | none => cv

def executeAll (G : Gallery) (accesses : List Access) (m : Memory 64) : Memory 64 :=
  accesses.foldl (execute floats ops G) m

/-- One after the other. -/
def DrawAll : List Access → Canvas → Canvas → Prop
  | [], cv, cv' => cv' = cv
  | access :: accesses, cv, cv' => ∃ cv₁, access.Draws floats ops cv cv₁ ∧ DrawAll accesses cv₁ cv'

end Access

section Drawing
variable {floats : FillFloats} {ops : FloatOps ℚ} {G : Gallery} {m : Memory 64} {cv : Canvas} {img : ImageObject}
  {p : Fin 3 → Nat}

theorem sized_of_made (h : Made img) : ImageAccess.Sized img.image :=
  let ⟨_, _, _, himg⟩ := h
  sized_of_computeImage himg

theorem nats_words (hp : ∀ d, p d < img.image.extent d) (hmade : Made img) : nats (words p) = p := by
  obtain ⟨hx, hy, hz⟩ := origin_lt (sized_of_made hmade) hp
  have hwidth := img.image.getWidth.isLt
  refine funext fun d => ?_
  have hd : p d < 2 ^ 64 := by
    match d with
    | 0 => omega
    | 1 => omega
    | 2 => omega
  rw [nats, words, BitVec.toNat_ofNat, Nat.mod_eq_of_lt hd]

/-- The pixel, as a region of its image. -/
theorem pixel_within (hp : ∀ d, p d < img.image.extent d) (hmade : Made img) : Within img (words p) fun _ => 1 := fun d => by
  have hword : (words p d).toNat = p d := congrFun (nats_words hp hmade) d
  rw [hword]
  exact hp d

theorem regionFrom_byte_zero (base : SizeT) (p : Fin 3 → Nat) :
    (regionFrom img base (words p)).byte 0 0 0 = hostAddress img.image base p := by
  simp only [Rectangle.byte, Rectangle.offset, Nat.zero_mul, Nat.add_zero]
  exact BitVec.add_zero _

/-- The host's address of a pixel is that of its first byte. -/
theorem byte_words (base : SizeT) (hp : ∀ d, p d < img.image.extent d) (hmade : Made img) :
    (storage img base).byte (p 0 * ImagePixels.sizeOf img) (p 1) (p 2) = hostAddress img.image base p := by
  have hword : ∀ d, (words p d).toNat = p d := congrFun (nats_words hp hmade)
  have hfirst := @regionFrom_byte img base (words p) 0 0 0
  rw [hword, hword, hword, Nat.add_zero, Nat.add_zero, Nat.add_zero] at hfirst
  rw [← hfirst, regionFrom_byte_zero]

/-- What is stored at the address of a pixel pastes that pixel. -/
theorem shows_stored (h : Shows G m cv) (himg : img ∈ G.images) (hp : ∀ d, p d < img.image.extent d) {px : Pixel}
    (hpx : px.length = img.image.format.elementSize) :
    Shows G (store m (hostAddress img.image (G.base img) p) px) (cv.paste img (words p) (fun _ => 1) fun _ => px) := by
  have hfirst := @regionFrom_byte_zero img (G.base img) p
  have hsize : img.image.format.elementSize ≤ 16 := img.image.format.elementSize_bounds.2
  have hwidth : (1 : SizeT).toNat * img.image.format.elementSize < 2 ^ 64 := by
    rw [show (1 : SizeT).toNat = 1 from rfl]
    omega
  refine h.pasted himg (pixel_within hp (G.made img himg)) (fun p' hp' => ?_) fun a ha _ => store_frame fun k hk heq => ha ?_
  · have hzero : p' = 0 := funext fun d => Nat.lt_one_iff.1 (hp' d)
    subst hzero
    simp only [pixels, Pi.zero_apply, Nat.zero_mul, hfirst]
    exact load_store_all _ _ hpx (hsize.trans (by decide))
  · have hmem := @byte_mem (regionFrom img (G.base img) (words p)) _ (fun _ => 1) 0 hwidth (fun _ => Nat.one_pos) k
      (hpx ▸ hk)
    rwa [← Rectangle.byte_add, Pi.zero_apply, Nat.zero_mul, Pi.zero_apply, Pi.zero_apply, hfirst, ← heq] at hmem

/-- A write of a kernel pastes its pixel. -/
theorem shows_writeImage {V : Type} {P : PixelType V} (hP : P.Fitting) (h : Shows G m cv) (himg : img ∈ G.images)
    (hp : ∀ d, p d < img.image.extent d) (hslice : img.image.getSlicePitch.toNat * p 2 < 2 ^ 32) (color : Vec4 V) :
    Shows G (writeImage P m (header img.image (G.base img)) (coordOf p) color)
      (match (P.channel img.image.format.dataType).map fun c => pixelOf P img.image.format c color with
        | some px => cv.paste img (words p) (fun _ => 1) fun _ => px
        | none => cv) := by
  have haddress := (@same_iff img.image (G.base img) p (sized_of_made (G.made img himg)) hp).2 hslice
  have hdata : (header img.image (G.base img)).imageChannelDataType = img.image.format.dataType := rfl
  rw [writeImage, writePixel, hdata, haddress]
  cases hc : P.channel img.image.format.dataType with
  | none => exact h
  | some c => exact shows_stored h himg hp (length_pixelOf hP hc color)

theorem step_draws (floats : FillFloats) (ops : FloatOps ℚ) {access : Access} (h : Shows G m cv)
    (hallowed : access.Allowed G) : ∃ cv', access.Draws floats ops cv cv' ∧ Shows G (access.execute floats ops G m) cv' := by
  cases access with
  | command call => exact ImagePixels.step_draws floats h hallowed.1 hallowed.2
  | write img p color =>
    obtain ⟨himg, hp, hslice⟩ := hallowed
    refine ⟨_, rfl, ?_⟩
    cases color with
    | int color => exact shows_writeImage fitting_pixelsi h himg hp hslice color
    | uint color => exact shows_writeImage fitting_pixelsui h himg hp hslice color
    | float color => exact shows_writeImage ops.fitting_pixelsf h himg hp hslice color

theorem run_draws (floats : FillFloats) (ops : FloatOps ℚ) {accesses : List Access} (h : Shows G m cv)
    (hallowed : ∀ access ∈ accesses, access.Allowed G) :
    ∃ cv', Access.DrawAll floats ops accesses cv cv' ∧ Shows G (Access.executeAll floats ops G accesses m) cv' := by
  induction accesses generalizing m cv with
  | nil => exact ⟨cv, rfl, h⟩
  | cons access accesses ih =>
    rw [List.forall_mem_cons] at hallowed
    obtain ⟨cv₁, hdraws, h₁⟩ := step_draws floats ops h hallowed.1
    obtain ⟨cv', hall, h'⟩ := ih h₁ hallowed.2
    exact ⟨cv', ⟨cv₁, hdraws, hall⟩, h'⟩

end Drawing

/-! ## What kernels read -/

/-- Reads through a word return the colour of a pixel, those of the kinds that have a case for the data type. -/
structure Reads (ops : FloatOps ℚ) (m : Memory 64) (img : Image) (base : SizeT) (w : DeviceSampler) (coord : Vec4 ℚ)
    (px : Pixel) : Prop where
  readi : ∀ c, pixelsi.channel img.format.dataType = some c →
    readImage pixelsi m (header img base) w coord = pure (colorIn pixelsi img.format c px)
  readui : ∀ c, pixelsui.channel img.format.dataType = some c →
    readImage pixelsui m (header img base) w coord = pure (colorIn pixelsui img.format c px)
  readf : ∀ c, ops.pixelsf.channel img.format.dataType = some c → ∀ size,
    readImagef ops m (header img base) w coord size = pure (colorIn ops.pixelsf img.format c px)

section Reading
variable {floats : FillFloats} {ops : FloatOps ℚ} {G : Gallery} {m : Memory 64} {cv : Canvas} {img : ImageObject}
  {w : DeviceSampler} {coord : Vec4 ℚ} {p : Fin 3 → Nat}

theorem isSize_fixup {v : SizeT} (h : v.toNat < 2 ^ 31) : IsSize ((fixup v).setWidth 32) := by
  have hnat := toNat_fixup (v := v) (by omega)
  unfold IsSize
  split at hnat <;> omega

theorem header_sized (h : ImageAccess.Sized img.image) (base : SizeT) : Sized (header img.image base) where
  width := isSize_fixup ((ImageAccess.width_lt h).trans (by decide))
  height := isSize_fixup (h.height.trans (by decide))
  depth := isSize_fixup (h.depth.trans (by decide))

/-- A pixel that is not outside of the header is below its sizes. -/
theorem lt_sizes (h : ImageAccess.Sized img.image) (hp : ∀ d, p d < img.image.extent d) {base : SizeT}
    (hinside : outside (header img.image base) (coordOf p) = false) :
    ∀ d, p d < (sizes (header img.image base) d).toNat := by
  obtain ⟨hx, hy, hz⟩ := origin_lt h hp
  have hwidth := ImageAccess.width_lt h
  have hsized := header_sized h base
  simp only [outside, Bool.or_eq_false_iff, decide_eq_false_iff_not, coordOf, hsized.width.toInt, hsized.height.toInt,
    hsized.depth.toInt, toInt_coord (show p 0 < 2 ^ 31 by omega), toInt_coord (show p 1 < 2 ^ 31 by omega),
    toInt_coord (show p 2 < 2 ^ 31 by omega)] at hinside
  refine forall_axes ?_ ?_ ?_
  · exact_mod_cast not_le.1 hinside.1.1.2
  · exact_mod_cast not_le.1 hinside.1.2.2
  · exact_mod_cast not_le.1 hinside.2.2

/-- Where coordinates are in a covered pixel, a read returns the colour of the pixel that the canvas shows. -/
theorem readImage_shown {V : Type} {P : PixelType V} (hP : P.Fitting) (h : Shows G m cv) (himg : img ∈ G.images)
    (hp : ∀ d, p d < img.image.extent d) (hcovered : Covered img.image p)
    (hhits : Hits (isNormalized w) (header img.image (G.base img)) coord p) {c : Channel V}
    (hc : P.channel img.image.format.dataType = some c) :
    readImage P m (header img.image (G.base img)) w coord = pure (colorIn P img.image.format c (cv.images img p)) := by
  have hmade := G.made img himg
  have hsized := sized_of_made hmade
  have hinside := (@outside_eq_false img.image (G.base img) p hsized hp).2 ⟨hcovered.array1D, hcovered.array2D⟩
  have haddress := (@same_iff img.image (G.base img) p hsized hp).2 hcovered.slice
  have hpixel : pixels (storage img (G.base img)) (ImagePixels.sizeOf img) m p =
      load m (hostAddress img.image (G.base img) p) img.image.format.elementSize := by
    rw [pixels, byte_words _ hp hmade]
  rw [readImage_hits P m (header_sized hsized _) (lt_sizes hsized hp hinside) hhits, ← h.images img himg p hp, hpixel,
    ← colorOf_load hP hc]
  exact congrArg pure ((returns hP (fun _ hc => hc) haddress hinside).read c hc m)

/-- No word of the table has the library's linear filter. -/
theorem isLinear_of_mem (h : w ∈ samplerLUT) : isLinear w = false := by
  have hall : samplerLUT.all (fun w => !isLinear w) = true := rfl
  simpa using List.all_eq_true.1 hall w h

theorem reads_shown (ops : FloatOps ℚ) (h : Shows G m cv) (himg : img ∈ G.images) (hp : ∀ d, p d < img.image.extent d)
    (hcovered : Covered img.image p) (hw : w ∈ samplerLUT)
    (hhits : Hits (isNormalized w) (header img.image (G.base img)) coord p) :
    Reads ops m img.image (G.base img) w coord (cv.images img p) where
  readi _ hc := readImage_shown fitting_pixelsi h himg hp hcovered hhits hc
  readui _ hc := readImage_shown fitting_pixelsui h himg hp hcovered hhits hc
  readf c hc size := by
    rw [readImagef, isLinear_of_mem hw]
    exact readImage_shown ops.fitting_pixelsf h himg hp hcovered hhits hc

theorem deviceSampler_of_lt {i : Nat} (h : i < 32) : deviceSampler (.samplerLUT i) = some (BitVec.ofNat 32 i) := by
  have htable : samplerLUT = (List.range 32).map (BitVec.ofNat 32) := by decide +kernel
  rw [deviceSampler, htable, List.getElem?_map, List.getElem?_range h, Option.map_some]

theorem mem_samplerLUT {ptr : Pointer} (h : deviceSampler ptr = some w) : w ∈ samplerLUT := by
  cases ptr with
  | samplerLUT i => exact List.mem_of_getElem? h
  | _ => cases h

/-- The device takes the host's flag of the linear filter for its own of normalized coordinates. -/
theorem isNormalized_flags (s : Sampler) :
    isNormalized (BitVec.ofNat 32 s.flags) = decide (s.filterMode = .filterLinear) := by
  obtain ⟨coords, addressing, filter⟩ := s
  cases coords <;> cases addressing <;> cases filter <;> rfl

theorem word_of_created (s : Sampler) :
    deviceSampler (getCPUSampler (some s)) = some (BitVec.ofNat 32 s.flags) := deviceSampler_of_lt s.flags_lt

/-- Reads take coordinates as a sampler with such coordinates is asked to. The filter that is asked for is not
compared: what is read is the pixel that the coordinates are in. -/
def AsAsked (ops : FloatOps ℚ) (normalized : Bool) (w : DeviceSampler) : Prop :=
  ∀ (G : Gallery) (m : Memory 64) (cv : Canvas), Shows G m cv → ∀ img ∈ G.images, ∀ p, (∀ d, p d < img.image.extent d) →
    Covered img.image p → ∀ coord, Hits normalized (header img.image (G.base img)) coord p →
      Reads ops m img.image (G.base img) w coord (cv.images img p)

end Reading

/-! ## What was asked for -/

/-- The middle of the first pixel of an image of four by four, or the edge of its third one. -/
def half : Vec4 ℚ := ⟨1 / 2, 1 / 2, 0, 0⟩

/-- The pixel that the coordinates are in. -/
def halfPixel (normalized : Bool) : Fin 3 → Nat := if normalized then ![2, 2, 0] else ![0, 0, 0]

theorem half_hits (normalized : Bool) : Hits normalized (header smallImage.image (smallGallery.base smallImage)) half
    (halfPixel normalized) where
  texel d := by
    cases normalized with
    | false =>
      match d with
      | 0 | 1 => norm_num [position, half, halfPixel]
      | 2 => simp [position, half, halfPixel]
    | true =>
      have hwidth : (header smallImage.image (smallGallery.base smallImage)).width.toNat = 4 := rfl
      have hheight : (header smallImage.image (smallGallery.base smallImage)).height.toNat = 4 := rfl
      match d with
      | 0 => norm_num [position, half, halfPixel, hwidth]
      | 1 => norm_num [position, half, halfPixel, hheight]
      | 2 => simp [position, half, halfPixel]
  last := by norm_num [half]

theorem halfPixel_covered (normalized : Bool) :
    (∀ d, halfPixel normalized d < smallImage.image.extent d) ∧ Covered smallImage.image (halfPixel normalized) := by
  cases normalized with
  | false => exact ⟨by decide, nofun, nofun, by decide, nofun⟩
  | true => exact ⟨by decide, nofun, nofun, by decide, nofun⟩

theorem half_color {c : Channel Nat} (hc : pixelsui.channel smallImage.image.format.dataType = some c) (normalized : Bool) :
    (colorIn pixelsui smallImage.image.format c
      ((canvasOf smallGallery numbered).images smallImage (halfPixel normalized))).x = if normalized then 10 else 0 := by
  cases hc
  cases normalized <;> decide

/-- A word reads as asked if it has normalized coordinates where they are asked for, and only then. -/
theorem asAsked_iff {ops : FloatOps ℚ} {w : DeviceSampler} (hw : w ∈ samplerLUT) (normalized : Bool) :
    AsAsked ops normalized w ↔ isNormalized w = normalized := by
  constructor
  · intro h
    have hshows := shows_canvasOf smallGallery numbered
    obtain ⟨hp, hcovered⟩ := halfPixel_covered normalized
    obtain ⟨hp', hcovered'⟩ := halfPixel_covered (isNormalized w)
    have hasked := (h _ _ _ hshows smallImage rfl _ hp hcovered half (half_hits normalized)).readui _ rfl
    rw [readImage_shown fitting_pixelsui hshows rfl hp' hcovered' (half_hits (isNormalized w)) rfl] at hasked
    have hx := congrArg Vec4.x (congrArg Checked.val hasked)
    simp only [Checked.val_pure, half_color rfl] at hx
    cases hn : isNormalized w <;> cases normalized <;> simp_all
  · rintro rfl G m cv hshows img himg p hp hcovered coord hhits
    exact reads_shown ops hshows himg hp hcovered hw hhits

/-- Numbers as floats of the same value. -/
def wholes : FloatOps ℚ where
  zero := 0
  one := 1
  decode _ n := n
  encode t v := ⟨⌊v⌋.toNat % 256 ^ computeImageChannelSizeInBytes t, Nat.mod_lt _ (Nat.pow_pos (by decide))⟩
  ne_zero t := ⟨1, by cases t <;> decide, by norm_num⟩

theorem filterOf_eq_linear {v : BitVec 32} : filterOf v = .filterLinear ↔ v = clFilterLinear := by
  unfold filterOf
  split
  · next h => subst h; decide
  · split
    · next h => simp [h]
    · next h => simp [h]

def modes : List DeviceSampler :=
  [clkAddressNone, clkAddressMirroredRepeat, clkAddressRepeat, clkAddressClampToEdge, clkAddressClamp]

/-- What a literal is for the library, and for the table of the host. -/
theorem literal_flags {mode : DeviceSampler} (h : mode ∈ modes) (normalized linear : Bool) :
    isNormalized (literal normalized mode linear) = normalized ∧
      ((literal normalized mode linear).toNat < 32 ↔ linear = false) := by
  simp only [modes, List.mem_cons, List.not_mem_nil, or_false] at h
  rcases h with rfl | rfl | rfl | rfl | rfl <;> cases normalized <;> cases linear <;> decide

theorem word_of_literal {mode : DeviceSampler} (h : mode ∈ modes) (normalized linear : Bool) :
    deviceSampler (translateSamplerInitializer (literal normalized mode linear)) =
      if linear then none else some (literal normalized mode linear) := by
  have hlt := (literal_flags h normalized linear).2
  cases linear with
  | false =>
    rw [translateSamplerInitializer, deviceSampler_of_lt (hlt.2 rfl), BitVec.ofNat_toNat, BitVec.setWidth_eq]
    rfl
  | true =>
    have hge : samplerLUT.length ≤ (literal normalized mode true).toNat := not_lt.1 fun h => Bool.noConfusion (hlt.1 h)
    exact List.getElem?_eq_none hge

/-- A sampler that was created takes coordinates as it was asked to exactly if it has normalized coordinates and the
linear filter, or neither of them. One in the source of a kernel does so with the nearest filter, and is not in the table
with the linear one. -/
theorem samplers_as_asked_iff {context : Option (List DeviceInfo)} {normalizedCoords addressingMode filterMode : BitVec 32}
    {s : Sampler} (ops : FloatOps ℚ)
    (h : clCreateSampler context normalizedCoords addressingMode filterMode = .ok s) :
    (∃ w, deviceSampler (getCPUSampler (some s)) = some w ∧
      (AsAsked ops (normalizedCoords != 0) w ↔ (normalizedCoords ≠ 0 ↔ filterMode = clFilterLinear))) ∧
    ∀ mode ∈ modes, ∀ normalized linear w,
      deviceSampler (translateSamplerInitializer (literal normalized mode linear)) = some w ↔
        linear = false ∧ w = literal normalized mode linear ∧ AsAsked ops normalized w := by
  obtain ⟨-, rfl⟩ := clCreateSampler_ok_iff.1 h
  constructor
  · refine ⟨_, word_of_created _, ?_⟩
    rw [asAsked_iff (mem_samplerLUT (word_of_created _)), isNormalized_flags, ← filterOf_eq_linear]
    by_cases hlinear : filterOf filterMode = .filterLinear <;> by_cases hcoords : normalizedCoords = 0 <;>
      simp [hlinear, hcoords]
  · intro mode hmode normalized linear w
    have hword := word_of_literal hmode normalized linear
    cases linear with
    | true => simp [hword]
    | false =>
      have hmem := mem_samplerLUT hword
      have hasked : AsAsked ops normalized (literal normalized mode false) :=
        (asAsked_iff hmem normalized).2 (literal_flags hmode normalized false).1
      rw [hword]
      constructor
      · rintro ⟨⟩
        exact ⟨rfl, rfl, hasked⟩
      · rintro ⟨-, rfl, -⟩
        rfl

theorem samplers_as_asked_nearest :
    ∃ w, deviceSampler (getCPUSampler (some ⟨true, .addressClamp, .filterNearest⟩)) = some w ∧
      (AsAsked wholes true w ↔ ((1 : BitVec 32) ≠ 0 ↔ clFilterNearest = clFilterLinear)) :=
  (samplers_as_asked_iff wholes (show clCreateSampler (some (contextDevices 1)) 1 clAddressClamp clFilterNearest =
    .ok ⟨true, .addressClamp, .filterNearest⟩ from rfl)).1

/-! ## What is drawn is read -/

/-- The access draws nothing on the pixel. -/
def Access.Spares (img : ImageObject) (p : Fin 3 → Nat) : Access → Prop
  | command call => call.Spares img (words p) fun _ => 1
  | write img' p' _ => img' = img → p' ≠ p

/-- A colour comes back as the format holds it, for the kinds that have a case for the data type. -/
def Color.ReadBack (ops : FloatOps ℚ) (m : Memory 64) (img : Image) (base : SizeT) (w : DeviceSampler) (coord : Vec4 ℚ) :
    Color → Prop
  | int color => ∀ c, pixelsi.channel img.format.dataType = some c →
    readImage pixelsi m (header img base) w coord = pure (held pixelsi img.format.order (fun v => c.decode (c.encode v)) color)
  | uint color => ∀ c, pixelsui.channel img.format.dataType = some c →
    readImage pixelsui m (header img base) w coord =
      pure (held pixelsui img.format.order (fun v => c.decode (c.encode v)) color)
  | float color => ∀ c, ops.pixelsf.channel img.format.dataType = some c → ∀ size,
    readImagef ops m (header img base) w coord size =
      pure (held ops.pixelsf img.format.order (fun v => c.decode (c.encode v)) color)

section
variable {floats : FillFloats} {ops : FloatOps ℚ} {G : Gallery} {accesses : List Access} {img : ImageObject}
  {p : Fin 3 → Nat} {cv cv' : Canvas}

/-- Commands of the host and writes of kernels, one after the other, draw on one canvas. A read of a kernel through any
word of the table then returns the pixel of the canvas that its coordinates are in, in every addressing mode. -/
theorem kernels_read_canvas (m : Memory 64) (hallowed : ∀ access ∈ accesses, access.Allowed G) :
    ∃ cv, Access.DrawAll floats ops accesses (canvasOf G m) cv ∧ Shows G (Access.executeAll floats ops G accesses m) cv ∧
      ∀ img ∈ G.images, ∀ p, (∀ d, p d < img.image.extent d) → Covered img.image p →
        ∀ ptr w, deviceSampler ptr = some w →
          ∀ coord, Hits (isNormalized w) (header img.image (G.base img)) coord p →
            Reads ops (Access.executeAll floats ops G accesses m) img.image (G.base img) w coord (cv.images img p) := by
  obtain ⟨cv, hdraws, hshows⟩ := run_draws floats ops (shows_canvasOf G m) hallowed
  refine ⟨cv, hdraws, hshows, ?_⟩
  intro img himg p hp hcovered ptr w hw coord hhits
  exact reads_shown ops hshows himg hp hcovered (mem_samplerLUT hw) hhits

theorem paste_other {px : Pixel} {img' : ImageObject} {p' : Fin 3 → Nat} (hmade : Made img)
    (hp' : ∀ d, p' d < img'.image.extent d) (hspares : img' = img → p' ≠ p) :
    (cv.paste img' (words p') (fun _ => 1) fun _ => px).images img p = cv.images img p := by
  by_cases heq : img' = img
  · subst heq
    simp only [Canvas.paste, Function.update_self]
    refine Raster.paste_of_notMem fun hmem => hspares rfl (funext fun d => ?_)
    have hd := Raster.mem_box.1 hmem d
    rw [nats_words hp' hmade] at hd
    have hone : nats (fun _ => 1 : Fin 3 → SizeT) d = 1 := rfl
    omega
  · simp only [Canvas.paste, Function.update_of_ne (Ne.symm heq)]

/-- What spares a pixel leaves it on the canvas as it is. -/
theorem draws_spared {access : Access} (hp : ∀ d, p d < img.image.extent d) (hmade : Made img)
    (hallowed : access.Allowed G) (h : access.Draws floats ops cv cv') (hspares : access.Spares img p) :
    cv'.images img p = cv.images img p := by
  cases access with
  | command call =>
    have hcut := ImagePixels.draws_spared h hspares (p := 0) fun _ => Nat.one_pos
    rwa [Raster.cut, Raster.cut, nats_words hp hmade, add_zero] at hcut
  | write img' p' color =>
    obtain ⟨himg, hp', -⟩ := hallowed
    subst h
    split
    · exact paste_other hmade hp' hspares
    · rfl

theorem drawAll_spared (hp : ∀ d, p d < img.image.extent d) (hmade : Made img)
    (hallowed : ∀ access ∈ accesses, access.Allowed G) (h : Access.DrawAll floats ops accesses cv cv')
    (hspares : ∀ access ∈ accesses, access.Spares img p) : cv'.images img p = cv.images img p := by
  induction accesses generalizing cv with
  | nil => rw [h]
  | cons access accesses ih =>
    rw [List.forall_mem_cons] at hallowed hspares
    obtain ⟨cv₁, hdraws, hall⟩ := h
    rw [ih hallowed.2 hall hspares.2, draws_spared hp hmade hallowed.1 hdraws hspares.1]

/-- The pixel that a write leaves on the canvas. -/
theorem draws_write {color : Color} (hp : ∀ d, p d < img.image.extent d) (hmade : Made img)
    (h : (Access.write img p color).Draws floats ops cv cv') {px : Pixel} (hpx : color.pixel ops img.image.format = some px) :
    cv'.images img p = px := by
  have hmem : p ∈ Raster.box (nats (words p)) (nats fun _ => 1) := Raster.mem_box.2 fun d => by
    rw [nats_words hp hmade]
    exact ⟨le_rfl, Nat.lt_succ_self _⟩
  rw [h, hpx]
  simp only [Canvas.paste, Function.update_self]
  exact Raster.paste_of_mem hmem

/-- A colour that a kernel wrote is read again, whatever happened to other pixels in between. -/
theorem written_color_read (m : Memory 64) {color : Color} {later : List Access}
    (hallowed : ∀ access ∈ accesses ++ Access.write img p color :: later, access.Allowed G)
    (hspares : ∀ access ∈ later, access.Spares img p) (hcovered : Covered img.image p) {ptr : Pointer} {w : DeviceSampler}
    (hw : deviceSampler ptr = some w) {coord : Vec4 ℚ} (hhits : Hits (isNormalized w) (header img.image (G.base img)) coord p) :
    color.ReadBack ops (Access.executeAll floats ops G (accesses ++ Access.write img p color :: later) m) img.image
      (G.base img) w coord := by
  obtain ⟨hbefore, hwrite, hlater⟩ : (∀ access ∈ accesses, access.Allowed G) ∧ (Access.write img p color).Allowed G ∧
      ∀ access ∈ later, access.Allowed G := by
    rwa [List.forall_mem_append, List.forall_mem_cons] at hallowed
  have ⟨himg, hp, _⟩ := hwrite
  have hmade := G.made img himg
  obtain ⟨cv₁, -, h₁⟩ := run_draws floats ops (shows_canvasOf G m) hbefore
  obtain ⟨cv₂, hdraws, h₂⟩ := step_draws floats ops h₁ hwrite
  obtain ⟨cv₃, hall, h₃⟩ := run_draws floats ops h₂ hlater
  have hkept := drawAll_spared hp hmade hlater hall hspares
  have hrun : Access.executeAll floats ops G (accesses ++ Access.write img p color :: later) m =
      Access.executeAll floats ops G later ((Access.write img p color).execute floats ops G
        (Access.executeAll floats ops G accesses m)) := by
    simp only [Access.executeAll, List.foldl_append, List.foldl_cons]
  -- The pixel is what was written, so its colour is what the format holds of that.
  have hpixel : ∀ px, color.pixel ops img.image.format = some px → cv₃.images img p = px := fun px hpx =>
    hkept.trans (draws_write hp hmade hdraws hpx)
  have hreads := reads_shown ops h₃ himg hp hcovered (mem_samplerLUT hw) hhits
  rw [← hrun] at hreads
  cases color with
  | int color =>
    intro c hc
    rw [hreads.readi c hc, hpixel _ (congrArg (Option.map _) hc), colorIn_pixelOf fitting_pixelsi hc]
  | uint color =>
    intro c hc
    rw [hreads.readui c hc, hpixel _ (congrArg (Option.map _) hc), colorIn_pixelOf fitting_pixelsui hc]
  | float color =>
    intro c hc size
    rw [hreads.readf c hc size, hpixel _ (congrArg (Option.map _) hc), colorIn_pixelOf ops.fitting_pixelsf hc]

end

/-! ## A small run -/

/-- A pixel from a kernel, and then rows from the host that do not have it. -/
def smallAccesses : List Access :=
  [.write smallImage ![0, 0, 0] (.uint ⟨200, 0, 0, 0⟩), .command (.write smallImage ![1, 1, 0] ![2, 2, 1] 256 2 4)]

theorem smallAccesses_allowed : ∀ access ∈ smallAccesses, access.Allowed smallGallery := by
  rw [smallAccesses, List.forall_mem_cons, List.forall_mem_singleton]
  exact ⟨⟨rfl, by decide, by decide⟩, smallCalls_admitted _ List.mem_cons_self⟩

theorem rows_spare : Disjoint (Raster.box (nats ![1, 1, 0]) (nats ![2, 2, 1]))
    (Raster.box (nats (words ![0, 0, 0])) (nats fun _ => 1)) := by
  refine Set.disjoint_left.2 fun p hrows hpixel => ?_
  have hlo : 1 ≤ p 0 := (Raster.mem_box.1 hrows 0).1
  have hhi : p 0 < 1 := (Raster.mem_box.1 hpixel 0).2
  omega

theorem half_read : deviceSampler (getCPUSampler (some ⟨false, .addressClampToEdge, .filterNearest⟩)) = some 0x03 ∧
    Hits (isNormalized 0x03) (header smallImage.image (smallGallery.base smallImage)) half ![0, 0, 0] :=
  ⟨rfl, half_hits false⟩

theorem kernels_read_canvas_small :
    ∃ cv, Access.DrawAll noFloats wholes smallAccesses (canvasOf smallGallery numbered) cv ∧
      Reads wholes (Access.executeAll noFloats wholes smallGallery smallAccesses numbered) smallImage.image 4096 0x03 half
        (cv.images smallImage ![0, 0, 0]) := by
  obtain ⟨cv, hdraws, -, hread⟩ := @kernels_read_canvas noFloats wholes smallGallery _ numbered smallAccesses_allowed
  exact ⟨cv, hdraws, hread smallImage rfl ![0, 0, 0] (halfPixel_covered false).1 (halfPixel_covered false).2 _ _ half_read.1
    half half_read.2⟩

theorem written_color_read_small : (Color.uint ⟨200, 0, 0, 0⟩).ReadBack wholes
    (Access.executeAll noFloats wholes smallGallery smallAccesses numbered) smallImage.image 4096 0x03 half :=
  @written_color_read noFloats wholes smallGallery [] smallImage ![0, 0, 0] numbered _ _ smallAccesses_allowed
    (List.forall_mem_singleton.2 fun _ => rows_spare) (halfPixel_covered false).2 _ _ half_read.1 half half_read.2

end OpenCRun.SampledPixels
