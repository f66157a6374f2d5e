import OpenCRun.Device.ImageAccess
import OpenCRun.Device.WrittenBytes
/-!
# The colour of a fill

`Execute(FillImageCPUCommand &)` makes the bytes of a pixel on the host, where
`write_imagei` and `write_imageui` make them on the device. Both put the same
components in the same channels, but the host casts a component where the
device converts it with saturation.
-/
open Lib Lib.Bytes Lib.Footprint

namespace OpenCRun.CPUThread

open ImageAccess

/-! ## The data of a fill -/

/-- The numbers that are made of floats, which are left open. -/
structure FillFloats where
  channel : ChannelDataType → BitVec 32 → Nat
  packed : ChannelDataType → BitVec 32 → BitVec 32 → BitVec 32 → Nat
  luminance : ChannelDataType → BitVec 32 → BitVec 32 → BitVec 32 → Nat

/-- The colour that a caller gives, four numbers or floats. -/
abbrev Source := Fin 4 → BitVec 32

/-- The union `fill_data`. -/
abbrev FillData := Memory 4

namespace FillImage

variable (floats : FillFloats) (fmt : ImageFormat) (source : Source)

/-- The number that `WriteChannel` assigns to a channel; for the integers, a cast of the component. -/
def channelNumber (v : BitVec 32) : Option Nat :=
  match fmt.dataType with
  | .snormInt8 | .snormInt16 | .unormInt8 | .unormInt16 | .halfFloat | .float => some (floats.channel fmt.dataType v)
  | .signedInt8 | .unsignedInt8 => some (v.setWidth 8).toNat
  | .signedInt16 | .unsignedInt16 => some (v.setWidth 16).toNat
  | .signedInt32 | .unsignedInt32 => some v.toNat
  | .unormShort565 | .unormShort555 | .unormInt101010 => none

def writeChannel (toCh : Nat) (fromCh : Fin 4) (dataOut : FillData) : FillData :=
  let size := computeImageChannelSizeInBytes fmt.dataType
  match channelNumber floats fmt (source fromCh) with
  | some n => store dataOut (BitVec.ofNat 4 (toCh * size)) (toBytes size n)
  | none => dataOut

/-- Calls of `WriteChannel`, each with `ToCh` and `FromCh`. -/
def writeChannels (calls : List (Nat × Fin 4)) (dataOut : FillData) : FillData :=
  calls.foldl (fun d p => writeChannel floats fmt source p.1 p.2 d) dataOut

/-- The calls for the orders whose channels are components of the colour. -/
def channelCalls : ChannelOrder → List (Nat × Fin 4)
  | .r | .rx => [(0, 0)]
  | .a => [(0, 3)]
  | .rg | .rgx => [(0, 0), (1, 1)]
  | .ra => [(0, 0), (1, 3)]
  | .rgba => [(0, 0), (1, 1), (2, 2), (3, 3)]
  | .argb => [(0, 3), (1, 0), (2, 1), (3, 2)]
  | .bgra => [(0, 2), (1, 1), (2, 0), (3, 3)]
  | .rgb | .rgbx | .intensity | .luminance => []

/-- `fill_data` after the first switch. -/
def fillData : FillData :=
  let zeros : FillData := fun _ => 0
  let bytes := toBytes (computeImageChannelSizeInBytes fmt.dataType)
  match fmt.order with
  | .rgb | .rgbx =>
    match fmt.dataType with
    | .unormShort565 | .unormShort555 | .unormInt101010 =>
      store zeros 0 (bytes (floats.packed fmt.dataType (source 0) (source 1) (source 2)))
    | _ => zeros
  | .intensity | .luminance =>
    match fmt.dataType with
    | .unormInt8 | .unormInt16 | .snormInt8 | .snormInt16 | .halfFloat | .float =>
      store zeros 0 (bytes (floats.luminance fmt.dataType (source 0) (source 1) (source 2)))
    | _ => zeros
  | order => writeChannels floats fmt source (channelCalls order) zeros

end FillImage

/-- The command on a device; `fillData` is where the thread has its union. -/
structure FillImageCPUCommand where
  target : ImageOperand
  region : Fin 3 → SizeT
  source : Source
  fillData : SizeT

namespace FillImageCPUCommand

variable (floats : FillFloats) (c : FillImageCPUCommand)

def format : ImageFormat := c.target.image.format

/-- The bytes of `fill_data`, and the second switch. -/
def execute (m : Memory 64) : Memory 64 :=
  (Update.all ((ImageCommand.fillImage c.target c.region).fills.map (MemFill.update c.fillData))).run
    (store m c.fillData (load (FillImage.fillData floats c.format c.source) 0 16))

def rectangle : Rectangle where
  address := c.target.pointer
  rowPitch := c.target.image.getRowPitch
  slicePitch := c.target.image.getSlicePitch

def regionInBytes : Fin 3 → SizeT := c.target.image.regionInBytes c.region

/-- The region is in memory, apart from `fill_data`. -/
structure Placed : Prop where
  holds : c.rectangle.Holds c.regionInBytes
  apart : Disjoint (range c.fillData 16) (c.rectangle.bytes c.regionInBytes)

/-- The address of a pixel of the region. -/
def pixel (i y z : Nat) : SizeT := c.rectangle.byte (i * c.format.elementSize) y z

/-- Pixels of the region. -/
structure InRegion (i y z : Nat) : Prop where
  column : i * c.format.elementSize < (c.regionInBytes 0).toNat
  row : y < (c.regionInBytes 1).toNat
  slice : z < (c.regionInBytes 2).toNat

end FillImageCPUCommand

/-! ## What kernels write -/

/-- A vector of four components. -/
def Source.color {V : Type} (value : BitVec 32 → V) (source : Source) : Vec4 V :=
  ⟨value (source 0), value (source 1), value (source 2), value (source 3)⟩

def signedTypes : List ChannelDataType := [.signedInt8, .signedInt16, .signedInt32]
def unsignedTypes : List ChannelDataType := [.unsignedInt8, .unsignedInt16, .unsignedInt32]

/-- `write_imagei` of an `int4`, or `write_imageui` of a `uint4`. -/
def writeInteger (m : Memory 64) (img : DeviceImage) (coord : Vec4 (BitVec 32)) (source : Source) : Memory 64 :=
  if img.imageChannelDataType ∈ signedTypes then writeImage pixelsi m img coord (source.color BitVec.toInt)
  else writeImage pixelsui m img coord (source.color BitVec.toNat)

/-! ## Components that stay the same -/

/-- In the range of a signed number of `w` bits, or beyond a limit with the low bits of that limit. -/
def KeptSigned (w : Nat) (v : BitVec 32) : Prop :=
  (-2 ^ (w - 1) ≤ v.toInt ∧ v.toInt < 2 ^ (w - 1)) ∨
    (2 ^ (w - 1) ≤ v.toInt ∧ v.toInt % 2 ^ w = 2 ^ (w - 1) - 1) ∨
      (v.toInt < -2 ^ (w - 1) ∧ v.toInt % 2 ^ w = 2 ^ (w - 1))

def KeptUnsigned (w : Nat) (v : BitVec 32) : Prop :=
  v.toNat < 2 ^ w ∨ v.toNat % 2 ^ w = 2 ^ w - 1

def Kept : ChannelDataType → BitVec 32 → Prop
  | .signedInt8 => KeptSigned 8
  | .signedInt16 => KeptSigned 16
  | .unsignedInt8 => KeptUnsigned 8
  | .unsignedInt16 => KeptUnsigned 16
  | _ => fun _ => True

/-- The components that the order puts into channels. -/
def ComponentsKept (fmt : ImageFormat) (source : Source) : Prop :=
  ∀ p ∈ FillImage.channelCalls fmt.order, Kept fmt.dataType (source p.2)

/-! ## The bytes of a pixel -/

section

variable {floats : FillFloats} {fmt : ImageFormat} {source : Source}

/-- Channels that are written in turn follow each other. -/
theorem writeChannels_eq {number : BitVec 32 → Nat} (hnumber : ∀ v, FillImage.channelNumber floats fmt v = some (number v))
    {calls : List (Nat × Fin 4)} {k : Nat} (hturn : calls.map Prod.fst = List.range' k calls.length)
    (hfit : (k + calls.length) * computeImageChannelSizeInBytes fmt.dataType ≤ 16) {bs : List (BitVec 8)}
    (hbs : bs.length = k * computeImageChannelSizeInBytes fmt.dataType) :
    FillImage.writeChannels floats fmt source calls (store (fun _ => 0) 0 bs) = store (fun _ => 0) 0
      (bs ++ calls.flatMap fun p => toBytes (computeImageChannelSizeInBytes fmt.dataType) (number (source p.2))) := by
  induction calls generalizing k bs with
  | nil => rw [List.flatMap_nil, List.append_nil]; rfl
  | cons p calls ih =>
    rw [List.map_cons, List.length_cons, List.range'_succ] at hturn
    obtain ⟨hk, hturn⟩ := List.cons.inj hturn
    rw [List.length_cons] at hfit
    have hroom : bs.length + (toBytes (computeImageChannelSizeInBytes fmt.dataType) (number (source p.2))).length ≤ 2 ^ 4 := by
      rw [length_toBytes, hbs, ← Nat.succ_mul]
      exact (Nat.mul_le_mul_right _ (by omega)).trans hfit
    have hhead : FillImage.writeChannel floats fmt source p.1 p.2 (store (fun _ => 0) 0 bs) = store (fun _ => 0) 0
        (bs ++ toBytes (computeImageChannelSizeInBytes fmt.dataType) (number (source p.2))) := by
      have haddr : (0 : BitVec 4) + BitVec.ofNat 4 bs.length =
          BitVec.ofNat 4 (p.1 * computeImageChannelSizeInBytes fmt.dataType) := by
        rw [hbs, hk]
        exact BitVec.zero_add _
      rw [store_append _ _ hroom, haddr]
      simp only [FillImage.writeChannel, hnumber]
    have hlength : (bs ++ toBytes (computeImageChannelSizeInBytes fmt.dataType) (number (source p.2))).length =
        (k + 1) * computeImageChannelSizeInBytes fmt.dataType := by
      rw [List.length_append, length_toBytes, hbs, Nat.succ_mul]
    rw [List.flatMap_cons, ← List.append_assoc, ← ih hturn (by rwa [Nat.add_right_comm, Nat.add_assoc]) hlength, ← hhead]
    rfl

/-- The formats with integers have components of the colour in their channels. -/
theorem integer_order (hvalid : isValidFormat fmt = true) (htype : fmt.dataType ∈ signedTypes ++ unsignedTypes) :
    fmt.order ∉ [ChannelOrder.rgb, .rgbx, .intensity, .luminance] := by
  have hall : ∀ order ∈ [ChannelOrder.rgb, .rgbx, .intensity, .luminance], ∀ t ∈ signedTypes ++ unsignedTypes,
      isValidFormat ⟨order, t⟩ = false := by
    decide
  intro horder
  have hfalse := hall _ horder _ htype
  rw [hvalid] at hfalse
  cases hfalse

theorem channelCalls_turn (order : ChannelOrder) :
    (FillImage.channelCalls order).map Prod.fst = List.range' 0 (FillImage.channelCalls order).length := by
  cases order <;> rfl

theorem channelCalls_size (hvalid : isValidFormat fmt = true) (htype : fmt.dataType ∈ signedTypes ++ unsignedTypes) :
    (FillImage.channelCalls fmt.order).length * computeImageChannelSizeInBytes fmt.dataType = fmt.elementSize := by
  have hpacked : ∀ t ∈ signedTypes ++ unsignedTypes, isPackedChannelType t = false := by decide
  have horder := integer_order hvalid htype
  have hlength : (FillImage.channelCalls fmt.order).length = computeImageNumChannels fmt.order := by
    cases ho : fmt.order with
    | rgb | rgbx | intensity | luminance =>
      rw [ho] at horder
      exact absurd (by decide) horder
    | _ => rfl
  rw [hlength, ImageFormat.elementSize, hpacked _ htype, Nat.mul_comm]
  rfl

/-- The bytes of a pixel, of the numbers that are assigned to its channels. -/
theorem load_fillData (hvalid : isValidFormat fmt = true) (htype : fmt.dataType ∈ signedTypes ++ unsignedTypes)
    {number : BitVec 32 → Nat} (hnumber : ∀ v, FillImage.channelNumber floats fmt v = some (number v)) :
    load (FillImage.fillData floats fmt source) 0 fmt.elementSize = (FillImage.channelCalls fmt.order).flatMap fun p =>
      toBytes (computeImageChannelSizeInBytes fmt.dataType) (number (source p.2)) := by
  have hsize := channelCalls_size hvalid htype
  have hbound : fmt.elementSize ≤ 16 := fmt.elementSize_bounds.2
  have hdata : FillImage.fillData floats fmt source =
      FillImage.writeChannels floats fmt source (FillImage.channelCalls fmt.order) (store (fun _ => 0) 0 []) := by
    have horder := integer_order hvalid htype
    unfold FillImage.fillData
    cases ho : fmt.order with
    | rgb | rgbx | intensity | luminance =>
      rw [ho] at horder
      exact absurd (by decide) horder
    | _ => rfl
  have hnothing : ([] : List (BitVec 8)).length = 0 * computeImageChannelSizeInBytes fmt.dataType := (Nat.zero_mul _).symm
  rw [hdata, writeChannels_eq hnumber (channelCalls_turn fmt.order) (by rwa [Nat.zero_add, hsize]) hnothing,
    List.nil_append]
  refine load_store_all _ _ ?_ hbound
  rw [length_flatMap (fun p => length_toBytes _ _), hsize]

/-- The components that a kernel stores are those that the host puts into the channels. -/
theorem stored_eq {V : Type} {P : PixelType V} (value : BitVec 32 → V)
    (horder : fmt.order ∉ [ChannelOrder.rgb, .rgbx, .intensity, .luminance]) :
    stored (BitVec.ofNat 32 (computeImageNumChannels fmt.order)) (mapChannelsWrite P fmt.order (source.color value)) =
      (FillImage.channelCalls fmt.order).map fun p => value (source p.2) := by
  cases ho : fmt.order with
  | rgb | rgbx | intensity | luminance =>
    rw [ho] at horder
    exact absurd (by decide) horder
  | _ => rfl

/-- The bytes that a kernel stores for a pixel. -/
theorem load_writeImage {V : Type} {P : PixelType V} (hP : P.Fitting) (hvalid : isValidFormat fmt = true)
    (htype : fmt.dataType ∈ signedTypes ++ unsignedTypes) {c : Channel V} (hc : P.channel fmt.dataType = some c)
    (value : BitVec 32 → V) {img : Image} (hfmt : img.format = fmt) (m : Memory 64) (base : SizeT)
    (coord : Vec4 (BitVec 32)) :
    load (writeImage P m (header img base) coord (source.color value)) (address (header img base) coord) fmt.elementSize =
      (FillImage.channelCalls fmt.order).flatMap fun p =>
        toBytes (computeImageChannelSizeInBytes fmt.dataType) (c.encode (value (source p.2))) := by
  subst hfmt
  have hheader : P.channel (header img base).imageChannelDataType = some c := hc
  have hstored : stored (header img base).numChannels
      (mapChannelsWrite P (header img base).imageChannelOrder (source.color value)) =
        (FillImage.channelCalls img.format.order).map fun p => value (source p.2) :=
    stored_eq value (integer_order hvalid htype)
  rw [writeImage, writePixel, hheader]
  dsimp only
  rw [load_store_all _ _ (length_written hP hc _) (img.format.elementSize_bounds.2.trans (by decide)), hstored, List.map_map,
    List.flatMap_map, (hP _ c hc).1]
  rfl

/-- The bytes are the same if each channel gets the same number. -/
theorem bytes_eq_iff {V : Type} {P : PixelType V} (hP : P.Fitting) (hvalid : isValidFormat fmt = true)
    (htype : fmt.dataType ∈ signedTypes ++ unsignedTypes) {c : Channel V} (hc : P.channel fmt.dataType = some c)
    (value : BitVec 32 → V) {number : BitVec 32 → Nat}
    (hnumber : ∀ v, FillImage.channelNumber floats fmt v = some (number v))
    (hlt : ∀ v, number v < 256 ^ computeImageChannelSizeInBytes fmt.dataType) {img : Image} (hfmt : img.format = fmt)
    (m : Memory 64) (base : SizeT) (coord : Vec4 (BitVec 32)) :
    load (FillImage.fillData floats fmt source) 0 fmt.elementSize =
        load (writeImage P m (header img base) coord (source.color value)) (address (header img base) coord)
          fmt.elementSize ↔
      ∀ p ∈ FillImage.channelCalls fmt.order, number (source p.2) = c.encode (value (source p.2)) := by
  have hencode : ∀ v, c.encode v < 256 ^ computeImageChannelSizeInBytes fmt.dataType := by
    rw [← (hP _ c hc).1]
    exact c.encode_lt
  rw [load_fillData hvalid htype hnumber, load_writeImage hP hvalid htype hc value hfmt,
    flatMap_inj_iff (fun p => length_toBytes _ _) fun p => length_toBytes _ _]
  exact forall₂_congr fun p _ => toBytes_inj (hlt _) (hencode _)

end

/-! ## Casts and saturation -/

/-- The cast keeps the low bytes. -/
theorem channelNumber_eq (floats : FillFloats) {fmt : ImageFormat} (htype : fmt.dataType ∈ signedTypes ++ unsignedTypes)
    (v : BitVec 32) : FillImage.channelNumber floats fmt v =
      some (v.toNat % 256 ^ computeImageChannelSizeInBytes fmt.dataType) := by
  have hword : v.toNat % 256 ^ 4 = v.toNat := Nat.mod_eq_of_lt v.isLt
  unfold FillImage.channelNumber
  cases ht : fmt.dataType with
  | signedInt8 | unsignedInt8 | signedInt16 | unsignedInt16 => exact congrArg some (BitVec.toNat_setWidth _ _)
  | signedInt32 | unsignedInt32 => exact congrArg some hword.symm
  | _ =>
    rw [ht] at htype
    exact absurd htype (by decide)

/-- A number that is limited is congruent to itself if it is inside the limits, or to the limit that it exceeds. -/
theorem clamp_emod_iff {h : Int} (hpos : 0 < h) (v : Int) : v % (2 * h) = max (-h) (min (h - 1) v) % (2 * h) ↔
    (-h ≤ v ∧ v < h) ∨ (h ≤ v ∧ v % (2 * h) = h - 1) ∨ (v < -h ∧ v % (2 * h) = h) := by
  rcases lt_or_ge v (-h) with hlow | hlow
  · have hlimit : -h % (2 * h) = h := by
      rw [← Int.add_emod_right, Int.emod_eq_of_lt (by omega) (by omega)]
      omega
    rw [min_eq_right (by omega), max_eq_left (by omega), hlimit]
    omega
  · rcases lt_or_ge v h with hhigh | hhigh
    · rw [min_eq_right (by omega), max_eq_right hlow]
      exact iff_of_true rfl (.inl ⟨hlow, hhigh⟩)
    · rw [min_eq_left (by omega), max_eq_right (by omega), Int.emod_eq_of_lt (a := h - 1) (by omega) (by omega)]
      omega

theorem cast_kept_iff {w : Nat} {h : Int} (hpos : 0 < h) (hw : 2 ^ (w - 1) = h) (hw' : 2 ^ w = 2 * h)
    (hdvd : 2 * h ∣ 2 ^ 32) (v : BitVec 32) :
    (v.toNat : Int) % (2 * h) = max (-h) (min (h - 1) v.toInt) % (2 * h) ↔ KeptSigned w v := by
  have hcast : (v.toNat : Int) % (2 * h) = v.toInt % (2 * h) := by
    obtain ⟨k, hk⟩ := hdvd
    rw [BitVec.toInt_eq_toNat_cond]
    split
    · rfl
    · rw [Nat.cast_pow, Nat.cast_ofNat, hk, Int.sub_mul_emod_self_left]
  rw [hcast, clamp_emod_iff hpos]
  unfold KeptSigned
  rw [hw, hw']

theorem signed_kept_iff {t : ChannelDataType} (ht : t ∈ signedTypes) : ∃ c, pixelsi.channel t = some c ∧
    ∀ v : BitVec 32, v.toNat % 256 ^ computeImageChannelSizeInBytes t = c.encode v.toInt ↔ Kept t v := by
  simp only [signedTypes, List.mem_cons, List.not_mem_nil, or_false] at ht
  rcases ht with rfl | rfl | rfl
  · refine ⟨_, rfl, fun v => ?_⟩
    refine Iff.trans ?_ (cast_kept_iff (w := 8) (h := 128) (by decide) rfl rfl (by decide) v)
    change v.toNat % 256 = (max (-128) (min 127 v.toInt) % 256).toNat ↔
      (v.toNat : Int) % 256 = max (-128) (min 127 v.toInt) % 256
    omega
  · refine ⟨_, rfl, fun v => ?_⟩
    refine Iff.trans ?_ (cast_kept_iff (w := 16) (h := 32768) (by decide) rfl rfl (by decide) v)
    change v.toNat % 65536 = (max (-32768) (min 32767 v.toInt) % 65536).toNat ↔
      (v.toNat : Int) % 65536 = max (-32768) (min 32767 v.toInt) % 65536
    omega
  · refine ⟨_, rfl, fun v => iff_of_true ?_ trivial⟩
    change v.toNat % 4294967296 = (v.toInt % 4294967296).toNat
    rw [BitVec.toInt_eq_toNat_cond]
    split <;> omega

theorem unsigned_kept_iff {t : ChannelDataType} (ht : t ∈ unsignedTypes) : ∃ c, pixelsui.channel t = some c ∧
    ∀ v : BitVec 32, v.toNat % 256 ^ computeImageChannelSizeInBytes t = c.encode v.toNat ↔ Kept t v := by
  simp only [unsignedTypes, List.mem_cons, List.not_mem_nil, or_false] at ht
  rcases ht with rfl | rfl | rfl
  · refine ⟨_, rfl, fun v => ?_⟩
    change v.toNat % 256 = min v.toNat 255 ↔ v.toNat < 256 ∨ v.toNat % 256 = 255
    omega
  · refine ⟨_, rfl, fun v => ?_⟩
    change v.toNat % 65536 = min v.toNat 65535 ↔ v.toNat < 65536 ∨ v.toNat % 65536 = 65535
    omega
  · exact ⟨_, rfl, fun v => iff_of_true rfl trivial⟩

/-! ## Fills -/

/-- A fill stores the first bytes of `fill_data` for every pixel of its region. -/
theorem FillImageCPUCommand.load_pixel (floats : FillFloats) {c : FillImageCPUCommand} (hvalid : isValidFormat c.format = true)
    (hplaced : c.Placed) {i y z : Nat} (h : c.InRegion i y z) (m : Memory 64) :
    load (c.execute floats m) (c.pixel i y z) c.format.elementSize =
      load (FillImage.fillData floats c.format c.source) 0 c.format.elementSize := by
  have hmem := ImageFormat.elementSize_mem hvalid
  have hbounds := c.format.elementSize_bounds
  have hdvd : c.format.elementSize ∣ (c.regionInBytes 0).toNat := Image.elementSize_dvd_regionInBytes hmem c.region
  have hfills : (ImageCommand.fillImage c.target c.region).fills =
      memRectFill c.rectangle.address c.format.elementSize c.regionInBytes c.rectangle.rowPitch c.rectangle.slicePitch := by
    simp only [ImageCommand.fills, Image.toNat_getElementSize]
    exact if_pos hmem
  have hapart : Disjoint (range c.fillData c.format.elementSize) (c.rectangle.bytes c.regionInBytes) := by
    refine hplaced.apart.mono_left ?_
    rintro a ⟨k, hk, rfl⟩
    exact ⟨k, by omega, rfl⟩
  have hwritten := memRectFill_written hplaced.holds hdvd hapart
    (store m c.fillData (load (FillImage.fillData floats c.format c.source) 0 16))
  unfold execute
  rw [hfills]
  refine List.map_congr_left fun k hk => ?_
  rw [List.mem_range] at hk
  have hlast : i * c.format.elementSize + k < (c.regionInBytes 0).toNat := by
    obtain ⟨n, hn⟩ := hdvd
    have hi := h.column
    rw [hn, Nat.mul_comm] at hi ⊢
    have hle := Nat.mul_le_mul_left c.format.elementSize (Nat.lt_of_mul_lt_mul_left hi)
    rw [Nat.mul_succ] at hle
    omega
  have hbyte : c.pixel i y z + BitVec.ofNat 64 k = c.rectangle.byte (i * c.format.elementSize + k) y z :=
    c.rectangle.byte_add _ y z k
  have hvalue := hwritten.values _ hlast y h.row z h.slice
  rw [Nat.mul_comm i, Nat.mul_add_mod, Nat.mod_eq_of_lt hk, store_at (by rw [length_load]; decide)
    (getElem?_load _ _ (by omega))] at hvalue
  rw [hbyte, Nat.mul_comm i]
  exact hvalue

/-- A fill stores for a pixel what a kernel stores for the same colour exactly when the components that it puts
into channels are kept. -/
theorem FillImageCPUCommand.fill_eq_write_iff (floats : FillFloats) {c : FillImageCPUCommand}
    (hvalid : isValidFormat c.format = true) (htype : c.format.dataType ∈ signedTypes ++ unsignedTypes)
    (hplaced : c.Placed) {i y z : Nat} (h : c.InRegion i y z) (m m' : Memory 64) (base : SizeT)
    (coord : Vec4 (BitVec 32)) :
    load (c.execute floats m) (c.pixel i y z) c.format.elementSize =
        load (writeInteger m' (header c.target.image base) coord c.source) (address (header c.target.image base) coord)
          c.format.elementSize ↔
      ComponentsKept c.format c.source := by
  have hlt : ∀ v : BitVec 32, v.toNat % 256 ^ computeImageChannelSizeInBytes c.format.dataType <
      256 ^ computeImageChannelSizeInBytes c.format.dataType := fun v => Nat.mod_lt _ (Nat.pow_pos (by decide))
  rw [load_pixel floats hvalid hplaced h]
  by_cases hsigned : c.format.dataType ∈ signedTypes
  · have hheader : (header c.target.image base).imageChannelDataType ∈ signedTypes := hsigned
    obtain ⟨ch, hch, hkept⟩ := signed_kept_iff hsigned
    rw [writeInteger, if_pos hheader, bytes_eq_iff fitting_pixelsi hvalid htype hch _ (channelNumber_eq floats htype) hlt rfl]
    exact forall₂_congr fun p _ => hkept _
  · have hheader : (header c.target.image base).imageChannelDataType ∉ signedTypes := hsigned
    obtain ⟨ch, hch, hkept⟩ := unsigned_kept_iff ((List.mem_append.1 htype).resolve_left hsigned)
    rw [writeInteger, if_neg hheader, bytes_eq_iff fitting_pixelsui hvalid htype hch _ (channelNumber_eq floats htype) hlt rfl]
    exact forall₂_congr fun p _ => hkept _

/-- An image of one channel of 8 bits, filled as a whole. -/
def fillFourByFour (x : BitVec 32) : FillImageCPUCommand where
  target := { image := fourByFour, base := 4096, origin := ![0, 0, 0] }
  region := ![4, 4, 1]
  source := ![x, 0, 0, 0]
  fillData := 8192

theorem fillFourByFour_placed (x : BitVec 32) : (fillFourByFour x).Placed := by
  have hholds : (fillFourByFour 0).rectangle.Holds (fillFourByFour 0).regionInBytes := ⟨by decide, by decide, by decide⟩
  have hapart : Disjoint (range (fillFourByFour 0).fillData 16)
      ((fillFourByFour 0).rectangle.bytes (fillFourByFour 0).regionInBytes) :=
    Rectangle.disjoint_range (by decide) (by decide)
  exact ⟨hholds, hapart⟩

/-- Floats do not matter for integers. -/
def noFloats : FillFloats where
  channel _ _ := 0
  packed _ _ _ _ := 0
  luminance _ _ _ _ := 0

theorem fillFourByFour_127_kept : ComponentsKept (fillFourByFour 127).format (fillFourByFour 127).source := by
  intro p hp
  rw [List.mem_singleton.1 hp]
  exact .inl (by decide)

/-- The limit itself is stored by both. -/
theorem fill_127_same :
    load ((fillFourByFour 127).execute noFloats fun _ => 0) ((fillFourByFour 127).pixel 1 2 0) 1 =
      load (writeInteger (fun _ => 0) (header fourByFour 4096) (coordOf ![1, 2, 0]) (fillFourByFour 127).source)
        (address (header fourByFour 4096) (coordOf ![1, 2, 0])) 1 :=
  (FillImageCPUCommand.fill_eq_write_iff noFloats rfl (by decide) (fillFourByFour_placed 127)
    ⟨by decide, by decide, by decide⟩ _ _ _ _).2 fillFourByFour_127_kept

/-- A fill with 128 stores -128, where a kernel stores 127. -/
theorem fill_128_differs : ¬ ∀ (floats : FillFloats) (c : FillImageCPUCommand), isValidFormat c.format = true →
    c.format.dataType ∈ signedTypes ++ unsignedTypes → c.Placed → ∀ i y z : Nat, c.InRegion i y z →
      ∀ (m m' : Memory 64) (base : SizeT) (coord : Vec4 (BitVec 32)),
        load (c.execute floats m) (c.pixel i y z) c.format.elementSize =
          load (writeInteger m' (header c.target.image base) coord c.source) (address (header c.target.image base) coord)
            c.format.elementSize := by
  intro h
  have heq := h noFloats (fillFourByFour 128) rfl (by decide) (fillFourByFour_placed 128) 1 2 0
    ⟨by decide, by decide, by decide⟩ (fun _ => 0) (fun _ => 0) 4096 (coordOf ![1, 2, 0])
  rw [FillImageCPUCommand.load_pixel noFloats rfl (fillFourByFour_placed 128) ⟨by decide, by decide, by decide⟩] at heq
  revert heq
  decide

end OpenCRun.CPUThread
