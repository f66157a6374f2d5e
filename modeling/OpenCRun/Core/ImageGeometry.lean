import OpenCRun.Core.Image
/-!
# The geometry of images

`clCreateImage` from the format and the descriptor that a caller gives. The
builder learns the host pointer after `setImage` has laid the image out.
-/
open Lib

namespace OpenCRun

open MemoryObjectBuilder

/-! ## Creating an image -/

namespace MemoryObjectBuilder

/-- The tests before the devices of the context are asked. -/
def asksDevices (fmt : Option CLImageFormat) (desc : Option CLImageDesc) : Bool :=
  (checkFormat fmt).isOk && desc.any fun d => d.numMipLevels == 0 && d.numSamples == 0

/-- `setImage`, of a builder that has its context or not. -/
def setImageFrom (devicesOf : Nat → List DeviceInfo) (b : MemoryObjectBuilder) (fmt : Option CLImageFormat)
    (desc : Option CLImageDesc) : Checked MemoryObjectBuilder := do
  Checked.check (b.ctx.isSome || !asksDevices fmt desc)
  match computeImage b.hostPtr (b.ctx.elim [] devicesOf) fmt desc with
  | .ok img => b.setImage { type := some img.type, buf := img.buf, size := img.size.toNat } none
  | .error e => b.setImage e.params (some (e.code, e.msg))

end MemoryObjectBuilder

/-- The arguments of `clCreateImage`. -/
structure CreateImageArgs where
  ctx : Option Nat
  flags : CLMemFlags
  fmt : Option CLImageFormat
  desc : Option CLImageDesc
  hostPtr : Option Nat

/-- What the call finds: a build with assertions or not, where buffers are, whether `initForDevices`
succeeds, and the devices of the contexts. -/
structure CreateSite where
  ndebug : Bool
  address : Buffer → Nat
  init : Bool
  devicesOf : Nat → List DeviceInfo

namespace CreateImageArgs

def create (c : CreateSite) (x : CreateImageArgs) : Checked (Option Created × MemoryErrCode) := do
  let b ← (MemoryObjectBuilder.new .image).setContext x.ctx
  let b ← b.setImageFrom c.devicesOf x.fmt x.desc
  let b ← b.setGenericFlags c.ndebug x.flags x.hostPtr
  b.create c.address c.init

def devices (c : CreateSite) (x : CreateImageArgs) : List DeviceInfo := x.ctx.elim [] c.devicesOf

/-- The call succeeds, with this image. -/
def Succeeds (c : CreateSite) (x : CreateImageArgs) (img : Image) : Prop :=
  computeImage (MemoryObjectBuilder.new .image).hostPtr (x.devices c) x.fmt x.desc = .ok img ∧
    ∃ obj, (x.create c).val = (some obj, .success)

/-- The constants that the caller gives. -/
structure Describes (x : CreateImageArgs) (format : ImageFormat) (type : ImageType) (d : CLImageDesc) : Prop where
  fmt : x.fmt = some ⟨some format.order, some format.dataType⟩
  desc : x.desc = some d
  type : d.imageType = some type

/-- The same image with the pitches left to the library. -/
def withoutPitches (x : CreateImageArgs) : CreateImageArgs :=
  { x with desc := x.desc.map fun d => { d with imageRowPitch := 0, imageSlicePitch := 0 } }

end CreateImageArgs

/-! ## Images as they should be -/

/-- The rows of a slice. -/
def ImageType.rows (type : ImageType) (height : Nat) : Nat := if type = .image1DArray then 1 else height

/-- Each dimension is within the device's limit for it; the width of an image over a buffer has one of
its own. -/
structure DeviceInfo.Allows (dev : DeviceInfo) (img : Image) : Prop where
  width : img.getWidth ≤
    match img.type with
    | .image1DBuffer => dev.imageMaxBufferSize
    | .image3D => dev.image3DMaxWidth
    | _ => dev.image2DMaxWidth
  height : img.type = .image2D ∨ img.type = .image2DArray → img.getHeight ≤ dev.image2DMaxHeight
  height3D : img.type = .image3D → img.getHeight ≤ dev.image3DMaxHeight
  depth : img.type = .image3D → img.getDepth ≤ dev.image3DMaxDepth
  arraySize : img.type = .image1DArray ∨ img.type = .image2DArray → img.getArraySize ≤ dev.imageMaxArraySize

namespace Image

/-- The bytes that the slices span. -/
def spanned (img : Image) : Nat :=
  match img.type with
  | .image1D | .image1DBuffer => img.getRowPitch.toNat
  | .image2D => img.getRowPitch.toNat * img.getHeight.toNat
  | .image1DArray | .image2DArray => img.getSlicePitch.toNat * img.getArraySize.toNat
  | .image3D => img.getSlicePitch.toNat * img.getDepth.toNat

structure Geometry (devices : List DeviceInfo) (img : Image) : Prop where
  rowPitch : img.getWidth.toNat * img.format.elementSize ≤ img.getRowPitch.toNat
  slicePitch : requiresSlicePitch img.type = true →
    img.getRowPitch.toNat * img.type.rows img.getHeight.toNat ≤ img.getSlicePitch.toNat
  size : img.size.toNat = img.spanned
  limits : ∀ dev ∈ devices, dev.isImageFormatSupported img.format = true → dev.Allows img

end Image

/-- Pitches that a caller may give: at least a row, and the rows of a slice, and in whole elements
and rows. -/
structure CLImageDesc.ValidPitches (d : CLImageDesc) (elementSize : Nat) (type : ImageType) : Prop where
  row : d.imageRowPitch = 0 ∨
    d.imageWidth.toNat * elementSize ≤ d.imageRowPitch.toNat ∧ elementSize ∣ d.imageRowPitch.toNat
  slice : requiresSlicePitch type = true → d.imageSlicePitch = 0 ∨
    let rowPitch := if d.imageRowPitch = 0 then d.imageWidth.toNat * elementSize else d.imageRowPitch.toNat
    rowPitch * type.rows d.imageHeight.toNat ≤ d.imageSlicePitch.toNat ∧ rowPitch ∣ d.imageSlicePitch.toNat

/-- The caller gives a pitch that the image has. -/
def CLImageDesc.GivesPitch (d : CLImageDesc) (type : ImageType) : Prop :=
  d.imageRowPitch ≠ 0 ∨ requiresSlicePitch type = true ∧ d.imageSlicePitch ≠ 0

namespace CLImageDesc

/-- The sizes that pass. -/
@[mk_iff] structure Fits (d : CLImageDesc) (lim : ImageLimits) (elementSize : SizeT) (type : ImageType) : Prop where
  width_pos : d.imageWidth ≠ 0
  width : d.imageWidth <
    match type with
    | .image1D | .image1DBuffer | .image1DArray => lim.mmImgBufSize / elementSize
    | .image2D | .image2DArray => lim.mmImg2DWidth
    | .image3D => lim.mmImg3DWidth
  height : type = .image2D ∨ type = .image2DArray → d.imageHeight ≠ 0 ∧ d.imageHeight < lim.mmImg2DHeight
  volume : type = .image3D →
    d.imageHeight ≠ 0 ∧ d.imageHeight < lim.mmImg3DHeight ∧ d.imageDepth ≠ 0 ∧ d.imageDepth < lim.mmImg3DDepth
  arraySize : type = .image1DArray ∨ type = .image2DArray → d.imageArraySize ≠ 0 ∧ d.imageArraySize < lim.mmImgArraySize
  buffer : d.buffer.isSome = true ↔ type = .image1DBuffer

/-- The sizes that an image of the type has. -/
def sizes (d : CLImageDesc) (type : ImageType) : ImageDescriptor where
  width := d.imageWidth
  height := if type = .image2D ∨ type = .image2DArray ∨ type = .image3D then d.imageHeight else 0
  depth := if type = .image3D then d.imageDepth else 0
  arraySize := if type = .image1DArray ∨ type = .image2DArray then d.imageArraySize else 0

/-- The image that is created. -/
def image (d : CLImageDesc) (format : ImageFormat) (type : ImageType) : Image :=
  let desc := pitched type (BitVec.ofNat 64 format.elementSize) (d.sizes type)
  { type, format, desc, buf := d.buffer, size := imageSize type desc }

/-- All that is looked at but the pitches. -/
structure Acceptable (d : CLImageDesc) (devices : List DeviceInfo) (format : ImageFormat) (type : ImageType) : Prop where
  valid : isValidFormat format = true
  numMipLevels : d.numMipLevels = 0
  numSamples : d.numSamples = 0
  fits : ∃ lim, imageLimits devices format = some lim ∧ d.Fits lim (BitVec.ofNat 64 format.elementSize) type

end CLImageDesc

namespace CreateImageArgs

/-- A created image is as it should be; and the caller's pitches, if they are valid and there is a host
pointer, are used for the image that is created without them. -/
structure GeometryRight (c : CreateSite) (x : CreateImageArgs) : Prop where
  laid : ∀ img, x.Succeeds c img → img.Geometry (x.devices c)
  used : x.hostPtr.isSome = true → ∀ format type d, x.Describes format type d → d.ValidPitches format.elementSize type →
    (∃ img, x.withoutPitches.Succeeds c img) →
    ∃ img, x.Succeeds c img ∧ (d.imageRowPitch ≠ 0 → img.getRowPitch = d.imageRowPitch) ∧
      (requiresSlicePitch type = true → d.imageSlicePitch ≠ 0 → img.getSlicePitch = d.imageSlicePitch)

/-- Images that come out right: no array of rows; no product wraps around; where there are slices their
bytes are not multiplied by the row's; the limits that `setImage` does not look at are kept. -/
structure Plain (devices : List DeviceInfo) (format : ImageFormat) (type : ImageType) (d : CLImageDesc) : Prop where
  row : d.imageWidth.toNat * format.elementSize < 2 ^ 64
  rows : type ≠ .image1DArray
  plane : type = .image2D ∨ type = .image2DArray ∨ type = .image3D →
    d.imageWidth.toNat * format.elementSize * d.imageHeight.toNat < 2 ^ 64
  slices : type = .image2DArray ∨ type = .image3D →
    let row := d.imageWidth.toNat * format.elementSize
    let n := if type = .image3D then d.imageDepth.toNat else d.imageArraySize.toNat
    row * (row * d.imageHeight.toNat) * n % 2 ^ 64 = row * d.imageHeight.toNat * n
  width : type = .image1D → ∀ dev ∈ devices, dev.isImageFormatSupported format = true → d.imageWidth ≤ dev.image2DMaxWidth
  depth : type = .image3D → ∀ dev ∈ devices, dev.isImageFormatSupported format = true → d.imageDepth ≤ dev.image3DMaxDepth

/-- The flags and the host pointer pass, also those that an image over a buffer does not take from it. -/
def AcceptsFlags (x : CreateImageArgs) (type : ImageType) (d : CLImageDesc) : Prop :=
  ∃ flags, checkFlags x.flags x.hostPtr = .ok flags ∧
    (type = .image1DBuffer → (inheritFlags ((d.buffer.map Buffer.getFlags).getD 0) flags).isOk = true)

/-- All but the pitches. -/
structure Accepted (c : CreateSite) (x : CreateImageArgs) (format : ImageFormat) (type : ImageType) (d : CLImageDesc) :
    Prop where
  desc : d.Acceptable (x.devices c) format type
  flags : x.AcceptsFlags type d
  init : c.init = true

/-- What is accepted comes out right, and has no pitches of the caller that could be used. -/
structure Harmless (c : CreateSite) (x : CreateImageArgs) : Prop where
  plain : ∀ format type d, x.Describes format type d → x.Accepted c format type d → ¬ d.GivesPitch type →
    Plain (x.devices c) format type d
  unpitched : x.hostPtr.isSome = true → ∀ format type d, x.Describes format type d → d.ValidPitches format.elementSize type →
    x.Accepted c format type d → ¬ d.GivesPitch type

end CreateImageArgs

/-! ## The smallest limits -/

/-- What the device allows is not less. -/
structure ImageLimits.Below (l : ImageLimits) (d : DeviceInfo) : Prop where
  img2DWidth : l.mmImg2DWidth ≤ d.image2DMaxWidth
  img2DHeight : l.mmImg2DHeight ≤ d.image2DMaxHeight
  img3DWidth : l.mmImg3DWidth ≤ d.image3DMaxWidth
  img3DHeight : l.mmImg3DHeight ≤ d.image3DMaxHeight
  bufSize : l.mmImgBufSize ≤ d.imageMaxBufferSize
  arraySize : l.mmImgArraySize ≤ d.imageMaxArraySize

theorem minSize_le_left (a b : SizeT) : minSize a b ≤ a := by
  unfold minSize
  split
  · next h => exact BitVec.le_of_lt h
  · exact BitVec.le_refl a

theorem minSize_le_right (a b : SizeT) : minSize a b ≤ b := by
  unfold minSize
  split
  · exact BitVec.le_refl b
  · next h => exact BitVec.not_lt.1 h

namespace ImageLimits

theorem restrict_below (l : ImageLimits) (d : DeviceInfo) : (l.restrict d).Below d := by
  constructor <;> exact minSize_le_left _ _

theorem Below.restrict {l : ImageLimits} {dev : DeviceInfo} (h : l.Below dev) (d : DeviceInfo) :
    (l.restrict d).Below dev := by
  constructor
  · exact BitVec.le_trans (minSize_le_right _ _) h.img2DWidth
  · exact BitVec.le_trans (minSize_le_right _ _) h.img2DHeight
  · exact BitVec.le_trans (minSize_le_right _ _) h.img3DWidth
  · exact BitVec.le_trans (minSize_le_right _ _) h.img3DHeight
  · exact BitVec.le_trans (minSize_le_right _ _) h.bufSize
  · exact BitVec.le_trans (minSize_le_right _ _) h.arraySize

/-- Once below a device, the limits stay there. -/
theorem Below.foldl {dev : DeviceInfo} (devices : List DeviceInfo) {l : ImageLimits} (h : l.Below dev) :
    (devices.foldl ImageLimits.restrict l).Below dev := by
  induction devices generalizing l with
  | nil => exact h
  | cons d devices ih => exact ih (h.restrict d)

theorem foldl_below {dev : DeviceInfo} {devices : List DeviceInfo} (hdev : dev ∈ devices) (l : ImageLimits) :
    (devices.foldl ImageLimits.restrict l).Below dev := by
  induction devices generalizing l with
  | nil => cases hdev
  | cons d devices ih =>
    rcases List.mem_cons.1 hdev with rfl | hdev
    · exact (l.restrict_below dev).foldl devices
    · exact ih hdev _

end ImageLimits

theorem imageLimits_below {devices : List DeviceInfo} {fmt : ImageFormat} {lim : ImageLimits}
    (h : imageLimits devices fmt = some lim) :
    ∀ dev ∈ devices, dev.isImageFormatSupported fmt = true → lim.Below dev := by
  intro dev hdev hfmt
  have hmem : dev ∈ devices.filter (·.isImageFormatSupported fmt) := List.mem_filter.2 ⟨hdev, hfmt⟩
  unfold imageLimits at h
  split at h
  · cases h
  · cases h
    exact ImageLimits.foldl_below hmem _

/-! ## What is accepted -/

theorem checkArraySize_iff {isArray : Bool} {lim : ImageLimits} {d : CLImageDesc} {n : SizeT} :
    checkArraySize isArray lim d = .ok n ↔
      (isArray = true → d.imageArraySize ≠ 0 ∧ d.imageArraySize < lim.mmImgArraySize) ∧
        n = if isArray then d.imageArraySize else 0 := by
  have hpure : ∀ m : SizeT, (pure m : Except ImageError SizeT) = .ok n ↔ n = m :=
    fun m => ⟨fun h => (Except.ok.inj h).symm, fun h => congrArg Except.ok h.symm⟩
  simp only [checkArraySize, errorIf_bind_ok, hpure]
  cases isArray with
  | false => simp only [Bool.false_and, Bool.false_eq_true, false_implies, true_and]
  | true =>
    simp only [Bool.true_and, beq_eq_false_iff_ne, decide_eq_false_iff_not, ge_iff_le, BitVec.not_le, true_implies,
      and_assoc]

theorem checkSizes_iff {lim : ImageLimits} {elementSize : SizeT} {type : ImageType} {d : CLImageDesc}
    {sizes : ImageDescriptor} :
    checkSizes lim elementSize type d = .ok sizes ↔ d.Fits lim elementSize type ∧ sizes = d.sizes type := by
  have hpure : ∀ m : ImageDescriptor, (pure m : Except ImageError ImageDescriptor) = .ok sizes ↔ sizes = m :=
    fun m => ⟨fun h => (Except.ok.inj h).symm, fun h => congrArg Except.ok h.symm⟩
  rw [CLImageDesc.fits_iff]
  cases type with
  | image3D =>
    simp only [checkSizes, errorIf_bind_ok]
    simp [hpure, CLImageDesc.sizes, and_assoc]
  | _ =>
    simp only [checkSizes, errorIf_bind_ok]
    rw [bind_ok]
    simp [hpure, checkArraySize_iff, CLImageDesc.sizes, and_assoc, and_left_comm]

/-- The pitches of a builder without a host pointer. -/
theorem setPitches_iff {elementSize : SizeT} {type : ImageType} {d : CLImageDesc} {sizes desc : ImageDescriptor} :
    setPitches none elementSize type d sizes = .ok desc ↔ ¬ d.GivesPitch type ∧ desc = pitched type elementSize sizes := by
  unfold setPitches CLImageDesc.GivesPitch
  rw [Option.isNone_none, if_pos rfl, errorIf_bind_ok, errorIf_bind_ok]
  have hgives : (d.imageRowPitch != 0) = false ∧ (requiresSlicePitch type && d.imageSlicePitch != 0) = false ↔
      ¬ (d.imageRowPitch ≠ 0 ∨ requiresSlicePitch type = true ∧ d.imageSlicePitch ≠ 0) := by
    simp [not_or, imp_iff_not_or]
  rw [← and_assoc, hgives]
  exact and_congr_right fun _ => ⟨fun h => (Except.ok.inj h).symm, fun h => congrArg Except.ok h.symm⟩

theorem ImageFormat.constants_inj {f g : ImageFormat}
    (h : some (CLImageFormat.mk (some f.order) (some f.dataType)) = some ⟨some g.order, some g.dataType⟩) : f = g := by
  injection h with h
  injection h with horder hdataType
  cases f
  cases g
  cases horder
  cases hdataType
  rfl

theorem checkFormat_iff {fmt : Option CLImageFormat} {format : ImageFormat} :
    checkFormat fmt = .ok format ↔
      fmt = some ⟨some format.order, some format.dataType⟩ ∧ isValidFormat format = true := by
  unfold checkFormat
  split
  · exact iff_of_false (fun h => by cases h) fun h => by cases h.1
  · exact iff_of_false (fun h => by cases h) fun h => by cases h.1
  · exact iff_of_false (fun h => by cases h) fun h => by cases h.1
  · rw [errorIf_bind_ok, Bool.not_eq_false']
    constructor
    · rintro ⟨hvalid, h⟩
      cases h
      exact ⟨rfl, hvalid⟩
    · rintro ⟨h, hvalid⟩
      cases h
      exact ⟨hvalid, rfl⟩

theorem computeImage_iff {devices : List DeviceInfo} {format : ImageFormat} {type : ImageType} {d : CLImageDesc}
    (htype : d.imageType = some type) {img : Image} :
    computeImage none devices (some ⟨some format.order, some format.dataType⟩) (some d) = .ok img ↔
      d.Acceptable devices format type ∧ ¬ d.GivesPitch type ∧ img = d.image format type := by
  unfold computeImage
  rw [bind_ok]
  constructor
  · rintro ⟨f, hf, h⟩
    obtain ⟨hfmt, hvalid⟩ := checkFormat_iff.1 hf
    obtain rfl := ImageFormat.constants_inj hfmt
    simp only [errorIf_bind_ok, bne_eq_false_iff_eq] at h
    obtain ⟨hlevels, hsamples, h⟩ := h
    cases hlim : imageLimits devices format with
    | none => simp [hlim] at h
    | some lim =>
      simp only [hlim, htype] at h
      obtain ⟨sizes, hsizes, h⟩ := bind_ok.1 h
      obtain ⟨desc, hdesc, h⟩ := bind_ok.1 h
      obtain ⟨hfits, rfl⟩ := checkSizes_iff.1 hsizes
      obtain ⟨hpitch, rfl⟩ := setPitches_iff.1 hdesc
      exact ⟨⟨hvalid, hlevels, hsamples, lim, hlim, hfits⟩, hpitch, (Except.ok.inj h).symm⟩
  · rintro ⟨⟨hvalid, hlevels, hsamples, lim, hlim, hfits⟩, hpitch, rfl⟩
    refine ⟨format, checkFormat_iff.2 ⟨rfl, hvalid⟩, ?_⟩
    simp only [errorIf_bind_ok, bne_eq_false_iff_eq]
    refine ⟨hlevels, hsamples, ?_⟩
    simp only [hlim, htype]
    exact bind_ok.2 ⟨_, checkSizes_iff.2 ⟨hfits, rfl⟩, bind_ok.2 ⟨_, setPitches_iff.2 ⟨hpitch, rfl⟩, rfl⟩⟩

namespace CreateImageArgs
variable {c : CreateSite} {x : CreateImageArgs} {img : Image}

/-- Other constants are refused. -/
theorem computeImage_describes {devices : List DeviceInfo} (h : computeImage none devices x.fmt x.desc = .ok img) :
    ∃ format type d, x.Describes format type d := by
  unfold computeImage at h
  obtain ⟨format, hformat, h⟩ := bind_ok.1 h
  have hfmt := (checkFormat_iff.1 hformat).1
  cases hdesc : x.desc with
  | none => simp [hdesc] at h
  | some d =>
    simp only [hdesc, errorIf_bind_ok] at h
    obtain ⟨-, -, h⟩ := h
    cases htype : d.imageType with
    | none => split at h <;> simp [htype] at h
    | some type => exact ⟨format, type, d, hfmt, hdesc, htype⟩

/-- An image over a buffer takes flags from it as soon as it has its type. -/
theorem passesFlags_image {b : MemoryObjectBuilder} {p : ImageParams} (hkind : b.kind = .image) (hp : b.params = .img p)
    (flags : CLMemFlags) (hostPtr : Option Nat) :
    b.PassesFlags flags hostPtr ↔ ∃ f, checkFlags flags hostPtr = .ok f ∧
      (p.type = some .image1DBuffer → (inheritFlags ((p.buf.map Buffer.getFlags).getD 0) f).isOk = true) := by
  have hbuf : b.imageBuffer = if p.type = some .image1DBuffer then some p.buf else none := by
    rw [imageBuffer, hkind, hp]
  unfold PassesFlags
  refine exists_congr fun f => and_congr_right fun _ => ?_
  rw [hbuf]
  split
  · next htype => exact ⟨fun h _ => h _ rfl, fun h buf heq => Option.some.inj heq ▸ h htype⟩
  · next htype => exact ⟨fun _ h => absurd h htype, fun _ buf h => by cases h⟩

theorem create_iff (h : computeImage none (x.devices c) x.fmt x.desc = .ok img) :
    (∃ obj, (x.create c).val = (some obj, .success)) ↔
      (∃ f, checkFlags x.flags x.hostPtr = .ok f ∧
        (img.type = .image1DBuffer → (inheritFlags ((img.buf.map Buffer.getFlags).getD 0) f).isOk = true)) ∧
      c.init = true := by
  -- A context without devices supports no format.
  cases hctx : x.ctx with
  | none =>
    obtain ⟨-, d, lim, sizes, hlim, -⟩ := computeImage_ok h
    rw [devices, hctx] at hlim
    cases hlim
  | some ctx =>
    rw [devices, hctx] at h
    have hnew : (new .image).hostPtr = none := rfl
    let b : MemoryObjectBuilder :=
      { new .image with ctx := some ctx, params := .img { type := some img.type, buf := img.buf, size := img.size.toNat } }
    have hcreate : (x.create c).val = ((b.setGenericFlags c.ndebug x.flags x.hostPtr).val.create c.address c.init).val := by
      have himage : (setImageFrom c.devicesOf { new .image with ctx := some ctx } x.fmt x.desc).val = b := by
        rw [setImageFrom, Checked.val_bind]
        simp only [hnew]
        simp only [Option.elim_some] at h ⊢
        rw [h]
        rfl
      rw [create, hctx, Checked.val_bind, Checked.val_bind, Checked.val_bind, ← himage]
      rfl
    have hpass := passesFlags_image (b := b) rfl rfl x.flags x.hostPtr
    simp only [Option.some.injEq] at hpass
    rw [hcreate, ← hpass, ← setGenericFlags_err rfl]
    generalize (b.setGenericFlags c.ndebug x.flags x.hostPtr).val = b'
    unfold MemoryObjectBuilder.create
    rw [Checked.val_ite]
    by_cases hb' : b'.err = .success
    · rw [if_neg (not_not.2 hb'), Checked.val_bind, Checked.val_ite, and_iff_right hb']
      cases c.init with
      | true => exact iff_of_true ⟨_, rfl⟩ rfl
      | false => exact iff_of_false (by rintro ⟨obj, hobj⟩; cases hobj) Bool.false_ne_true
    · rw [if_pos hb']
      refine iff_of_false ?_ fun h => hb' h.1
      rintro ⟨obj, hobj⟩
      cases hobj

/-- The calls that succeed, and the images that they create. -/
theorem succeeds_iff :
    x.Succeeds c img ↔ ∃ format type d, x.Describes format type d ∧ x.Accepted c format type d ∧ ¬ d.GivesPitch type ∧
      img = d.image format type := by
  have hnew : (new .image).hostPtr = none := rfl
  unfold Succeeds
  rw [hnew]
  constructor
  · rintro ⟨h, hobj⟩
    obtain ⟨format, type, d, hd⟩ := computeImage_describes h
    obtain ⟨hflags, hinit⟩ := (create_iff h).1 hobj
    rw [hd.fmt, hd.desc] at h
    obtain ⟨hdesc, hpitch, rfl⟩ := (computeImage_iff hd.type).1 h
    exact ⟨format, type, d, hd, ⟨hdesc, hflags, hinit⟩, hpitch, rfl⟩
  · rintro ⟨format, type, d, hd, ⟨hdesc, hflags, hinit⟩, hpitch, rfl⟩
    have h : computeImage none (x.devices c) x.fmt x.desc = .ok (d.image format type) := by
      rw [hd.fmt, hd.desc]
      exact (computeImage_iff hd.type).2 ⟨hdesc, hpitch, rfl⟩
    exact ⟨h, (create_iff h).2 ⟨hflags, hinit⟩⟩

end CreateImageArgs

/-! ## What is right of them -/

theorem le_mod_iff {a : Nat} : a ≤ a % 2 ^ 64 ↔ a < 2 ^ 64 := by
  constructor
  · intro h
    exact h.trans_lt (Nat.mod_lt a (Nat.two_pow_pos 64))
  · intro h
    rw [Nat.mod_eq_of_lt h]

section Geometry
variable {devices : List DeviceInfo} {format : ImageFormat} {type : ImageType} {d : CLImageDesc}

theorem getRowPitch_toNat :
    (d.image format type).getRowPitch.toNat = d.imageWidth.toNat * format.elementSize % 2 ^ 64 := by
  have hes := format.elementSize_bounds.2
  change (d.imageWidth * BitVec.ofNat 64 format.elementSize).toNat = _
  rw [BitVec.toNat_mul, BitVec.toNat_ofNat, Nat.mod_eq_of_lt (show format.elementSize < 2 ^ 64 by omega)]

theorem getSlicePitch_toNat (h : requiresSlicePitch type = true) :
    (d.image format type).getSlicePitch.toNat =
      (d.image format type).getRowPitch.toNat * (d.image format type).getHeight.toNat % 2 ^ 64 := by
  have hslice : (d.image format type).getSlicePitch =
      (d.image format type).getRowPitch * (d.image format type).getHeight := if_pos h
  rw [hslice, BitVec.toNat_mul]

/-- The limits that `setImage` looks at are kept. -/
theorem allows_iff {lim : ImageLimits} {dev : DeviceInfo} (hbelow : lim.Below dev)
    (hfits : d.Fits lim (BitVec.ofNat 64 format.elementSize) type) (hrows : type ≠ .image1DArray) :
    dev.Allows (d.image format type) ↔
      (type = .image1D → d.imageWidth ≤ dev.image2DMaxWidth) ∧ (type = .image3D → d.imageDepth ≤ dev.image3DMaxDepth) := by
  constructor
  · intro h
    refine ⟨?_, ?_⟩
    · rintro rfl
      exact h.width
    · rintro rfl
      exact h.depth rfl
  rintro ⟨hwidth, hdepth⟩
  have hle : ∀ {a b c : SizeT}, a < b → b ≤ c → a ≤ c := fun hab hbc => BitVec.le_trans (BitVec.le_of_lt hab) hbc
  have hheight : type = .image2D ∨ type = .image2DArray ∨ type = .image3D → (d.image format type).getHeight = d.imageHeight :=
    fun h => if_pos h
  refine ⟨?width, ?height, ?height3D, ?depth, ?arraySize⟩
  case width =>
    have hfit := hfits.width
    change d.imageWidth ≤ _
    cases type with
    | image1DArray => exact absurd rfl hrows
    | image1D => exact hwidth rfl
    | image1DBuffer =>
      have hdiv : lim.mmImgBufSize / BitVec.ofNat 64 format.elementSize ≤ lim.mmImgBufSize := by
        rw [BitVec.le_def, BitVec.toNat_udiv]
        exact Nat.div_le_self _ _
      exact hle hfit (BitVec.le_trans hdiv hbelow.bufSize)
    | image2D => exact hle hfit hbelow.img2DWidth
    | image2DArray => exact hle hfit hbelow.img2DWidth
    | image3D => exact hle hfit hbelow.img3DWidth
  case height =>
    intro h
    rw [hheight (h.elim .inl fun h => .inr (.inl h))]
    exact hle (hfits.height h).2 hbelow.img2DHeight
  case height3D =>
    intro h
    rw [hheight (.inr (.inr h))]
    exact hle (hfits.volume h).2.1 hbelow.img3DHeight
  case depth =>
    rintro rfl
    exact hdepth rfl
  case arraySize =>
    intro h
    have harray : (d.image format type).getArraySize = d.imageArraySize := if_pos h
    rw [harray]
    exact hle (hfits.arraySize h).2 hbelow.arraySize

/-- The row is not longer than a word can say. -/
theorem rowPitch_iff : (d.image format type).getWidth.toNat * format.elementSize ≤ (d.image format type).getRowPitch.toNat ↔
    d.imageWidth.toNat * format.elementSize < 2 ^ 64 := by
  rw [getRowPitch_toNat]
  exact le_mod_iff

/-- An array of rows has no slice pitch, and a row. -/
theorem slicePitch_iff (hpos : 0 < (d.image format type).getRowPitch.toNat) :
    (requiresSlicePitch type = true →
      (d.image format type).getRowPitch.toNat * type.rows (d.image format type).getHeight.toNat ≤
        (d.image format type).getSlicePitch.toNat) ↔
      type ≠ .image1DArray ∧ (type = .image2DArray ∨ type = .image3D →
        (d.image format type).getRowPitch.toNat * d.imageHeight.toNat < 2 ^ 64) := by
  cases type with
  | image1D | image1DBuffer | image2D => exact iff_of_true (fun h => by cases h) ⟨by decide, by simp⟩
  | image1DArray =>
    have hzero : (d.image format .image1DArray).getSlicePitch.toNat = 0 := by
      rw [getSlicePitch_toNat rfl]
      simp [Image.getHeight, CLImageDesc.image, pitched, CLImageDesc.sizes]
    refine iff_of_false (fun h => ?_) fun h => h.1 rfl
    have hle := h rfl
    rw [hzero, ImageType.rows, if_pos rfl, Nat.mul_one] at hle
    omega
  | image2DArray =>
    rw [getSlicePitch_toNat rfl]
    simp only [ImageType.rows, reduceCtorEq, if_false, le_mod_iff, ne_eq, not_false_eq_true, true_and, true_or, true_implies]
    exact ⟨fun h => h rfl, fun h _ => h⟩
  | image3D =>
    rw [getSlicePitch_toNat rfl]
    simp only [ImageType.rows, reduceCtorEq, if_false, le_mod_iff, ne_eq, not_false_eq_true, true_and, or_true, true_implies]
    exact ⟨fun h => h rfl, fun h _ => h⟩

theorem size_iff {row : Nat} (hrow : (d.image format type).getRowPitch.toNat = row) (hrows : type ≠ .image1DArray)
    (hplane : type = .image2DArray ∨ type = .image3D → row * d.imageHeight.toNat < 2 ^ 64) :
    (d.image format type).size.toNat = (d.image format type).spanned ↔
      (type = .image2D → row * d.imageHeight.toNat < 2 ^ 64) ∧
      (type = .image2DArray ∨ type = .image3D →
        let n := if type = .image3D then d.imageDepth.toNat else d.imageArraySize.toNat
        row * (row * d.imageHeight.toNat) * n % 2 ^ 64 = row * d.imageHeight.toNat * n) := by
  -- the bytes of slices, which are multiplied by the row's
  have hslices : ∀ {rp sp n : SizeT} {h : Nat}, rp.toNat = row → sp.toNat = row * h →
      ((rp * sp * n).toNat = sp.toNat * n.toNat ↔ row * (row * h) * n.toNat % 2 ^ 64 = row * h * n.toNat) := by
    intro rp sp n h hrp hsp
    rw [BitVec.toNat_mul, BitVec.toNat_mul, Nat.mod_mul_mod, hrp, hsp]
  cases type with
  | image1DArray => exact absurd rfl hrows
  | image1D | image1DBuffer => exact iff_of_true rfl ⟨by simp, by simp⟩
  | image2D =>
    have hsize : (d.image format .image2D).size.toNat = row * d.imageHeight.toNat % 2 ^ 64 := by
      change ((d.image format .image2D).getRowPitch * d.imageHeight).toNat = _
      rw [BitVec.toNat_mul, hrow]
    have hspanned : (d.image format .image2D).spanned = row * d.imageHeight.toNat := by
      change (d.image format .image2D).getRowPitch.toNat * d.imageHeight.toNat = _
      rw [hrow]
    rw [hsize, hspanned, Nat.mod_eq_iff_lt (by decide)]
    simp
  | image2DArray =>
    have hslice : (d.image format .image2DArray).getSlicePitch.toNat = row * d.imageHeight.toNat := by
      rw [getSlicePitch_toNat rfl, hrow]
      exact Nat.mod_eq_of_lt (hplane (.inl rfl))
    have hiff := hslices (n := d.imageArraySize) hrow hslice
    refine hiff.trans ⟨fun h => ⟨by simp, fun _ => h⟩, fun h => h.2 (.inl rfl)⟩
  | image3D =>
    have hslice : (d.image format .image3D).getSlicePitch.toNat = row * d.imageHeight.toNat := by
      rw [getSlicePitch_toNat rfl, hrow]
      exact Nat.mod_eq_of_lt (hplane (.inr rfl))
    have hiff := hslices (n := d.imageDepth) hrow hslice
    refine hiff.trans ⟨fun h => ⟨by simp, fun _ => h⟩, fun h => h.2 (.inr rfl)⟩

theorem geometry_iff (h : d.Acceptable devices format type) :
    (d.image format type).Geometry devices ↔ CreateImageArgs.Plain devices format type d := by
  obtain ⟨-, -, -, lim, hlim, hfits⟩ := h
  have hwidth : 0 < d.imageWidth.toNat := Nat.pos_of_ne_zero fun h => hfits.width_pos (BitVec.eq_of_toNat_eq h)
  -- A row that wraps around is excluded on both sides.
  by_cases hrow : d.imageWidth.toNat * format.elementSize < 2 ^ 64
  case neg => exact iff_of_false (fun h => hrow (rowPitch_iff.1 h.rowPitch)) fun h => hrow h.row
  have hpitch : (d.image format type).getRowPitch.toNat = d.imageWidth.toNat * format.elementSize := by
    rw [getRowPitch_toNat, Nat.mod_eq_of_lt hrow]
  have hpos : 0 < (d.image format type).getRowPitch.toNat := hpitch ▸ Nat.mul_pos hwidth format.elementSize_bounds.1
  have hslice := slicePitch_iff hpos
  rw [hpitch] at hslice
  constructor
  · rintro ⟨-, hslicePitch, hsize, hlimits⟩
    rw [hpitch] at hslicePitch
    obtain ⟨hrows, hplane⟩ := hslice.1 hslicePitch
    obtain ⟨hflat, hslices⟩ := (size_iff hpitch hrows hplane).1 hsize
    have hallows : ∀ dev ∈ devices, dev.isImageFormatSupported format = true → _ := fun dev hdev hsup =>
      (allows_iff (imageLimits_below hlim dev hdev hsup) hfits hrows).1 (hlimits dev hdev hsup)
    refine ⟨hrow, hrows, ?_, hslices, fun ht dev hdev hsup => ?_, fun ht dev hdev hsup => ?_⟩
    · rintro (ht | ht)
      · exact hflat ht
      · exact hplane ht
    · exact (hallows dev hdev hsup).1 ht
    · exact (hallows dev hdev hsup).2 ht
  · intro hplain
    have hplane : type = .image2DArray ∨ type = .image3D → _ := fun ht => hplain.plane (.inr ht)
    refine ⟨rowPitch_iff.2 hrow, ?_, ?_, fun dev hdev hsup => ?_⟩
    · rw [hpitch]
      exact hslice.2 ⟨hplain.rows, hplane⟩
    · exact (size_iff hpitch hplain.rows hplane).2 ⟨fun ht => hplain.plane (.inl ht), hplain.slices⟩
    · exact (allows_iff (imageLimits_below hlim dev hdev hsup) hfits hplain.rows).2
        ⟨fun ht => hplain.width ht dev hdev hsup, fun ht => hplain.depth ht dev hdev hsup⟩

end Geometry

namespace CreateImageArgs
variable {c : CreateSite} {x : CreateImageArgs} {format format' : ImageFormat} {type type' : ImageType} {d d' : CLImageDesc}

theorem Describes.unique (h : x.Describes format type d) (h' : x.Describes format' type' d') :
    format = format' ∧ type = type' ∧ d = d' := by
  obtain ⟨hfmt, hdesc, htype⟩ := h
  obtain ⟨hfmt', hdesc', htype'⟩ := h'
  have hd : d = d' := Option.some.inj (hdesc.symm.trans hdesc')
  subst hd
  exact ⟨ImageFormat.constants_inj (hfmt.symm.trans hfmt'), Option.some.inj (htype.symm.trans htype'), rfl⟩

theorem Describes.withoutPitches (h : x.Describes format type d) :
    x.withoutPitches.Describes format type { d with imageRowPitch := 0, imageSlicePitch := 0 } := by
  refine ⟨h.fmt, ?_, h.type⟩
  rw [CreateImageArgs.withoutPitches, h.desc]
  rfl

/-- Nothing else depends on the pitches. -/
theorem accepted_withoutPitches :
    x.withoutPitches.Accepted c format type { d with imageRowPitch := 0, imageSlicePitch := 0 } ↔
      x.Accepted c format type d := by
  have hfits : ∀ lim elementSize,
      { d with imageRowPitch := 0, imageSlicePitch := 0 }.Fits lim elementSize type ↔ d.Fits lim elementSize type := by
    intro lim elementSize
    rw [CLImageDesc.fits_iff, CLImageDesc.fits_iff]
  constructor
  · rintro ⟨⟨hvalid, hlevels, hsamples, lim, hlim, h⟩, hflags, hinit⟩
    exact ⟨⟨hvalid, hlevels, hsamples, lim, hlim, (hfits _ _).1 h⟩, hflags, hinit⟩
  · rintro ⟨⟨hvalid, hlevels, hsamples, lim, hlim, h⟩, hflags, hinit⟩
    exact ⟨⟨hvalid, hlevels, hsamples, lim, hlim, (hfits _ _).2 h⟩, hflags, hinit⟩

/-- The same call without pitches succeeds if all but the pitches is accepted. -/
theorem withoutPitches_succeeds_iff (h : x.Describes format type d) :
    (∃ img, x.withoutPitches.Succeeds c img) ↔ x.Accepted c format type d := by
  rw [← accepted_withoutPitches]
  constructor
  · rintro ⟨img, hsucc⟩
    obtain ⟨format', type', d', hd', hacc, -, -⟩ := succeeds_iff.1 hsucc
    obtain ⟨rfl, rfl, rfl⟩ := h.withoutPitches.unique hd'
    exact hacc
  · intro hacc
    refine ⟨_, succeeds_iff.2 ⟨format, type, _, h.withoutPitches, hacc, ?_, rfl⟩⟩
    rintro (hrow | ⟨-, hslice⟩)
    · exact hrow rfl
    · exact hslice rfl

/-- Images come out right and valid pitches are used if and only if nothing is accepted that does not come
out right or has such pitches. -/
theorem geometry_right_iff (c : CreateSite) (x : CreateImageArgs) : x.GeometryRight c ↔ x.Harmless c := by
  constructor
  · rintro ⟨hlaid, hused⟩
    refine ⟨?_, ?_⟩
    · intro format type d hd hacc hgives
      exact (geometry_iff hacc.desc).1 (hlaid _ (succeeds_iff.2 ⟨format, type, d, hd, hacc, hgives, rfl⟩))
    · intro hptr format type d hd hvalid hacc
      obtain ⟨img, hsucc, -⟩ := hused hptr format type d hd hvalid ((withoutPitches_succeeds_iff hd).2 hacc)
      -- With the pitches the call fails: there is no host pointer yet.
      obtain ⟨format', type', d', hd', -, hgives, -⟩ := succeeds_iff.1 hsucc
      obtain ⟨rfl, rfl, rfl⟩ := hd.unique hd'
      exact hgives
  · rintro ⟨hplain, hunpitched⟩
    refine ⟨?_, ?_⟩
    · intro img hsucc
      obtain ⟨format, type, d, hd, hacc, hgives, rfl⟩ := succeeds_iff.1 hsucc
      exact (geometry_iff hacc.desc).2 (hplain format type d hd hacc hgives)
    · intro hptr format type d hd hvalid hwithout
      have hacc := (withoutPitches_succeeds_iff hd).1 hwithout
      have hgives := hunpitched hptr format type d hd hvalid hacc
      rw [CLImageDesc.GivesPitch, not_or, not_and] at hgives
      refine ⟨_, succeeds_iff.2 ⟨format, type, d, hd, hacc, not_or.2 ⟨hgives.1, not_and.2 hgives.2⟩, rfl⟩, ?_, ?_⟩
      · intro hrow
        exact absurd hrow hgives.1
      · intro hreq hslice
        exact absurd hslice (hgives.2 hreq)

/-- Two rows of four bytes each, which are eight bytes apart where the host has them. -/
def paddedRows : CreateImageArgs where
  ctx := some 0
  flags := CLMemFlags.ofFlags MemFlags.UseHostPtr
  fmt := some ⟨some .r, some .unsignedInt8⟩
  desc := some { imageType := some .image2D, imageWidth := 4, imageHeight := 2, imageRowPitch := 8 }
  hostPtr := some 0x1000

theorem paddedRows_refused :
    ¬ paddedRows.GeometryRight
      { ndebug := true, address := fun _ => 0, init := true, devicesOf := fun _ => contextDevices 1 } := by
  rintro ⟨-, hused⟩
  obtain ⟨img, hsucc, -⟩ := hused rfl ⟨.r, .unsignedInt8⟩ .image2D _ ⟨rfl, rfl, rfl⟩
    ⟨.inr (by decide), fun h => by cases h⟩ ⟨_, rfl, _, rfl⟩
  cases hsucc.1

end CreateImageArgs

end OpenCRun
