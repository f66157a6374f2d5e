import OpenCRun.Core.ImageBuilders
import OpenCRun.Device.FillColor
import OpenCRun.Lib.Raster
/-!
# Pixels of images

Commands on images copy and fill bytes, row by row. Seen by their pixels,
images are rasters: writing, copying and filling paste into a box of one, and
reading cuts a box out. A run of commands does this, one after the other.
-/
open Lib Lib.Bytes Lib.Footprint OpenCRun.CPUThread

namespace OpenCRun.ImagePixels

/-! ## Pixels in memory -/

abbrev Pixel := List (BitVec 8)

/-- The pixels of a rectangle. -/
def pixels (a : Rectangle) (size : Nat) (m : Memory 64) : Raster (Fin 3) Pixel := fun p =>
  load m (a.byte (p 0 * size) (p 1) (p 2)) size

/-- Coordinates that are machine words. -/
def nats (o : Fin 3 → SizeT) : Fin 3 → Nat := fun d => (o d).toNat

/-- A region with its width in bytes. -/
def inBytes (size : Nat) (r : Fin 3 → SizeT) : Fin 3 → SizeT := Function.update r 0 (r 0 * BitVec.ofNat 64 size)

theorem forall_axes {P : Fin 3 → Prop} (h0 : P 0) (h1 : P 1) (h2 : P 2) : ∀ d, P d :=
  Fin.forall_fin_succ.2 ⟨h0, Fin.forall_fin_succ.2 ⟨h1, Fin.forall_fin_one.2 h2⟩⟩

section

variable {a b : Rectangle} {size : Nat} {r : Fin 3 → SizeT} {m m' : Memory 64} {p : Fin 3 → Nat}

/-- The byte of a pixel of a region is in a row of it. -/
theorem column_lt (hw : (r 0).toNat * size < 2 ^ 64) (hp : ∀ d, p d < nats r d) {k : Nat} (hk : k < size) :
    p 0 * size + k < (inBytes size r 0).toNat := by
  have hle : (p 0 + 1) * size ≤ (r 0).toNat * size := Nat.mul_le_mul_right _ (hp 0)
  have hsize : size < 2 ^ 64 ∨ (r 0).toNat = 0 := by
    rcases Nat.eq_zero_or_pos (r 0).toNat with h | h
    · exact .inr h
    · exact .inl (lt_of_le_of_lt (Nat.le_mul_of_pos_left size h) hw)
  have hpos : (r 0).toNat ≠ 0 := Nat.ne_zero_of_lt (hp 0)
  have hword : (inBytes size r 0).toNat = (r 0).toNat * size := by
    rw [inBytes, Function.update_self, BitVec.toNat_mul, BitVec.toNat_ofNat,
      Nat.mod_eq_of_lt (hsize.resolve_right hpos), Nat.mod_eq_of_lt hw]
  rw [hword]
  rw [Nat.succ_mul] at hle
  omega

/-- The product is a word that may have wrapped around. -/
theorem width_le (size : Nat) (r : Fin 3 → SizeT) : (inBytes size r 0).toNat ≤ (r 0).toNat * size := by
  rw [inBytes, Function.update_self, BitVec.toNat_mul]
  refine (Nat.mod_le _ _).trans (Nat.mul_le_mul_left _ ?_)
  rw [BitVec.toNat_ofNat]
  exact Nat.mod_le _ _

theorem byte_mem (hw : (r 0).toNat * size < 2 ^ 64) (hp : ∀ d, p d < nats r d) {k : Nat} (hk : k < size) :
    a.byte (p 0 * size + k) (p 1) (p 2) ∈ a.bytes (inBytes size r) :=
  ⟨_, column_lt hw hp hk, _, hp 1, _, hp 2, rfl⟩

/-- What is written to the bytes of a region is seen in its pixels. -/
theorem pixels_written {value : Nat → Nat → Nat → BitVec 8} (hw : (r 0).toNat * size < 2 ^ 64)
    (h : a.Written (inBytes size r) value m m') (hp : ∀ d, p d < nats r d) :
    pixels a size m' p = (List.range size).map fun k => value (p 0 * size + k) (p 1) (p 2) := by
  refine List.map_congr_left fun k hk => ?_
  rw [a.byte_add]
  exact h.values _ (column_lt hw hp (List.mem_range.1 hk)) _ (hp 1) _ (hp 2)

/-- A copy of a rectangle copies its pixels. -/
theorem pixels_copied (hw : (r 0).toNat * size < 2 ^ 64)
    (h : a.Written (inBytes size r) (fun x y z => m (b.byte x y z)) m m') (hp : ∀ d, p d < nats r d) :
    pixels a size m' p = pixels b size m p := by
  rw [pixels_written hw h hp]
  refine List.map_congr_left fun k _ => ?_
  rw [b.byte_add]

end

/-! ## Images in memory -/

/-- `setImage` has accepted the image, for a context of `n` devices. -/
def Made (img : ImageObject) : Prop :=
  ∃ n fmt desc, MemoryObjectBuilder.computeImage none (contextDevices n) fmt desc = .ok img.image

abbrev sizeOf (img : ImageObject) : Nat := img.image.format.elementSize

/-- A region with its end in the image, as the numbers add. -/
def Within (img : ImageObject) (o r : Fin 3 → SizeT) : Prop := ∀ d, (o d).toNat + (r d).toNat ≤ img.image.extent d

/-- The bytes of an image. -/
def storage (img : ImageObject) (base : SizeT) : Rectangle where
  address := base
  rowPitch := img.image.getRowPitch
  slicePitch := img.image.getSlicePitch

/-- The bytes from the origin of a region. -/
def regionFrom (img : ImageObject) (base : SizeT) (o : Fin 3 → SizeT) : Rectangle :=
  { storage img base with address := base + img.image.offset o }

section

variable {img : ImageObject} {base : SizeT} {o r : Fin 3 → SizeT} {p p' : Fin 3 → Nat} {m m' : Memory 64}

/-- Each slice ends where the next one begins. -/
theorem slice_eq (h : Made img) (hslices : 1 < img.image.extent 2) :
    img.image.extent 1 * img.image.getRowPitch.toNat = img.image.getSlicePitch.toNat := by
  obtain ⟨n, fmt, desc, h⟩ := h
  obtain ⟨-, d, lim, sizes, hlim, hsizes, hdesc, -⟩ := MemoryObjectBuilder.computeImage_ok h
  cases imageLimits_contextDevices hlim
  have hallowed := MemoryObjectBuilder.checkSizes_ok img.image.format.elementSize_bounds.2 hsizes
  have hrow := (MemoryObjectBuilder.computeImage_laid h).rowPitch
  have hpitched := MemoryObjectBuilder.setPitches_ok hdesc
  have htype : MemoryObjectBuilder.requiresSlicePitch img.image.type = true ∧
      img.image.extent 1 = img.image.getHeight.toNat := by
    cases ht : img.image.type <;> simp [Image.extent, ht, MemoryObjectBuilder.requiresSlicePitch] at hslices ⊢
  have hslicePitch : img.image.getSlicePitch = img.image.getRowPitch * img.image.getHeight := by
    simp [Image.getSlicePitch, Image.getRowPitch, Image.getHeight, hpitched, MemoryObjectBuilder.pitched, htype.1]
  have hrowlt : img.image.getRowPitch.toNat < 2 ^ 17 := by
    have hwidth : img.image.getWidth = sizes.width := by simp [Image.getWidth, hpitched, MemoryObjectBuilder.pitched]
    rw [hrow, hwidth]
    exact hallowed.width
  have hheight : img.image.getHeight.toNat < 2 ^ 13 := by
    have hheight : img.image.getHeight = sizes.height := by simp [Image.getHeight, hpitched, MemoryObjectBuilder.pitched]
    rw [hheight]
    exact hallowed.height
  rw [htype.2, hslicePitch, (MemoryObjectBuilder.toNat_mul_of_lt hrowlt hheight (by decide)).1, Nat.mul_comm]

theorem slice_le (h : Made img) (hslices : 1 < img.image.extent 2) :
    img.image.extent 1 * img.image.getRowPitch.toNat ≤ img.image.getSlicePitch.toNat := (slice_eq h hslices).le

theorem laid_of_made (h : Made img) : img.image.Laid :=
  let ⟨_, _, _, himg⟩ := h
  MemoryObjectBuilder.computeImage_laid himg

theorem valid_of_made (h : Made img) : isValidFormat img.image.format = true :=
  let ⟨_, _, _, himg⟩ := h
  (MemoryObjectBuilder.computeImage_ok himg).1

/-- Rows begin with a pixel. -/
theorem element_dvd_row (h : Made img) {x y z : Nat} (hz : z < img.image.extent 2) :
    sizeOf img ∣ (storage img base).offset (x * sizeOf img) y z := by
  have hrow : sizeOf img ∣ img.image.getRowPitch.toNat := ⟨_, (laid_of_made h).rowPitch.trans (Nat.mul_comm _ _)⟩
  have hslice : sizeOf img ∣ z * img.image.getSlicePitch.toNat := by
    rcases Nat.eq_zero_or_pos z with rfl | hpos
    · rw [Nat.zero_mul]
      exact dvd_zero _
    · rw [← slice_eq h (by omega)]
      exact (hrow.mul_left _).mul_left z
  exact Nat.dvd_add (Nat.dvd_add hslice (hrow.mul_left y)) (Nat.dvd_mul_left _ x)

/-- The bytes of a pixel are in its row. -/
theorem column_le (hp : p 0 < img.image.extent 0) (h : Made img) {k : Nat} (hk : k < sizeOf img) :
    p 0 * sizeOf img + k < img.image.getRowPitch.toNat := by
  have hle : (p 0 + 1) * sizeOf img ≤ img.image.getWidth.toNat * sizeOf img := Nat.mul_le_mul_right _ hp
  have hrow : img.image.getRowPitch.toNat = img.image.getWidth.toNat * sizeOf img := (laid_of_made h).rowPitch
  rw [Nat.succ_mul] at hle
  omega

/-- Bytes in the rows and slices of an image are in its storage. -/
theorem offset_lt (base : SizeT) (h : Made img) {x y z : Nat} (hx : x < img.image.getRowPitch.toNat) (hy : y < img.image.extent 1)
    (hz : z < img.image.extent 2) : (storage img base).offset x y z < img.image.size.toNat := by
  have hfits := (laid_of_made h).fits
  have hrow : (y + 1) * img.image.getRowPitch.toNat ≤ img.image.extent 1 * img.image.getRowPitch.toNat :=
    Nat.mul_le_mul_right _ hy
  have hslice : z * img.image.getSlicePitch.toNat ≤ (img.image.extent 2 - 1) * img.image.getSlicePitch.toNat :=
    Nat.mul_le_mul_right _ (by omega)
  rw [Nat.succ_mul] at hrow
  simp only [Rectangle.offset, storage]
  omega

/-- The bytes of a region, as bytes of the image. -/
theorem regionFrom_byte (x y z : Nat) :
    (regionFrom img base o).byte x y z =
      (storage img base).byte ((o 0).toNat * sizeOf img + x) ((o 1).toNat + y) ((o 2).toNat + z) := by
  simp only [regionFrom, Rectangle.byte, Rectangle.offset, storage, Image.offset, Image.getElementSize, BitVec.ofNat_add,
    BitVec.ofNat_mul, BitVec.ofNat_toNat, BitVec.setWidth_eq, Nat.add_mul]
  ac_rfl

theorem pixels_regionFrom :
    pixels (regionFrom img base o) (sizeOf img) m = Raster.cut (nats o) (pixels (storage img base) (sizeOf img) m) := by
  funext p
  simp only [pixels, Raster.cut, regionFrom_byte, nats, Pi.add_apply, Nat.add_mul]

/-- The rows of a region end in rows of the image. -/
theorem row_le (h : Made img) (hin : Within img o r) :
    (o 0).toNat * sizeOf img + (inBytes (sizeOf img) r 0).toNat ≤ img.image.getRowPitch.toNat := by
  have hwidth : ((o 0).toNat + (r 0).toNat) * sizeOf img ≤ img.image.getWidth.toNat * sizeOf img :=
    Nat.mul_le_mul_right _ (hin 0)
  have hrow : img.image.getRowPitch.toNat = img.image.getWidth.toNat * sizeOf img := (laid_of_made h).rowPitch
  have hword := width_le (sizeOf img) r
  rw [Nat.add_mul] at hwidth
  omega

/-- A region in an image keeps to rows and slices. -/
theorem regionFrom_holds (h : Made img) (hin : Within img o r) :
    (regionFrom img base o).Holds (inBytes (sizeOf img) r) := by
  have hrow := row_le h hin
  refine ⟨?_, ?_, ?_⟩
  · exact le_of_add_le_right hrow
  · intro hslices
    have h2 : 1 < img.image.extent 2 := lt_of_lt_of_le hslices (le_of_add_le_right (hin 2))
    exact (Nat.mul_le_mul_right _ (le_of_add_le_right (hin 1))).trans (slice_le h h2)
  · intro x hx y hy z hz
    have hlt : (storage img base).offset x y z < img.image.size.toNat := by
      refine offset_lt base h ?_ ?_ ?_
      · omega
      · exact lt_of_lt_of_le hy (le_of_add_le_right (hin 1))
      · exact lt_of_lt_of_le hz (le_of_add_le_right (hin 2))
    exact hlt.trans img.image.size.isLt

theorem region_subset (base : SizeT) (h : Made img) (hin : Within img o r) :
    (regionFrom img base o).bytes (inBytes (sizeOf img) r) ⊆ range base img.image.size.toNat := by
  rintro _ ⟨x, hx, y, hy, z, hz, rfl⟩
  have hrow := row_le h hin
  rw [regionFrom_byte]
  refine ⟨_, offset_lt base h ?_ ?_ ?_, rfl⟩
  · omega
  · exact (Nat.add_lt_add_left hy _).trans_le (hin 1)
  · exact (Nat.add_lt_add_left hz _).trans_le (hin 2)

/-- Each byte of each pixel has an address of its own. -/
theorem byte_inj (h : Made img) (hp : ∀ d, p d < img.image.extent d) (hp' : ∀ d, p' d < img.image.extent d) {k k' : Nat}
    (hk : k < sizeOf img) (hk' : k' < sizeOf img)
    (heq : (storage img base).byte (p 0 * sizeOf img + k) (p 1) (p 2) =
      (storage img base).byte (p' 0 * sizeOf img + k') (p' 1) (p' 2)) : p = p' := by
  have hx := column_le (hp 0) h hk
  have hx' := column_le (hp' 0) h hk'
  have hlt := offset_lt base h hx (hp 1) (hp 2)
  have hlt' := offset_lt base h hx' (hp' 1) (hp' 2)
  have hoffset : (storage img base).offset (p 0 * sizeOf img + k) (p 1) (p 2) =
      (storage img base).offset (p' 0 * sizeOf img + k') (p' 1) (p' 2) := by
    have hword := congrArg BitVec.toNat ((BitVec.add_right_inj base).1 heq)
    have hsize := img.image.size.isLt
    rwa [BitVec.toNat_ofNat, BitVec.toNat_ofNat, Nat.mod_eq_of_lt (by omega), Nat.mod_eq_of_lt (by omega)] at hword
  let rows : Strided := ⟨0, img.image.getRowPitch.toNat, img.image.getSlicePitch.toNat, img.image.getRowPitch.toNat,
    img.image.extent 1, img.image.extent 2⟩
  have hapart : rows.Apart := ⟨le_rfl, slice_le h⟩
  have hbyte : rows.byte (p 0 * sizeOf img + k) (p 1) (p 2) = rows.byte (p' 0 * sizeOf img + k') (p' 1) (p' 2) := by
    simp only [Rectangle.offset, storage] at hoffset
    simp only [rows, Strided.byte]
    push_cast at hoffset ⊢
    omega
  obtain ⟨h0, h1, h2⟩ := Strided.byte_inj hapart hx hx' (hp 1) (hp' 1) (hp 2) (hp' 2) hbyte
  have h0 := (Strided.digit_inj hk hk' (by rwa [Nat.add_comm k, Nat.add_comm k'])).2
  exact funext (forall_axes h0 h1 h2)

theorem element_pos (img : ImageObject) : 0 < sizeOf img := img.image.format.elementSize_bounds.1

/-- Each byte of a region is one of a pixel of it. -/
theorem exists_pixel (hin : Within img o r) {a : SizeT}
    (ha : a ∈ (regionFrom img base o).bytes (inBytes (sizeOf img) r)) :
    ∃ p ∈ Raster.box (nats o) (nats r), (∀ d, p d < img.image.extent d) ∧
      ∃ k < sizeOf img, a = (storage img base).byte (p 0 * sizeOf img + k) (p 1) (p 2) := by
  obtain ⟨x, hx, y, hy, z, hz, rfl⟩ := ha
  have hsize := element_pos img
  let q : Fin 3 → Nat := ![x / sizeOf img, y, z]
  have hq : ∀ d, q d < nats r d := by
    intro d
    match d with
    | 0 => exact (Nat.div_lt_iff_lt_mul hsize).2 (hx.trans_le (width_le _ r))
    | 1 => exact hy
    | 2 => exact hz
  have hcolumn : (o 0).toNat * sizeOf img + x = (nats o + q) 0 * sizeOf img + x % sizeOf img := by
    have hdiv := Nat.div_add_mod' x (sizeOf img)
    simp only [nats, q, Pi.add_apply, Matrix.cons_val_zero, Nat.add_mul]
    omega
  refine ⟨nats o + q, Raster.add_mem_box.2 hq, fun d => ?_, x % sizeOf img, Nat.mod_lt _ hsize, ?_⟩
  · exact (Nat.add_lt_add_left (hq d) _).trans_le (hin d)
  · rw [regionFrom_byte, hcolumn]
    rfl

theorem mem_box_of_byte (hin : Within img o r) (h : Made img) (hp : ∀ d, p d < img.image.extent d) {k : Nat}
    (hk : k < sizeOf img)
    (hmem : (storage img base).byte (p 0 * sizeOf img + k) (p 1) (p 2) ∈
      (regionFrom img base o).bytes (inBytes (sizeOf img) r)) : p ∈ Raster.box (nats o) (nats r) := by
  obtain ⟨p', hbox, hp', k', hk', heq⟩ := exists_pixel hin hmem
  rwa [byte_inj h hp hp' hk hk' heq]

/-- Regions without a pixel in common have no byte in common. -/
theorem regions_disjoint (h : Made img) (hin : Within img o r) {o' r' : Fin 3 → SizeT} (hin' : Within img o' r')
    (hdisj : Disjoint (Raster.box (nats o) (nats r)) (Raster.box (nats o') (nats r'))) :
    Disjoint ((regionFrom img base o).bytes (inBytes (sizeOf img) r))
      ((regionFrom img base o').bytes (inBytes (sizeOf img) r')) := by
  refine Set.disjoint_left.2 fun a ha ha' => ?_
  obtain ⟨p, hbox, hp, k, hk, rfl⟩ := exists_pixel hin ha
  exact Set.disjoint_left.1 hdisj hbox (mem_box_of_byte hin' h hp hk ha')

/-- The other pixels are as they were. -/
theorem pixels_pasted {f : Raster (Fin 3) Pixel} (h : Made img) (hin : Within img o r)
    (hregion : ∀ p, (∀ d, p d < nats r d) → pixels (regionFrom img base o) (sizeOf img) m' p = f p)
    (hothers : ∀ a ∉ (regionFrom img base o).bytes (inBytes (sizeOf img) r),
      a ∈ range base img.image.size.toNat → m' a = m a)
    (hp : ∀ d, p d < img.image.extent d) :
    pixels (storage img base) (sizeOf img) m' p =
      Raster.paste (nats o) (nats r) f (pixels (storage img base) (sizeOf img) m) p := by
  by_cases hbox : p ∈ Raster.box (nats o) (nats r)
  · rw [Raster.paste_of_mem hbox, ← hregion _ (Raster.sub_lt_of_mem hbox), pixels_regionFrom, Raster.cut,
      Raster.add_sub_of_mem hbox]
  · rw [Raster.paste_of_notMem hbox]
    refine List.map_congr_left fun k hk => ?_
    rw [List.mem_range] at hk
    rw [Rectangle.byte_add]
    refine hothers _ (fun hmem => hbox (mem_box_of_byte hin h hp hk hmem)) ?_
    exact ⟨_, offset_lt _ h (column_le (hp 0) h hk) (hp 1) (hp 2), rfl⟩

end

/-! ## Commands on the device -/

/-- The images of a run, with their storage; `stack` is where the thread makes the data of fills. Both are aligned as
the largest pixels. -/
structure Gallery where
  images : Set ImageObject
  base : ImageObject → SizeT
  stack : SizeT
  made : ∀ img ∈ images, Made img
  apart : images.PairwiseDisjoint fun img => range (base img) img.image.size.toNat
  stack_apart : ∀ img ∈ images, Disjoint (range stack 16) (range (base img) img.image.size.toNat)
  aligned : ∀ img ∈ images, 16 ∣ (base img).toNat
  stack_aligned : 16 ∣ stack.toNat

/-- A command that a builder has created, with the fields that the device uses. -/
inductive ImageCall where
  | read (img : ImageObject) (o r : Fin 3 → SizeT) (pointer : Nat) (rowPitch slicePitch : SizeT)
  | write (img : ImageObject) (o r : Fin 3 → SizeT) (pointer : Nat) (rowPitch slicePitch : SizeT)
  | copy (target source : ImageObject) (t s r : Fin 3 → SizeT)
  | fill (img : ImageObject) (o r : Fin 3 → SizeT) (color : Source)

/-- The memory of the host that a command reads or writes. -/
def area (pointer : Nat) (rowPitch slicePitch : SizeT) : Rectangle := ⟨BitVec.ofNat 64 pointer, rowPitch, slicePitch⟩

namespace ImageCall

/-- A call of an entry point made the command. -/
def Issued (q : QueueInfo) : ImageCall → Prop
  | read img o r pointer rowPitch slicePitch => ∃ x cmd, (EnqueueReadImageBuilder.build q x).create = .ok cmd ∧
      cmd.params = ⟨some img, some pointer, x.blocking, some o, some r, some rowPitch, some slicePitch⟩
  | write img o r pointer rowPitch slicePitch => ∃ x cmd, (EnqueueWriteImageBuilder.build q x).create = .ok cmd ∧
      cmd.params = ⟨some img, some pointer, x.blocking, some o, some r, some rowPitch, some slicePitch⟩
  | copy target source t s r => ∃ x cmd, (EnqueueCopyImageBuilder.build q x).ok = true ∧
      (EnqueueCopyImageBuilder.build q x).val.create = .ok cmd ∧
      cmd.params = ⟨some target, some source, some t, some s, some r⟩
  | fill img o r _ => ∃ x cmd pointer, (EnqueueFillImageBuilder.build q x).create = .ok cmd ∧
      cmd.params = ⟨some img, pointer, some o, some r⟩

def operand (G : Gallery) (img : ImageObject) (o : Fin 3 → SizeT) : ImageOperand := ⟨img.image, G.base img, o⟩

/-- What the thread does to the memory. -/
def execute (floats : FillFloats) (G : Gallery) : ImageCall → Memory 64 → Memory 64
  | read img o r pointer rowPitch slicePitch =>
    (Update.all ((ImageCommand.readImage (BitVec.ofNat 64 pointer) (operand G img o) r
      (rowPitch, slicePitch)).execute.map Memcpy.update)).run
  | write img o r pointer rowPitch slicePitch =>
    (Update.all ((ImageCommand.writeImage (operand G img o) (BitVec.ofNat 64 pointer) r
      (rowPitch, slicePitch)).execute.map Memcpy.update)).run
  | copy target source t s r =>
    (Update.all ((ImageCommand.copyImage (operand G target t) (operand G source s) r).execute.map Memcpy.update)).run
  | fill img o r color => FillImageCPUCommand.execute floats ⟨operand G img o, r, color, G.stack⟩

/-- The accesses of a fill are defined, through pointers to elements of the size of a pixel; the others are those of
`memcpy`. -/
def Defined (G : Gallery) : ImageCall → Prop
  | fill img o r _ => ∀ T : ElementType, T.sizeof = sizeOf img →
      (memRectFillCalls T (regionFrom img (G.base img) o) G.stack (inBytes (sizeOf img) r)).ok = true
  | read .. | write .. | copy .. => True

end ImageCall

/-- No sum of an origin with a region wraps around. -/
def NoWrap (o r : Fin 3 → SizeT) : Prop := ∀ d, (o d).toNat + (r d).toNat < 2 ^ 64

namespace Gallery

variable (G : Gallery)

def bytes : Set SizeT := ⋃ img ∈ G.images, range (G.base img) img.image.size.toNat

/-- Bytes of the host, that no image has and no fill overwrites. -/
def OfHost (s : Set SizeT) : Prop := Disjoint s (G.bytes ∪ range G.stack 16)

/-- The images of a command are in the gallery, its regions do not wrap around, and its memory is the host's. What
is written there has room in the address space, and what is copied in an image does not overlap. -/
def Admits : ImageCall → Prop
  | .read img o r pointer rowPitch slicePitch => img ∈ G.images ∧ NoWrap o r ∧
      G.OfHost ((area pointer rowPitch slicePitch).bytes (inBytes (sizeOf img) r)) ∧
      (r 1).toNat * rowPitch.toNat < 2 ^ 64 ∧
      ∀ x < (inBytes (sizeOf img) r 0).toNat, ∀ y < (r 1).toNat, ∀ z < (r 2).toNat,
        (area pointer rowPitch slicePitch).offset x y z < 2 ^ 64
  | .write img o r pointer rowPitch slicePitch => img ∈ G.images ∧ NoWrap o r ∧
      G.OfHost ((area pointer rowPitch slicePitch).bytes (inBytes (sizeOf img) r))
  | .copy target source t s r => target ∈ G.images ∧ source ∈ G.images ∧ NoWrap t r ∧ NoWrap s r ∧
      (target = source → Disjoint (Raster.box (nats t) (nats r)) (Raster.box (nats s) (nats r)))
  | .fill img o r _ => img ∈ G.images ∧ NoWrap o r

end Gallery

/-! ## Commands on rasters -/

/-- What there is to see: the images as rasters, and the memory of the host. -/
structure Canvas where
  images : ImageObject → Raster (Fin 3) Pixel
  host : Memory 64

noncomputable def Canvas.paste (c : Canvas) (img : ImageObject) (o r : Fin 3 → SizeT) (f : Raster (Fin 3) Pixel) :
    Canvas :=
  { c with images := Function.update c.images img (Raster.paste (nats o) (nats r) f (c.images img)) }

/-- What a command does to that. -/
def ImageCall.Draws (floats : FillFloats) : ImageCall → Canvas → Canvas → Prop
  | .read img o r pointer rowPitch slicePitch, c, c' =>
    c'.images = c.images ∧
      (∀ p, (∀ d, p d < nats r d) → pixels (area pointer rowPitch slicePitch) (sizeOf img) c'.host p =
        Raster.cut (nats o) (c.images img) p) ∧
      ∀ a ∉ (area pointer rowPitch slicePitch).bytes (inBytes (sizeOf img) r), c'.host a = c.host a
  | .write img o r pointer rowPitch slicePitch, c, c' =>
    c' = c.paste img o r (pixels (area pointer rowPitch slicePitch) (sizeOf img) c.host)
  | .copy target source t s r, c, c' => c' = c.paste target t r (Raster.cut (nats s) (c.images source))
  | .fill img o r color, c, c' =>
    c' = c.paste img o r fun _ => load (FillImage.fillData floats img.image.format color) 0 (sizeOf img)

/-- One command after the other. -/
def DrawAll (floats : FillFloats) : List ImageCall → Canvas → Canvas → Prop
  | [], c, c' => c' = c
  | call :: calls, c, c' => ∃ c₁, call.Draws floats c c₁ ∧ DrawAll floats calls c₁ c'

/-- The memory has the pixels of the canvas. -/
structure Shows (G : Gallery) (m : Memory 64) (c : Canvas) : Prop where
  images : ∀ img ∈ G.images, ∀ p, (∀ d, p d < img.image.extent d) →
    pixels (storage img (G.base img)) (sizeOf img) m p = c.images img p
  host : ∀ a, a ∉ G.bytes ∪ range G.stack 16 → m a = c.host a

/-! ## What the builders promise -/

section

variable {q : QueueInfo} {img : ImageObject} {o r : Fin 3 → SizeT}

theorem within_of_accepted (h : img.RegionAccepted o r) (hwrap : NoWrap o r) : Within img o r := by
  intro d
  have hle := valid_le_extent h.valid d
  rwa [BitVec.toNat_add, Nat.mod_eq_of_lt (hwrap d)] at hle

theorem transfer_accepted {x : HostImageArgs} {img' : ImageObject} {o' r' : Fin 3 → SizeT} {pointer : Nat}
    {rowPitch slicePitch : SizeT} (h : x.AreaAccepted img' r' o')
    (heq : x.transfer img' r' o' =
      ⟨some img, some pointer, x.blocking, some o, some r, some rowPitch, some slicePitch⟩) :
    img.RegionAccepted o r ∧ r 0 * img.image.getElementSize ≤ rowPitch ∧ rowPitch * r 1 ≤ slicePitch := by
  simp only [HostImageArgs.transfer, HostImageTransfer.mk.injEq, Option.some.injEq] at heq
  obtain ⟨rfl, -, -, rfl, rfl, rfl, rfl⟩ := heq
  exact ⟨h.toRegionAccepted, h.row, h.slice⟩

theorem ImageCall.Issued.of_read {pointer : Nat} {rowPitch slicePitch : SizeT}
    (h : (ImageCall.read img o r pointer rowPitch slicePitch).Issued q) :
    img.RegionAccepted o r ∧ r 0 * img.image.getElementSize ≤ rowPitch ∧ rowPitch * r 1 ≤ slicePitch := by
  obtain ⟨x, cmd, hcreate, hparams⟩ := h
  obtain ⟨img', o', r', haccepted, -, rfl⟩ := EnqueueReadImageBuilder.create_ok_iff.1 hcreate
  exact transfer_accepted haccepted.area hparams

theorem ImageCall.Issued.of_write {pointer : Nat} {rowPitch slicePitch : SizeT}
    (h : (ImageCall.write img o r pointer rowPitch slicePitch).Issued q) : img.RegionAccepted o r := by
  obtain ⟨x, cmd, hcreate, hparams⟩ := h
  obtain ⟨img', o', r', haccepted, rfl⟩ := EnqueueWriteImageBuilder.create_ok_iff.1 hcreate
  exact (transfer_accepted haccepted.area hparams).1

theorem ImageCall.Issued.of_copy {target source : ImageObject} {t s : Fin 3 → SizeT}
    (h : (ImageCall.copy target source t s r).Issued q) :
    target.RegionAccepted t r ∧ source.RegionAccepted s r ∧ target.image.format = source.image.format := by
  obtain ⟨x, cmd, -, hcreate, hparams⟩ := h
  obtain ⟨target', source', t', s', r', haccepted, rfl⟩ := EnqueueCopyImageBuilder.build_create_ok_iff.1 hcreate
  simp only [CopyImage.mk.injEq, Option.some.injEq] at hparams
  obtain ⟨rfl, rfl, rfl, rfl, rfl⟩ := hparams
  exact ⟨haccepted.targetRegion, haccepted.sourceRegion, haccepted.format⟩

theorem ImageCall.Issued.of_fill {color : Source} (h : (ImageCall.fill img o r color).Issued q) :
    img.RegionAccepted o r := by
  obtain ⟨x, cmd, pointer, hcreate, hparams⟩ := h
  obtain ⟨img', o', r', haccepted, rfl⟩ := EnqueueFillImageBuilder.create_ok_iff.1 hcreate
  simp only [FillImage.mk.injEq, Option.some.injEq] at hparams
  obtain ⟨rfl, -, rfl, rfl⟩ := hparams
  exact haccepted.area

end

/-! ## One command -/

section

variable {G : Gallery} {floats : FillFloats} {m m' : Memory 64} {c : Canvas} {img : ImageObject} {o r : Fin 3 → SizeT}
  {p : Fin 3 → Nat}

theorem width_lt (h : Made img) (hin : Within img o r) : (r 0).toNat * sizeOf img < 2 ^ 64 := by
  have hwidth : ((o 0).toNat + (r 0).toNat) * sizeOf img ≤ img.image.getWidth.toNat * sizeOf img :=
    Nat.mul_le_mul_right _ (hin 0)
  have hrow : img.image.getRowPitch.toNat = img.image.getWidth.toNat * sizeOf img := (laid_of_made h).rowPitch
  have hlt := img.image.getRowPitch.isLt
  rw [Nat.add_mul] at hwidth
  omega

theorem range_subset_bytes (himg : img ∈ G.images) : range (G.base img) img.image.size.toNat ⊆ G.bytes :=
  Set.subset_biUnion_of_mem (u := fun img => range (G.base img) img.image.size.toNat) himg

/-- The pixels of the host, where the canvas has the host's memory. -/
theorem Shows.area_eq (h : Shows G m c) {a : Rectangle} {size : Nat} (hhost : G.OfHost (a.bytes (inBytes size r)))
    (hw : (r 0).toNat * size < 2 ^ 64) (hp : ∀ d, p d < nats r d) : pixels a size m p = pixels a size c.host p := by
  refine List.map_congr_left fun k hk => ?_
  rw [a.byte_add]
  exact h.host _ (Set.disjoint_left.1 hhost (byte_mem hw hp (List.mem_range.1 hk)))

theorem Shows.region_eq (h : Shows G m c) (himg : img ∈ G.images) (hin : Within img o r) (hp : ∀ d, p d < nats r d) :
    pixels (regionFrom img (G.base img) o) (sizeOf img) m p = Raster.cut (nats o) (c.images img) p := by
  rw [pixels_regionFrom]
  exact h.images img himg _ fun d => (Nat.add_lt_add_left (hp d) _).trans_le (hin d)

/-- An image whose storage is left alone is as it was. -/
theorem pixels_kept (himg : Made img) {base : SizeT} (h : ∀ a ∈ range base img.image.size.toNat, m' a = m a)
    (hp : ∀ d, p d < img.image.extent d) :
    pixels (storage img base) (sizeOf img) m' p = pixels (storage img base) (sizeOf img) m p := by
  refine List.map_congr_left fun k hk => ?_
  rw [Rectangle.byte_add]
  exact h _ ⟨_, offset_lt _ himg (column_le (hp 0) himg (List.mem_range.1 hk)) (hp 1) (hp 2), rfl⟩

/-- A region of an image that is written, and perhaps the stack. -/
theorem Shows.pasted (h : Shows G m c) (himg : img ∈ G.images) (hin : Within img o r) {f : Raster (Fin 3) Pixel}
    (hregion : ∀ p, (∀ d, p d < nats r d) → pixels (regionFrom img (G.base img) o) (sizeOf img) m' p = f p)
    (hothers : ∀ a ∉ (regionFrom img (G.base img) o).bytes (inBytes (sizeOf img) r), a ∉ range G.stack 16 → m' a = m a) :
    Shows G m' (c.paste img o r f) := by
  have hsubset := region_subset (G.base img) (G.made img himg) hin
  constructor
  · intro img' himg' p hp
    by_cases heq : img' = img
    · subst heq
      have hstack : ∀ a ∈ range (G.base img') img'.image.size.toNat, a ∉ range G.stack 16 := fun a ha =>
        Set.disjoint_right.1 (G.stack_apart img' himg) ha
      rw [pixels_pasted (m := m) (G.made img' himg) hin hregion (fun a ha hmem => hothers a ha (hstack a hmem)) hp]
      simp only [Canvas.paste, Function.update_self]
      exact Raster.paste_congr (fun _ _ => rfl) fun _ => h.images img' himg p hp
    · have hkept : ∀ a ∈ range (G.base img') img'.image.size.toNat, m' a = m a := fun a ha =>
        hothers a (fun hmem => Set.disjoint_left.1 (G.apart himg' himg heq) ha (hsubset hmem))
          (Set.disjoint_right.1 (G.stack_apart img' himg') ha)
      rw [pixels_kept (G.made img' himg') hkept hp, h.images img' himg' p hp]
      simp only [Canvas.paste, Function.update_of_ne heq]
  · intro a ha
    have hregion : a ∉ (regionFrom img (G.base img) o).bytes (inBytes (sizeOf img) r) := fun hmem =>
      ha (.inl (range_subset_bytes himg (hsubset hmem)))
    rw [hothers a hregion fun hmem => ha (.inr hmem)]
    exact h.host a ha

/-- The bytes of the host that a read writes. -/
theorem read_draws (floats : FillFloats) (h : Shows G m c) {pointer : Nat} {rowPitch slicePitch : SizeT} {q : QueueInfo}
    (hissued : (ImageCall.read img o r pointer rowPitch slicePitch).Issued q)
    (hadmits : G.Admits (.read img o r pointer rowPitch slicePitch)) :
    ∃ c', (ImageCall.read img o r pointer rowPitch slicePitch).Draws floats c c' ∧
      Shows G ((ImageCall.read img o r pointer rowPitch slicePitch).execute floats G m) c' := by
  obtain ⟨haccepted, hrow, hslice⟩ := hissued.of_read
  obtain ⟨himg, hwrap, hhost, hrows, hwords⟩ := hadmits
  have hmade := G.made img himg
  have hin := within_of_accepted haccepted hwrap
  have hw := width_lt hmade hin
  set target := area pointer rowPitch slicePitch
  set source := regionFrom img (G.base img) o
  have hsource : source.bytes (inBytes (sizeOf img) r) ⊆ G.bytes :=
    (region_subset _ hmade hin).trans (range_subset_bytes himg)
  have hholds : target.Holds (inBytes (sizeOf img) r) := by
    refine ⟨BitVec.le_def.1 hrow, fun _ => ?_, hwords⟩
    have hle := BitVec.le_def.1 hslice
    rwa [BitVec.toNat_mul, Nat.mul_comm, Nat.mod_eq_of_lt hrows] at hle
  have hwritten := memRectCpy_written hholds
    ((hhost.mono_right Set.subset_union_left).mono_right hsource) m
  set m' := (memRectCpyUpdate target source (inBytes (sizeOf img) r)).run m
  -- The canvas keeps its own bytes where there are images or the stack.
  classical
  refine ⟨{ c with host := fun a => if a ∈ G.bytes ∪ range G.stack 16 then c.host a else m' a }, ⟨rfl, ?_, ?_⟩, ?_, ?_⟩
  · intro p hp
    rw [← h.region_eq himg hin hp, ← pixels_copied hw hwritten hp]
    refine List.map_congr_left fun k hk => ?_
    rw [Rectangle.byte_add]
    exact if_neg (Set.disjoint_left.1 hhost (byte_mem hw hp (List.mem_range.1 hk)))
  · intro a ha
    by_cases hmem : a ∈ G.bytes ∪ range G.stack 16
    · exact if_pos hmem
    · exact (if_neg hmem).trans ((hwritten.others a ha).trans (h.host a hmem))
  · intro img' himg' p hp
    have hkept : ∀ a ∈ range (G.base img') img'.image.size.toNat, m' a = m a := fun a ha =>
      hwritten.others a fun hmem => Set.disjoint_left.1 hhost hmem (.inl (range_subset_bytes himg' ha))
    exact (pixels_kept (G.made img' himg') hkept hp).trans (h.images img' himg' p hp)
  · intro a ha
    exact (if_neg ha).symm

theorem write_draws (floats : FillFloats) (h : Shows G m c) {pointer : Nat} {rowPitch slicePitch : SizeT} {q : QueueInfo}
    (hissued : (ImageCall.write img o r pointer rowPitch slicePitch).Issued q)
    (hadmits : G.Admits (.write img o r pointer rowPitch slicePitch)) :
    Shows G ((ImageCall.write img o r pointer rowPitch slicePitch).execute floats G m)
      (c.paste img o r (pixels (area pointer rowPitch slicePitch) (sizeOf img) c.host)) := by
  obtain ⟨himg, hwrap, hhost⟩ := hadmits
  have hmade := G.made img himg
  have hin := within_of_accepted hissued.of_write hwrap
  have hw := width_lt hmade hin
  set source := area pointer rowPitch slicePitch
  have hsubset := (region_subset (G.base img) hmade hin).trans (range_subset_bytes himg)
  have hwritten := memRectCpy_written
    (regionFrom_holds hmade hin) ((hhost.mono_right Set.subset_union_left).mono_right hsubset).symm m
  refine h.pasted himg hin (fun p hp => ?_) fun a ha _ => hwritten.others a ha
  rw [← h.area_eq hhost hw hp]
  exact pixels_copied hw hwritten hp

theorem copy_draws (h : Shows G m c) {target source : ImageObject} {t s : Fin 3 → SizeT} {q : QueueInfo}
    (hissued : (ImageCall.copy target source t s r).Issued q) (hadmits : G.Admits (.copy target source t s r)) :
    Shows G ((ImageCall.copy target source t s r).execute floats G m)
      (c.paste target t r (Raster.cut (nats s) (c.images source))) := by
  obtain ⟨htarget, hsource, hformat⟩ := hissued.of_copy
  obtain ⟨hmemt, hmems, hwrapt, hwraps, hapart⟩ := hadmits
  have hmade := G.made target hmemt
  have hint := within_of_accepted htarget hwrapt
  have hins := within_of_accepted hsource hwraps
  have hw := width_lt hmade hint
  have hsize : sizeOf target = sizeOf source := congrArg ImageFormat.elementSize hformat
  have hdisj : Disjoint ((regionFrom target (G.base target) t).bytes (inBytes (sizeOf target) r))
      ((regionFrom source (G.base source) s).bytes (inBytes (sizeOf target) r)) := by
    by_cases heq : target = source
    · subst heq
      exact regions_disjoint hmade hint hins (hapart rfl)
    · refine (G.apart hmemt hmems heq).mono (region_subset _ hmade hint) ?_
      rw [hsize]
      exact region_subset _ (G.made source hmems) hins
  have hwritten := memRectCpy_written (regionFrom_holds hmade hint) hdisj m
  refine h.pasted hmemt hint (fun p hp => ?_) fun a ha _ => hwritten.others a ha
  rw [← h.region_eq hmems hins hp, ← hsize]
  exact pixels_copied hw hwritten hp

/-- The stack and the region are all that a fill writes. -/
theorem fill_others (floats : FillFloats) {c : FillImageCPUCommand} (hvalid : isValidFormat c.format = true)
    (hplaced : c.Placed) (m : Memory 64) {a : SizeT} (ha : a ∉ c.rectangle.bytes c.regionInBytes)
    (hstack : a ∉ range c.fillData 16) : c.execute floats m a = m a := by
  have hmem := ImageFormat.elementSize_mem hvalid
  have hfills : (ImageCommand.fillImage c.target c.region).fills =
      memRectFill c.rectangle.address c.format.elementSize c.regionInBytes c.rectangle.rowPitch c.rectangle.slicePitch := by
    simp only [ImageCommand.fills, Image.toNat_getElementSize]
    exact if_pos hmem
  have hapart : Disjoint (range c.fillData c.format.elementSize) (c.rectangle.bytes c.regionInBytes) := by
    refine hplaced.apart.mono_left ?_
    rintro a ⟨k, hk, rfl⟩
    have hbounds := c.format.elementSize_bounds
    exact ⟨k, by omega, rfl⟩
  have hwritten := memRectFill_written hplaced.holds (Image.elementSize_dvd_regionInBytes hmem c.region) hapart
    (store m c.fillData (load (FillImage.fillData floats c.format c.source) 0 16))
  unfold FillImageCPUCommand.execute
  rw [hfills]
  refine (hwritten.others a ha).trans (store_frame fun k hk heq => hstack ⟨k, ?_, heq⟩)
  rwa [length_load] at hk

theorem fill_draws (h : Shows G m c) {color : Source} {q : QueueInfo} (hissued : (ImageCall.fill img o r color).Issued q)
    (hadmits : G.Admits (.fill img o r color)) :
    Shows G ((ImageCall.fill img o r color).execute floats G m)
      (c.paste img o r fun _ => load (FillImage.fillData floats img.image.format color) 0 (sizeOf img)) := by
  obtain ⟨himg, hwrap⟩ := hadmits
  have hmade := G.made img himg
  have hin := within_of_accepted hissued.of_fill hwrap
  have hw := width_lt hmade hin
  let cmd : FillImageCPUCommand := ⟨ImageCall.operand G img o, r, color, G.stack⟩
  have hplaced : cmd.Placed :=
    ⟨regionFrom_holds hmade hin, (G.stack_apart img himg).mono_right (region_subset _ hmade hin)⟩
  have hvalid : isValidFormat cmd.format = true := valid_of_made hmade
  refine h.pasted himg hin (fun p hp => ?_) fun a ha hstack => fill_others floats hvalid hplaced m ha hstack
  have hcolumn : p 0 * sizeOf img < (inBytes (sizeOf img) r 0).toNat := by
    simpa using column_lt hw hp (element_pos img)
  exact FillImageCPUCommand.load_pixel floats hvalid hplaced ⟨hcolumn, hp 1, hp 2⟩ m

/-- Pixels have sizes of elements. -/
theorem fill_defined {color : Source} {q : QueueInfo} (hissued : (ImageCall.fill img o r color).Issued q)
    (hadmits : G.Admits (.fill img o r color)) : (ImageCall.fill img o r color).Defined G := by
  obtain ⟨himg, hwrap⟩ := hadmits
  have hmade := G.made img himg
  have hin := within_of_accepted hissued.of_fill hwrap
  intro T hT
  have hsize : T.alignof ∣ sizeOf img := hT ▸ T.whole
  have hpixel : sizeOf img ∣ 16 := by
    have hall : ∀ n ∈ [1, 2, 4, 8, 16], n ∣ 16 := by decide
    exact hall _ (ImageFormat.elementSize_mem (valid_of_made hmade))
  refine memRectFillCalls_ok ((hsize.trans hpixel).trans G.stack_aligned) fun y hy z hz => ?_
  have hz' : (o 2).toNat + z < img.image.extent 2 := (Nat.add_lt_add_left hz _).trans_le (hin 2)
  rw [regionFrom_byte, Nat.add_zero]
  refine (ElementType.aligned_add_iff ?_).2 ((hsize.trans hpixel).trans (G.aligned img himg))
  rw [BitVec.toNat_ofNat, Nat.dvd_mod_iff T.power]
  exact hsize.trans (element_dvd_row hmade hz')

theorem step_draws (floats : FillFloats) {call : ImageCall} (h : Shows G m c) (hissued : ∃ q, call.Issued q)
    (hadmits : G.Admits call) : ∃ c', call.Draws floats c c' ∧ Shows G (call.execute floats G m) c' := by
  obtain ⟨q, hissued⟩ := hissued
  cases call with
  | read img o r pointer rowPitch slicePitch => exact read_draws floats h hissued hadmits
  | write img o r pointer rowPitch slicePitch => exact ⟨_, rfl, write_draws floats h hissued hadmits⟩
  | copy target source t s r => exact ⟨_, rfl, copy_draws h hissued hadmits⟩
  | fill img o r color => exact ⟨_, rfl, fill_draws h hissued hadmits⟩

end

/-! ## A small image -/

/-- Four rows of four pixels of one byte. -/
def smallImage : ImageObject where
  image := (ImageCommand.fourByFour 0).image
  main := sixteen
  context := 0
  size_eq := rfl

theorem bounds_of_mem_range {a x : SizeT} {n : Nat} (hn : a.toNat + n ≤ 2 ^ 64) (h : x ∈ range a n) :
    a.toNat ≤ x.toNat ∧ x.toNat < a.toNat + n := by
  obtain ⟨k, hk, rfl⟩ := h
  rw [BitVec.toNat_add, BitVec.toNat_ofNat, Nat.add_mod_mod, Nat.mod_eq_of_lt (by omega)]
  omega

theorem range_disjoint {a b : SizeT} {n k : Nat} (ha : a.toNat + n ≤ b.toNat) (hb : b.toNat + k ≤ 2 ^ 64) :
    Disjoint (range a n) (range b k) := by
  refine Set.disjoint_left.2 fun x hx hx' => ?_
  have hlow := (bounds_of_mem_range (by omega) hx).2
  have hhigh := (bounds_of_mem_range hb hx').1
  omega

/-- The image at 4096, after the stack. -/
def smallGallery : Gallery where
  images := {smallImage}
  base _ := 4096
  stack := 2048
  made := by
    rintro _ rfl
    exact (@ImageCommand.fourByFour_accepted 0 1 (by decide) (by decide)).image
  apart := Set.pairwiseDisjoint_singleton _ _
  stack_apart := by
    rintro _ rfl
    exact range_disjoint (by decide) (by decide)
  aligned _ _ := by decide
  stack_aligned := by decide

/-- Two rows of two pixels. -/
def smallArea (pointer : Nat) (rowPitch : SizeT) : HostImageArgs where
  image := some (.image smallImage)
  blocking := true
  origin := some ![1, 1, 0]
  region := some ![2, 2, 1]
  rowPitch := rowPitch
  slicePitch := 0
  pointer := some pointer
  wl := .empty

theorem smallArea_ofHost {pointer : Nat} {rowPitch slicePitch : SizeT}
    (h : ∀ x < 2, ∀ y < 2, ∀ z < 1, (BitVec.ofNat 64 pointer).toNat + (area pointer rowPitch slicePitch).offset x y z < 2048) :
    smallGallery.OfHost ((area pointer rowPitch slicePitch).bytes (inBytes (sizeOf smallImage) ![2, 2, 1])) := by
  have hstack : Disjoint (range (2048 : SizeT) 16)
      ((area pointer rowPitch slicePitch).bytes (inBytes (sizeOf smallImage) ![2, 2, 1])) :=
    Rectangle.disjoint_range (by decide) h
  have himage : Disjoint (range (4096 : SizeT) 16)
      ((area pointer rowPitch slicePitch).bytes (inBytes (sizeOf smallImage) ![2, 2, 1])) :=
    Rectangle.disjoint_range (by decide) fun x hx y hy z hz => (h x hx y hy z hz).trans (by decide)
  refine Set.disjoint_union_right.2 ⟨?_, hstack.symm⟩
  refine (himage.mono_left ?_).symm
  intro a ha
  obtain ⟨img, rfl, ha⟩ := Set.mem_iUnion₂.1 ha
  exact ha

/-- Two rows of two pixels are written into the middle of the image, and read with a gap between the rows. -/
def smallCalls : List ImageCall :=
  [.write smallImage ![1, 1, 0] ![2, 2, 1] 256 2 4, .read smallImage ![1, 1, 0] ![2, 2, 1] 512 3 6]

theorem smallCalls_admitted : ∀ call ∈ smallCalls, (∃ q, call.Issued q) ∧ smallGallery.Admits call := by
  let q : QueueInfo := { context := 0, device := CPUDevice.info }
  have hwrap : NoWrap ![1, 1, 0] ![2, 2, 1] := by
    intro d
    match d with
    | 0 | 1 | 2 => decide
  rw [smallCalls, List.forall_mem_cons, List.forall_mem_singleton]
  constructor
  · refine ⟨⟨q, smallArea 256 0, ⟨_, []⟩, rfl, rfl⟩, rfl, hwrap, smallArea_ofHost (by decide)⟩
  · refine ⟨⟨q, smallArea 512 3, ⟨_, []⟩, rfl, rfl⟩, rfl, hwrap, smallArea_ofHost (by decide), by decide, by decide⟩

/-- Each byte has its own number. -/
def numbered : Memory 64 := fun a => a.setWidth 8

/-! ## Runs of commands -/

def executeAll (floats : FillFloats) (G : Gallery) (calls : List ImageCall) (m : Memory 64) : Memory 64 :=
  calls.foldl (fun m call => call.execute floats G m) m

section

variable {G : Gallery} {floats : FillFloats} {calls : List ImageCall}

theorem run_draws {m : Memory 64} {c : Canvas} (h : Shows G m c)
    (hcalls : ∀ call ∈ calls, (∃ q, call.Issued q) ∧ G.Admits call) :
    ∃ c', DrawAll floats calls c c' ∧ Shows G (executeAll floats G calls m) c' := by
  induction calls generalizing m c with
  | nil => exact ⟨c, rfl, h⟩
  | cons call calls ih =>
    rw [List.forall_mem_cons] at hcalls
    obtain ⟨c₁, hdraws, h₁⟩ := step_draws floats h hcalls.1.1 hcalls.1.2
    obtain ⟨c', hall, h'⟩ := ih h₁ hcalls.2
    exact ⟨c', ⟨c₁, hdraws, hall⟩, h'⟩

/-- The canvas that a memory shows. -/
def canvasOf (G : Gallery) (m : Memory 64) : Canvas where
  images img := pixels (storage img (G.base img)) (sizeOf img) m
  host := m

theorem shows_canvasOf (G : Gallery) (m : Memory 64) : Shows G m (canvasOf G m) :=
  ⟨fun _ _ _ _ => rfl, fun _ _ => rfl⟩

/-- Commands that builders have made, one after the other, do to the pixels of the images and to the memory of the
host what they say: writing, copying and filling paste into a box of one image, and reading cuts a box out. No access
of a fill is undefined. -/
theorem commands_draw (m : Memory 64) (hcalls : ∀ call ∈ calls, (∃ q, call.Issued q) ∧ G.Admits call) :
    (∃ c', DrawAll floats calls (canvasOf G m) c' ∧ Shows G (executeAll floats G calls m) c') ∧
      ∀ call ∈ calls, call.Defined G := by
  refine ⟨run_draws (shows_canvasOf G m) hcalls, fun call hcall => ?_⟩
  obtain ⟨⟨q, hissued⟩, hadmits⟩ := hcalls call hcall
  cases call with
  | read | write | copy => trivial
  | fill img o r color => exact fill_defined hissued hadmits

theorem commands_draw_small : (∃ c', DrawAll noFloats smallCalls (canvasOf smallGallery numbered) c' ∧
    Shows smallGallery (executeAll noFloats smallGallery smallCalls numbered) c') ∧
      ∀ call ∈ smallCalls, call.Defined smallGallery :=
  commands_draw numbered smallCalls_admitted

/-! ## What is read is what was written -/

/-- The command pastes nothing into the box. -/
def ImageCall.Spares (img : ImageObject) (o r : Fin 3 → SizeT) : ImageCall → Prop
  | .read .. => True
  | .write img' o' r' .. => img' = img → Disjoint (Raster.box (nats o') (nats r')) (Raster.box (nats o) (nats r))
  | .copy target _ t _ r' => target = img → Disjoint (Raster.box (nats t) (nats r')) (Raster.box (nats o) (nats r))
  | .fill img' o' r' _ => img' = img → Disjoint (Raster.box (nats o') (nats r')) (Raster.box (nats o) (nats r))

variable {img : ImageObject} {o r : Fin 3 → SizeT} {c c' : Canvas} {p : Fin 3 → Nat}

theorem cut_paste_spared {img' : ImageObject} {o' r' : Fin 3 → SizeT} {f : Raster (Fin 3) Pixel}
    (hspares : img' = img → Disjoint (Raster.box (nats o') (nats r')) (Raster.box (nats o) (nats r)))
    (hp : ∀ d, p d < nats r d) :
    Raster.cut (nats o) ((c.paste img' o' r' f).images img) p = Raster.cut (nats o) (c.images img) p := by
  by_cases heq : img' = img
  · subst heq
    simp only [Canvas.paste, Function.update_self]
    exact Raster.cut_paste_of_disjoint (hspares rfl) hp
  · simp only [Canvas.paste, Function.update_of_ne (Ne.symm heq)]

theorem draws_spared {call : ImageCall} (h : call.Draws floats c c') (hspares : call.Spares img o r)
    (hp : ∀ d, p d < nats r d) : Raster.cut (nats o) (c'.images img) p = Raster.cut (nats o) (c.images img) p := by
  cases call with
  | read => rw [h.1]
  | write => rw [h, cut_paste_spared hspares hp]
  | copy => rw [h, cut_paste_spared hspares hp]
  | fill => rw [h, cut_paste_spared hspares hp]

theorem drawAll_spared (h : DrawAll floats calls c c') (hspares : ∀ call ∈ calls, call.Spares img o r)
    (hp : ∀ d, p d < nats r d) : Raster.cut (nats o) (c'.images img) p = Raster.cut (nats o) (c.images img) p := by
  induction calls generalizing c with
  | nil => rw [h]
  | cons call calls ih =>
    rw [List.forall_mem_cons] at hspares
    obtain ⟨c₁, hdraws, hall⟩ := h
    rw [ih hall hspares.2, draws_spared hdraws hspares.1 hp]

/-- A region of an image is read as it was written, whatever the pitches on the host are, and whatever commands came
in between and wrote elsewhere. -/
theorem read_of_write (m : Memory 64) {pointer pointer' : Nat} {rowPitch slicePitch rowPitch' slicePitch' : SizeT}
    (hcalls : ∀ call ∈ ImageCall.write img o r pointer rowPitch slicePitch ::
      (calls ++ [ImageCall.read img o r pointer' rowPitch' slicePitch']), (∃ q, call.Issued q) ∧ G.Admits call)
    (hspares : ∀ call ∈ calls, call.Spares img o r) :
    ∀ p, (∀ d, p d < nats r d) →
      pixels (area pointer' rowPitch' slicePitch') (sizeOf img)
          (executeAll floats G (ImageCall.write img o r pointer rowPitch slicePitch ::
            (calls ++ [ImageCall.read img o r pointer' rowPitch' slicePitch'])) m) p =
        pixels (area pointer rowPitch slicePitch) (sizeOf img) m p := by
  intro p hp
  simp only [List.forall_mem_cons, List.forall_mem_append] at hcalls
  obtain ⟨⟨⟨q, hissued⟩, hadmits⟩, hbetween, ⟨⟨q', hissued'⟩, hadmits'⟩, -⟩ := hcalls
  have hwrite := write_draws floats (shows_canvasOf G m) hissued hadmits
  obtain ⟨c₂, hall, h₂⟩ := run_draws hwrite hbetween
  obtain ⟨c₃, ⟨-, hvalue, -⟩, h₃⟩ := read_draws floats h₂ hissued' hadmits'
  have hw : (r 0).toNat * sizeOf img < 2 ^ 64 :=
    width_lt (G.made img hadmits.1) (within_of_accepted hissued.of_write hadmits.2.1)
  have hrun : executeAll floats G (ImageCall.write img o r pointer rowPitch slicePitch ::
      (calls ++ [ImageCall.read img o r pointer' rowPitch' slicePitch'])) m =
      (ImageCall.read img o r pointer' rowPitch' slicePitch').execute floats G
        (executeAll floats G calls ((ImageCall.write img o r pointer rowPitch slicePitch).execute floats G m)) := by
    simp only [executeAll, List.foldl_cons, List.foldl_append, List.foldl_nil]
  calc _ = pixels (area pointer' rowPitch' slicePitch') (sizeOf img) c₃.host p := by
        rw [hrun]
        exact h₃.area_eq hadmits'.2.2.1 hw hp
    _ = Raster.cut (nats o) (c₂.images img) p := hvalue p hp
    _ = _ := by
        rw [drawAll_spared hall hspares hp]
        simp only [Canvas.paste, Function.update_self]
        exact Raster.cut_paste hp

end

theorem read_of_write_small :
    pixels (area 512 3 6) (sizeOf smallImage) (executeAll noFloats smallGallery smallCalls numbered) ![1, 1, 0] =
      pixels (area 256 2 4) (sizeOf smallImage) numbered ![1, 1, 0] :=
  @read_of_write smallGallery noFloats [] smallImage ![1, 1, 0] ![2, 2, 1] numbered 256 512 2 4 3 6 smallCalls_admitted
    (List.forall_mem_nil _) ![1, 1, 0] (by decide)

end OpenCRun.ImagePixels
