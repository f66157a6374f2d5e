import OpenCRun.Core.BufferBuilders
import OpenCRun.Device.MemRectCpy
import OpenCRun.Device.MemoryDescriptor
import OpenCRun.Lib.Checked
import OpenCRun.Lib.Footprint
/-!
# The bytes that copies and fills write

The calls of `memcpy` and `MemFill` as updates of the memory, in the order of
the loops. Rows that are apart are written without one touching another, so
every byte of the region has its value and no other byte changes. `memcpy`
takes any address; `MemFill` reads its pattern and writes its elements through
a `T *`, which is defined for addresses that are aligned to `T` only.
-/
open Lib Lib.Bytes Lib.Footprint

namespace OpenCRun.CPUThread

/-! ## What the calls do -/

def Memcpy.update (c : Memcpy) : Update SizeT (BitVec 8) := copying c.target c.source c.size.toNat

/-- `Target_T[I] = Source_T`. -/
def MemFill.assign (f : MemFill) (source_T : List (BitVec 8)) (i : Nat) : Update SizeT (BitVec 8) :=
  storing (f.target + BitVec.ofNat 64 (i * f.size)) source_T

def MemFill.loop (f : MemFill) (source_T : List (BitVec 8)) : Update SizeT (BitVec 8) :=
  Update.all ((List.range f.numEls.toNat).map (f.assign source_T))

theorem MemFill.mem_assign_writes {f : MemFill} {source_T : List (BitVec 8)} (h : source_T.length = f.size) {i : Nat}
    {a : SizeT} : a ∈ (f.assign source_T i).writes ↔ ∃ j < f.size, a = f.target + BitVec.ofNat 64 (i * f.size + j) := by
  simp only [assign, storing, range, h, BitVec.ofNat_add, ← BitVec.add_assoc]
  rfl

/-- The elements are whole. -/
theorem MemFill.loop_writes {f : MemFill} {source_T : List (BitVec 8)} (h : source_T.length = f.size) :
    (f.loop source_T).writes = range f.target (f.numEls.toNat * f.size) := by
  ext a
  unfold loop
  rw [Update.mem_all_writes]
  constructor
  · rintro ⟨i, hi, ha⟩
    obtain ⟨j, hj, rfl⟩ := (mem_assign_writes h).1 ha
    refine ⟨i * f.size + j, ?_, rfl⟩
    have hle := Nat.mul_le_mul_right f.size (List.mem_range.1 hi)
    rw [Nat.succ_mul] at hle
    omega
  · rintro ⟨k, hk, rfl⟩
    have hsize : 0 < f.size := Nat.pos_of_mul_pos_left (Nat.zero_lt_of_lt hk)
    refine ⟨k / f.size, List.mem_range.2 (Nat.div_lt_of_lt_mul (by rwa [Nat.mul_comm] at hk)), ?_⟩
    refine (mem_assign_writes h).2 ⟨k % f.size, Nat.mod_lt k hsize, ?_⟩
    rw [Nat.div_add_mod']

theorem MemFill.loop_reads (f : MemFill) (source_T : List (BitVec 8)) : (f.loop source_T).reads = ∅ := by
  refine Set.eq_empty_of_forall_notMem fun a ha => ?_
  obtain ⟨i, -, ha⟩ := Update.mem_all_reads.1 ha
  exact ha

/-- `Source_T` is read once, before the loop. -/
def MemFill.update (source : SizeT) (f : MemFill) : Update SizeT (BitVec 8) where
  run m := (f.loop (load m source f.size)).run m
  writes := range f.target (f.numEls.toNat * f.size)
  reads := range source f.size
  frame m a ha := by
    rw [← loop_writes (length_load m source f.size)] at ha
    exact Update.frame _ m a ha
  depends m m' h := by
    rw [load_congr h, ← loop_writes (length_load m' source f.size)]
    refine Update.depends _ m m' ?_
    rw [loop_reads]
    exact Set.eqOn_empty m m'

/-- A type `T`: its alignment is a power of two that divides its size. -/
structure ElementType where
  sizeof : Nat
  alignof : Nat
  whole : alignof ∣ sizeof
  power : alignof ∣ 2 ^ 64

namespace ElementType

variable (T : ElementType)

def Aligned (a : SizeT) : Prop := T.alignof ∣ a.toNat

instance (a : SizeT) : Decidable (T.Aligned a) := inferInstanceAs (Decidable (_ ∣ _))

variable {T}

/-- Also where the sum goes around the address space. -/
theorem aligned_add_iff {a b : SizeT} (hb : T.alignof ∣ b.toNat) : T.Aligned (a + b) ↔ T.Aligned a := by
  rw [Aligned, BitVec.toNat_add, Nat.dvd_mod_iff T.power]
  exact Nat.dvd_add_left hb

theorem aligned_element_iff {a : SizeT} (i : Nat) : T.Aligned (a + BitVec.ofNat 64 (i * T.sizeof)) ↔ T.Aligned a := by
  refine aligned_add_iff ?_
  rw [BitVec.toNat_ofNat, Nat.dvd_mod_iff T.power]
  exact Dvd.dvd.mul_left T.whole i

end ElementType

/-- `MemFill<T>`: `Source` and each `Target_T + I` are dereferenced. -/
def MemFill.call (T : ElementType) (source : SizeT) (f : MemFill) : Checked (Update SizeT (BitVec 8)) := do
  Checked.check (T.Aligned source)
  Checked.check ((List.range f.numEls.toNat).all fun i => T.Aligned (f.target + BitVec.ofNat 64 (i * f.size)))
  return f.update source

@[simp] theorem MemFill.call_val (T : ElementType) (source : SizeT) (f : MemFill) :
    (f.call T source).val = f.update source := rfl

theorem MemFill.call_ok_iff {T : ElementType} {source : SizeT} {f : MemFill} (hsize : f.size = T.sizeof) :
    (f.call T source).ok = true ↔ T.Aligned source ∧ (f.numEls ≠ 0 → T.Aligned f.target) := by
  simp only [call, Checked.ok_bind, Checked.ok_check, Checked.ok_pure, Bool.and_true, Bool.and_eq_true,
    decide_eq_true_eq, List.all_eq_true, List.mem_range, hsize, ElementType.aligned_element_iff]
  refine and_congr_right fun _ => ?_
  constructor
  · intro h hne
    exact h 0 (Nat.pos_of_ne_zero fun h0 => hne (BitVec.eq_of_toNat_eq h0))
  · intro h i hi
    refine h ?_
    rintro h0
    rw [h0] at hi
    exact absurd hi (Nat.not_lt_zero i)

/-- The elements that `Execute(FillBufferCPUCommand &)` fills with. -/
inductive FillElement where
  | uchar | ushort | uint | ulong
  | float4 | float8 | float16 | double16
  deriving DecidableEq, Repr

def FillElement.sizeof : FillElement → Nat
  | uchar => 1
  | ushort => 2
  | uint => 4
  | ulong => 8
  | float4 => 16
  | float8 => 32
  | float16 => 64
  | double16 => 128

/-- Each is as aligned as it is large. -/
def FillElement.type (t : FillElement) : ElementType where
  sizeof := t.sizeof
  alignof := t.sizeof
  whole := dvd_rfl
  power := by cases t <;> decide

/-- The cases of its switch. -/
def fillElement : Nat → Option FillElement
  | 1 => some .uchar
  | 2 => some .ushort
  | 4 => some .uint
  | 8 => some .ulong
  | 16 => some .float4
  | 32 => some .float8
  | 64 => some .float16
  | 128 => some .double16
  | _ => none

/-- The command on a device: `dst` is the storage of the buffer, `source` the copy of the pattern. -/
structure FillBufferCPUCommand where
  cmd : FillBuffer
  dst : SizeT
  source : SizeT

namespace FillBufferCPUCommand

def getTarget (c : FillBufferCPUCommand) : SizeT := c.dst + c.cmd.targetOffset

def execute (c : FillBufferCPUCommand) : Checked (Update SizeT (BitVec 8)) :=
  let numEls := c.cmd.targetSize / c.cmd.sourceSize
  match fillElement c.cmd.sourceSize.toNat with
  | some t => MemFill.call t.type c.source { target := c.getTarget, size := t.sizeof, numEls }
  | none => pure Update.nothing

end FillBufferCPUCommand

/-! ## Rectangles -/

/-- One side of a copy, or what is filled. -/
structure Rectangle where
  address : SizeT
  rowPitch : SizeT
  slicePitch : SizeT

namespace Rectangle

variable (r : Rectangle) (region : Fin 3 → SizeT)

def offset (x y z : Nat) : Nat := z * r.slicePitch.toNat + y * r.rowPitch.toNat + x

def byte (x y z : Nat) : SizeT := r.address + BitVec.ofNat 64 (r.offset x y z)

def bytes : Set SizeT :=
  { a | ∃ x < (region 0).toNat, ∃ y < (region 1).toNat, ∃ z < (region 2).toNat, a = r.byte x y z }

/-- The pitches are not less than the rows and slices, and the offsets of the region are words. The slice pitch of
a single slice is not used. -/
structure Holds : Prop where
  row : (region 0).toNat ≤ r.rowPitch.toNat
  slice : 1 < (region 2).toNat → (region 1).toNat * r.rowPitch.toNat ≤ r.slicePitch.toNat
  words : ∀ x < (region 0).toNat, ∀ y < (region 1).toNat, ∀ z < (region 2).toNat, r.offset x y z < 2 ^ 64

/-- Each byte of the region has its value in `m'`, and the others are as in `m`. -/
structure Written (value : Nat → Nat → Nat → BitVec 8) (m m' : Memory 64) : Prop where
  values : ∀ x < (region 0).toNat, ∀ y < (region 1).toNat, ∀ z < (region 2).toNat, m' (r.byte x y z) = value x y z
  others : ∀ a ∉ r.bytes region, m' a = m a

end Rectangle

section

variable {target source : Rectangle} {region : Fin 3 → SizeT}

theorem Rectangle.offset_eq (r : Rectangle) (region : Fin 3 → SizeT) (x y z : Nat) :
    (r.offset x y z : Int) = (strided 0 region r.rowPitch.toNat r.slicePitch.toNat).byte x y z := by
  simp only [offset, strided, Strided.byte]
  push_cast
  omega

/-- The address as the loops compute it. -/
theorem Rectangle.address_eq (r : Rectangle) (x y z : Nat) :
    r.address + r.rowPitch * BitVec.ofNat 64 y + r.slicePitch * BitVec.ofNat 64 z + BitVec.ofNat 64 x = r.byte x y z := by
  simp only [byte, offset, BitVec.ofNat_add, BitVec.ofNat_mul, BitVec.ofNat_toNat, BitVec.setWidth_eq]
  ac_rfl

theorem Rectangle.byte_add (r : Rectangle) (x y z k : Nat) : r.byte x y z + BitVec.ofNat 64 k = r.byte (x + k) y z := by
  unfold byte offset
  rw [BitVec.add_assoc, ← BitVec.ofNat_add, Nat.add_assoc]

theorem Rectangle.toNat_byte {r : Rectangle} {x y z : Nat} (h : r.address.toNat + r.offset x y z < 2 ^ 64) :
    (r.byte x y z).toNat = r.address.toNat + r.offset x y z := by
  rw [byte, BitVec.toNat_add, BitVec.toNat_ofNat, Nat.add_mod_mod, Nat.mod_eq_of_lt h]

theorem Rectangle.bytes_subset_range {r : Rectangle} {n : Nat}
    (h : ∀ x < (region 0).toNat, ∀ y < (region 1).toNat, ∀ z < (region 2).toNat, r.offset x y z < n) :
    r.bytes region ⊆ range r.address n := by
  rintro _ ⟨x, hx, y, hy, z, hz, rfl⟩
  exact ⟨_, h x hx y hy z hz, rfl⟩

/-- Bytes that begin where a region has ended. -/
theorem Rectangle.disjoint_range {r : Rectangle} {b : SizeT} {n : Nat} (hn : b.toNat + n ≤ 2 ^ 64)
    (h : ∀ x < (region 0).toNat, ∀ y < (region 1).toNat, ∀ z < (region 2).toNat,
      r.address.toNat + r.offset x y z < b.toNat) : Disjoint (range b n) (r.bytes region) := by
  refine Set.disjoint_left.2 ?_
  rintro _ ⟨k, hk, rfl⟩ ⟨x, hx, y, hy, z, hz, heq⟩
  have hlt := h x hx y hy z hz
  have hword := congrArg BitVec.toNat heq
  rw [Rectangle.toNat_byte (hlt.trans b.isLt), BitVec.toNat_add, BitVec.toNat_ofNat, Nat.add_mod_mod,
    Nat.mod_eq_of_lt (by omega)] at hword
  omega

theorem Rectangle.Holds.byte_inj (h : target.Holds region) {x x' y y' z z' : Nat} (hx : x < (region 0).toNat)
    (hx' : x' < (region 0).toNat) (hy : y < (region 1).toNat) (hy' : y' < (region 1).toNat) (hz : z < (region 2).toNat)
    (hz' : z' < (region 2).toNat) (heq : target.byte x y z = target.byte x' y' z') : x = x' ∧ y = y' ∧ z = z' := by
  have hoffset : target.offset x y z = target.offset x' y' z' := by
    have hword := congrArg BitVec.toNat ((BitVec.add_right_inj target.address).1 heq)
    simpa only [BitVec.toNat_ofNat, Nat.mod_eq_of_lt (h.words x hx y hy z hz),
      Nat.mod_eq_of_lt (h.words x' hx' y' hy' z' hz')] using hword
  have hapart : (strided 0 region target.rowPitch.toNat target.slicePitch.toNat).Apart := ⟨h.row, h.slice⟩
  refine Strided.byte_inj hapart hx hx' hy hy' hz hz' ?_
  rw [← Rectangle.offset_eq, ← Rectangle.offset_eq, hoffset]

/-- The loops over the slices and over their rows. -/
def rows (region : Fin 3 → SizeT) : List (Nat × Nat) := List.product (List.range (region 2).toNat) (List.range (region 1).toNat)

theorem mem_rows {p : Nat × Nat} : p ∈ rows region ↔ p.1 < (region 2).toNat ∧ p.2 < (region 1).toNat := by
  rw [rows, ← Prod.mk.eta (p := p), List.pair_mem_product, List.mem_range, List.mem_range]

theorem nodup_rows : (rows region).Nodup := List.nodup_range.product List.nodup_range

theorem map_loops {α β : Type} (call : Nat → Nat → α) (f : α → β) :
    ((List.range (region 2).toNat).flatMap fun z => (List.range (region 1).toNat).map (call z)).map f =
      (rows region).map fun p => f (call p.1 p.2) := by
  simp only [rows, List.product, List.map_flatMap, List.map_map]
  rfl

/-- Updates of the rows of a region, each of its row only, which read nothing of the region. -/
theorem rows_written {f : Nat × Nat → Update SizeT (BitVec 8)} {value : Nat → Nat → Nat → BitVec 8} {m : Memory 64}
    (h : target.Holds region)
    (hwrites : ∀ p ∈ rows region, ∀ a, a ∈ (f p).writes ↔ ∃ x < (region 0).toNat, a = target.byte x p.2 p.1)
    (hreads : ∀ p ∈ rows region, Disjoint (f p).reads (target.bytes region))
    (hvalue : ∀ p ∈ rows region, ∀ x < (region 0).toNat, (f p).run m (target.byte x p.2 p.1) = value x p.2 p.1) :
    target.Written region value m ((Update.all ((rows region).map f)).run m) := by
  constructor
  · intro x hx y hy z hz
    have hrow : (z, y) ∈ rows region := mem_rows.2 ⟨hz, hy⟩
    rw [Update.all_run_of_mem nodup_rows ?_ ?_ hrow ((hwrites _ hrow _).2 ⟨x, hx, rfl⟩) m]
    · exact hvalue _ hrow x hx
    · intro p hp q hq hne
      refine Set.disjoint_left.2 fun a hap haq => hne ?_
      obtain ⟨x, hx, rfl⟩ := (hwrites p hp a).1 hap
      obtain ⟨x', hx', heq⟩ := (hwrites q hq _).1 haq
      rw [mem_rows] at hp hq
      obtain ⟨-, hy, hz⟩ := h.byte_inj hx hx' hp.2 hq.2 hp.1 hq.1 heq
      exact Prod.ext hz hy
    · intro p hp q hq
      refine (hreads p hp).mono_right fun a ha => ?_
      obtain ⟨x, hx, rfl⟩ := (hwrites q hq a).1 ha
      rw [mem_rows] at hq
      exact ⟨x, hx, q.2, hq.2, q.1, hq.1, rfl⟩
  · intro a ha
    refine Update.frame _ m a fun hw => ha ?_
    obtain ⟨p, hp, hap⟩ := Update.mem_all_writes.1 hw
    obtain ⟨x, hx, rfl⟩ := (hwrites p hp a).1 hap
    rw [mem_rows] at hp
    exact ⟨x, hx, p.2, hp.2, p.1, hp.1, rfl⟩

/-! ## Copies -/

def memRectCpyUpdate (target source : Rectangle) (region : Fin 3 → SizeT) : Update SizeT (BitVec 8) :=
  Update.all ((memRectCpy target.address source.address region target.rowPitch target.slicePitch source.rowPitch
    source.slicePitch).map Memcpy.update)

/-- The bytes of a row. -/
theorem Rectangle.mem_row {r : Rectangle} {n y z : Nat} {a : SizeT} :
    a ∈ range (r.address + r.rowPitch * BitVec.ofNat 64 y + r.slicePitch * BitVec.ofNat 64 z) n ↔
      ∃ x < n, a = r.byte x y z := by
  simp only [← r.address_eq]
  rfl

theorem memRectCpy_written (h : target.Holds region) (hdisj : Disjoint (target.bytes region) (source.bytes region))
    (m : Memory 64) :
    target.Written region (fun x y z => m (source.byte x y z)) m ((memRectCpyUpdate target source region).run m) := by
  unfold memRectCpyUpdate
  rw [memRectCpy, map_loops]
  refine rows_written h (fun p _ a => Rectangle.mem_row) (fun p hp => ?_) fun p _ x hx => ?_
  · rw [mem_rows] at hp
    refine hdisj.symm.mono_left fun a ha => ?_
    obtain ⟨x, hx, rfl⟩ := Rectangle.mem_row.1 ha
    exact ⟨x, hx, p.2, hp.2, p.1, hp.1, rfl⟩
  · rw [← target.address_eq, ← source.address_eq]
    exact copying_run m _ _ (region 0).isLt.le hx

/-! ## Fills -/

/-- Elements that do not go around the address space are apart. -/
theorem MemFill.assign_disjoint {f : MemFill} {source_T : List (BitVec 8)} (h : source_T.length = f.size)
    (hlast : f.numEls.toNat * f.size ≤ 2 ^ 64) :
    ∀ i ∈ List.range f.numEls.toNat, ∀ i' ∈ List.range f.numEls.toNat, i ≠ i' →
      Disjoint (f.assign source_T i).writes (f.assign source_T i').writes := by
  have hword : ∀ i ∈ List.range f.numEls.toNat, ∀ j < f.size,
      (BitVec.ofNat 64 (i * f.size + j)).toNat = j + i * f.size := by
    intro i hi j hj
    have hle := Nat.mul_le_mul_right f.size (List.mem_range.1 hi)
    rw [Nat.succ_mul] at hle
    rw [BitVec.toNat_ofNat, Nat.add_comm, Nat.mod_eq_of_lt (by omega)]
  intro i hi i' hi' hne
  refine Set.disjoint_left.2 fun a ha ha' => hne ?_
  obtain ⟨j, hj, rfl⟩ := (mem_assign_writes h).1 ha
  obtain ⟨j', hj', heq⟩ := (mem_assign_writes h).1 ha'
  have hnat := congrArg BitVec.toNat ((BitVec.add_right_inj f.target).1 heq)
  rw [hword i hi j hj, hword i' hi' j' hj'] at hnat
  exact (Strided.digit_inj hj hj' hnat).2

/-- Each byte is the one of the pattern. -/
theorem MemFill.update_run (m : Memory 64) (pattern : SizeT) {f : MemFill} (hlast : f.numEls.toNat * f.size ≤ 2 ^ 64)
    {k : Nat} (hk : k < f.numEls.toNat * f.size) :
    (f.update pattern).run m (f.target + BitVec.ofNat 64 k) = m (pattern + BitVec.ofNat 64 (k % f.size)) := by
  have hlength := length_load m pattern f.size
  have hi : k / f.size < f.numEls.toNat := Nat.div_lt_of_lt_mul (by rwa [Nat.mul_comm] at hk)
  have hj : k % f.size < f.size := Nat.mod_lt k (Nat.pos_of_mul_pos_left (Nat.zero_lt_of_lt hk))
  have haddr : f.target + BitVec.ofNat 64 k = f.target + BitVec.ofNat 64 (k / f.size * f.size + k % f.size) := by
    rw [Nat.div_add_mod']
  have hbyte := (mem_assign_writes (i := k / f.size) hlength).2 ⟨k % f.size, hj, rfl⟩
  change (f.loop (load m pattern f.size)).run m _ = _
  unfold loop
  rw [haddr, Update.all_run_of_mem List.nodup_range (assign_disjoint hlength hlast) (fun i _ i' _ => Set.empty_disjoint _)
    (List.mem_range.2 hi) hbyte, BitVec.ofNat_add, ← BitVec.add_assoc]
  refine store_at ?_ (getElem?_load m pattern hj)
  rw [hlength]
  exact (Nat.le_mul_of_pos_left _ (Nat.zero_lt_of_lt hi)).trans hlast

/-- As many elements as there are in a size fill it if it is a multiple of theirs. -/
theorem whole_elements {n : SizeT} {size : Nat} (hdvd : size ∣ n.toNat) :
    (n / BitVec.ofNat 64 size).toNat * size = n.toNat := by
  rcases Nat.eq_zero_or_pos n.toNat with h0 | hpos
  · rw [BitVec.toNat_udiv, h0, Nat.zero_div, Nat.zero_mul]
  · have hsize : size < 2 ^ 64 := lt_of_le_of_lt (Nat.le_of_dvd hpos hdvd) n.isLt
    rw [BitVec.toNat_udiv, BitVec.toNat_ofNat, Nat.mod_eq_of_lt hsize, Nat.div_mul_cancel hdvd]

def memRectFillUpdate (target : Rectangle) (pattern : SizeT) (size : Nat) (region : Fin 3 → SizeT) :
    Update SizeT (BitVec 8) :=
  Update.all ((memRectFill target.address size region target.rowPitch target.slicePitch).map (MemFill.update pattern))

/-- `MemRectFill<T>`, with the accesses of its calls. -/
def memRectFillCalls (T : ElementType) (target : Rectangle) (pattern : SizeT) (region : Fin 3 → SizeT) :
    Checked (Update SizeT (BitVec 8)) :=
  Update.all <$> (memRectFill target.address T.sizeof region target.rowPitch target.slicePitch).mapM (MemFill.call T pattern)

@[simp] theorem memRectFillCalls_val (T : ElementType) (target : Rectangle) (pattern : SizeT) (region : Fin 3 → SizeT) :
    (memRectFillCalls T target pattern region).val = memRectFillUpdate target pattern T.sizeof region := by
  simp only [memRectFillCalls, Checked.val_map, Checked.val_mapM, MemFill.call_val, memRectFillUpdate]

/-- The address of a row. -/
theorem Rectangle.row_eq (r : Rectangle) (y z : Nat) :
    r.address + r.rowPitch * BitVec.ofNat 64 y + r.slicePitch * BitVec.ofNat 64 z = r.byte 0 y z :=
  (BitVec.add_zero _).symm.trans (r.address_eq 0 y z)

theorem memRectFillCalls_ok {T : ElementType} {pattern : SizeT} (hpattern : T.Aligned pattern)
    (hrows : ∀ y < (region 1).toNat, ∀ z < (region 2).toNat, T.Aligned (target.byte 0 y z)) :
    (memRectFillCalls T target pattern region).ok = true := by
  simp only [memRectFillCalls, Checked.ok_map, Checked.ok_mapM, List.all_eq_true, memRectFill, List.mem_flatMap,
    List.mem_map, List.mem_range]
  rintro f ⟨z, hz, y, hy, rfl⟩
  refine (MemFill.call_ok_iff rfl).2 ⟨hpattern, fun _ => ?_⟩
  rw [Rectangle.row_eq]
  exact hrows y hy z hz

/-- Each row of a region that is not empty is to begin with an element. -/
theorem memRectFillCalls_ok_iff {T : ElementType} {pattern : SizeT} (hne : ∀ i, region i ≠ 0)
    (hdvd : T.sizeof ∣ (region 0).toNat) :
    (memRectFillCalls T target pattern region).ok = true ↔
      T.Aligned pattern ∧ ∀ y < (region 1).toNat, ∀ z < (region 2).toNat, T.Aligned (target.byte 0 y z) := by
  have hpos : ∀ i, 0 < (region i).toNat := fun i => Nat.pos_of_ne_zero fun h0 => hne i (BitVec.eq_of_toNat_eq h0)
  have hels : region 0 / BitVec.ofNat 64 T.sizeof ≠ 0 := by
    intro h0
    have hrow := whole_elements hdvd
    rw [h0] at hrow
    exact (hpos 0).ne' (hrow.symm.trans (Nat.zero_mul _))
  refine ⟨fun hok => ?_, fun h => memRectFillCalls_ok h.1 h.2⟩
  simp only [memRectFillCalls, Checked.ok_map, Checked.ok_mapM, List.all_eq_true, memRectFill, List.mem_flatMap,
    List.mem_map, List.mem_range] at hok
  have hcall : ∀ y < (region 1).toNat, ∀ z < (region 2).toNat, T.Aligned pattern ∧ T.Aligned (target.byte 0 y z) := by
    intro y hy z hz
    have hrow := (MemFill.call_ok_iff rfl).1 (hok _ ⟨z, hz, y, hy, rfl⟩)
    rw [Rectangle.row_eq] at hrow
    exact ⟨hrow.1, hrow.2 hels⟩
  exact ⟨(hcall 0 (hpos 1) 0 (hpos 2)).1, fun y hy z hz => (hcall y hy z hz).2⟩

theorem memRectFill_written (h : target.Holds region) {pattern : SizeT} {size : Nat} (hdvd : size ∣ (region 0).toNat)
    (hdisj : Disjoint (range pattern size) (target.bytes region)) (m : Memory 64) :
    target.Written region (fun x _ _ => m (pattern + BitVec.ofNat 64 (x % size))) m
      ((memRectFillUpdate target pattern size region).run m) := by
  have hrow := whole_elements hdvd
  unfold memRectFillUpdate
  rw [memRectFill, map_loops]
  refine rows_written h (fun p _ a => ?_) (fun _ _ => hdisj) fun p _ x hx => ?_
  · simp only [MemFill.update, hrow]
    exact Rectangle.mem_row
  · rw [← target.address_eq]
    refine MemFill.update_run m pattern ?_ ?_
    · rw [hrow]
      exact (region 0).isLt.le
    · rwa [hrow]

end

/-! ## Patterns -/

theorem fillElement_pow : ∀ k < 8, (fillElement (2 ^ k)).map FillElement.sizeof = some (2 ^ k) := by
  decide

/-- There is an element for each size of a pattern that is accepted. -/
theorem fillElement_of_accepted {patternSize : SizeT} (h : EnqueueFillBufferBuilder.PatternAccepted patternSize) :
    ∃ t, fillElement patternSize.toNat = some t ∧ t.sizeof = patternSize.toNat := by
  obtain ⟨hne, hand, hle⟩ := h
  have hpos : patternSize.toNat ≠ 0 := fun h0 => hne (BitVec.eq_of_toNat_eq h0)
  have hone : 1 ≤ patternSize := BitVec.le_def.2 (Nat.pos_of_ne_zero hpos)
  have hpred : (patternSize - 1).toNat = patternSize.toNat - 1 := BitVec.toNat_sub_of_le hone
  have hpow : patternSize.toNat.isPowerOfTwo := by
    refine (Nat.and_sub_one_eq_zero_iff_isPowerOfTwo hpos).1 ?_
    rw [← hpred, ← BitVec.toNat_and, hand]
    rfl
  obtain ⟨k, hk⟩ := hpow
  have hlt : k < 8 := by
    rw [BitVec.le_def, hk] at hle
    exact (Nat.pow_lt_pow_iff_right (by decide : 1 < 2)).1 (lt_of_le_of_lt hle (by decide))
  rw [hk]
  exact Option.map_eq_some_iff.1 (fillElement_pow k hlt)

section

variable {q : QueueInfo} {buf : Option Mem} {pattern : Option Nat} {patternSize offset size : SizeT} {wl : WaitListArg}
  {cmd : Built FillBuffer}

/-- What an accepted command calls. -/
theorem execute_of_accepted
    (hcmd : (EnqueueFillBufferBuilder.build q buf pattern patternSize offset size wl).create = .ok cmd)
    (dst source : SizeT) :
    ∃ t : FillElement, t.sizeof = patternSize.toNat ∧ t.sizeof ∣ offset.toNat ∧
      (size / patternSize).toNat * t.sizeof = size.toNat ∧
      (FillBufferCPUCommand.mk cmd.params dst source).execute =
        MemFill.call t.type source { target := dst + offset, size := t.sizeof, numEls := size / patternSize } := by
  obtain ⟨b, -, -, -, haccepted, hregion, -, rfl⟩ := EnqueueFillBufferBuilder.create_ok_iff.1 hcmd
  obtain ⟨t, ht, hsizeof⟩ := fillElement_of_accepted haccepted
  have hdvd : ∀ {n : SizeT}, n % patternSize = 0 → t.sizeof ∣ n.toNat := by
    intro n hn
    rw [hsizeof]
    refine Nat.dvd_of_mod_eq_zero ?_
    rw [← BitVec.toNat_umod, hn]
    rfl
  refine ⟨t, hsizeof, hdvd hregion.wholeOffset, ?_, ?_⟩
  · rw [BitVec.toNat_udiv, ← hsizeof, Nat.div_mul_cancel (hdvd hregion.wholeSize)]
  · simp only [FillBufferCPUCommand.execute, ht, FillBufferCPUCommand.getTarget]

/-- The bytes of a command that the builder accepts are those of its pattern in turn. -/
theorem fillBuffer_written
    (hcmd : (EnqueueFillBufferBuilder.build q buf pattern patternSize offset size wl).create = .ok cmd)
    (dst source : SizeT) (m : Memory 64) :
    (∀ k < size.toNat, (FillBufferCPUCommand.mk cmd.params dst source).execute.val.run m
        (dst + offset + BitVec.ofNat 64 k) = m (source + BitVec.ofNat 64 (k % patternSize.toNat))) ∧
      ∀ a ∉ range (dst + offset) size.toNat,
        (FillBufferCPUCommand.mk cmd.params dst source).execute.val.run m a = m a := by
  obtain ⟨t, hsizeof, -, hwhole, hexecute⟩ := execute_of_accepted hcmd dst source
  rw [hexecute, MemFill.call_val]
  constructor
  · intro k hk
    rw [← hsizeof]
    refine MemFill.update_run m source ?_ ?_
    · rw [hwhole]
      exact size.isLt.le
    · rwa [hwhole]
  · intro a ha
    refine Update.frame _ m a ?_
    simp only [MemFill.update]
    rwa [hwhole]

theorem fillBuffer_ok_iff
    (hcmd : (EnqueueFillBufferBuilder.build q buf pattern patternSize offset size wl).create = .ok cmd)
    (dst source : SizeT) :
    (FillBufferCPUCommand.mk cmd.params dst source).execute.ok = true ↔
      patternSize.toNat ∣ source.toNat ∧ (size ≠ 0 → patternSize.toNat ∣ dst.toNat) := by
  obtain ⟨t, hsizeof, hoffset, hwhole, hexecute⟩ := execute_of_accepted hcmd dst source
  have hels : size / patternSize ≠ 0 ↔ size ≠ 0 := by
    refine not_congr ?_
    constructor
    · intro h0
      rw [h0] at hwhole
      exact BitVec.eq_of_toNat_eq (hwhole.symm.trans (Nat.zero_mul _))
    · rintro rfl
      exact BitVec.zero_udiv
  rw [hexecute, MemFill.call_ok_iff rfl, ← hsizeof]
  refine and_congr Iff.rfl ?_
  rw [hels]
  exact imp_congr_right fun _ => ElementType.aligned_add_iff hoffset

end

/-- A fill of a rectangle is right: its accesses are defined and it writes the pattern to the region only. -/
def FillsRectangle (m : Memory 64) (T : ElementType) (target : Rectangle) (pattern : SizeT) (region : Fin 3 → SizeT) : Prop :=
  (memRectFillCalls T target pattern region).ok = true ∧
    target.Written region (fun x _ _ => m (pattern + BitVec.ofNat 64 (x % T.sizeof))) m
      ((memRectFillCalls T target pattern region).val.run m)

/-- A fill of a buffer is right: in the same way, for the bytes from `offset` on. -/
def FillsBuffer (m : Memory 64) (cmd : FillBuffer) (dst source patternSize offset size : SizeT) : Prop :=
  (FillBufferCPUCommand.mk cmd dst source).execute.ok = true ∧
    (∀ k < size.toNat, (FillBufferCPUCommand.mk cmd dst source).execute.val.run m (dst + offset + BitVec.ofNat 64 k) =
      m (source + BitVec.ofNat 64 (k % patternSize.toNat))) ∧
    ∀ a ∉ range (dst + offset) size.toNat, (FillBufferCPUCommand.mk cmd dst source).execute.val.run m a = m a

/-- Copies of rectangles are right at any address. Fills of rectangles with whole elements are if the pattern and
each row are aligned to the elements, fills of buffers if the pattern and the storage are. -/
theorem regions_written_iff (m : Memory 64) :
    (∀ (target source : Rectangle) (region : Fin 3 → SizeT), target.Holds region →
      Disjoint (target.bytes region) (source.bytes region) →
      target.Written region (fun x y z => m (source.byte x y z)) m ((memRectCpyUpdate target source region).run m)) ∧
    (∀ (T : ElementType) (target : Rectangle) (region : Fin 3 → SizeT) (pattern : SizeT), (∀ i, region i ≠ 0) →
      target.Holds region → T.sizeof ∣ (region 0).toNat → Disjoint (range pattern T.sizeof) (target.bytes region) →
      (FillsRectangle m T target pattern region ↔
        T.Aligned pattern ∧ ∀ y < (region 1).toNat, ∀ z < (region 2).toNat, T.Aligned (target.byte 0 y z))) ∧
    ∀ (q : QueueInfo) (buf : Option Mem) (pattern : Option Nat) (patternSize offset size : SizeT) (wl : WaitListArg)
      (cmd : Built FillBuffer),
      (EnqueueFillBufferBuilder.build q buf pattern patternSize offset size wl).create = .ok cmd → ∀ dst source : SizeT,
        (FillsBuffer m cmd.params dst source patternSize offset size ↔
          patternSize.toNat ∣ source.toNat ∧ (size ≠ 0 → patternSize.toNat ∣ dst.toNat)) := by
  refine ⟨fun _ _ _ h hdisj => memRectCpy_written h hdisj m, ?_, ?_⟩
  · intro T target region pattern hne h hdvd hdisj
    have hwritten := memRectFill_written h hdvd hdisj m
    rw [← memRectFillCalls_val] at hwritten
    exact (and_iff_left hwritten).trans (memRectFillCalls_ok_iff hne hdvd)
  · intro _ _ _ _ _ _ _ _ hcmd dst source
    exact (and_iff_left (fillBuffer_written hcmd dst source m)).trans (fillBuffer_ok_iff hcmd dst source)

/-- Two rows of four bytes in each of two slices. -/
def smallRegion : Fin 3 → SizeT := ![4, 2, 2]

def smallTarget : Rectangle where
  address := 4096
  rowPitch := 8
  slicePitch := 20

def smallSource : Rectangle where
  address := 8192
  rowPitch := 4
  slicePitch := 8

theorem smallTarget_holds : smallTarget.Holds smallRegion := ⟨by decide, by decide, by decide⟩

/-- The bytes of the source, which are a pattern, too. -/
theorem smallTarget_apart {n : Nat} (hn : n ≤ 16) : Disjoint (range smallSource.address n) (smallTarget.bytes smallRegion) :=
  Rectangle.disjoint_range ((Nat.add_le_add_left hn _).trans (by decide)) (by decide)

theorem smallTarget_disjoint : Disjoint (smallTarget.bytes smallRegion) (smallSource.bytes smallRegion) :=
  ((smallTarget_apart le_rfl).mono_left (Rectangle.bytes_subset_range (by decide))).symm

/-- A command that fills a buffer. -/
def fill (b : BufferObject) (patternSize offset size : SizeT) : Except CommandErrCode (Built FillBuffer) :=
  (EnqueueFillBufferBuilder.build { context := 0, device := CPUDevice.info } (some (.buffer b)) (some 512) patternSize
    offset size WaitListArg.empty).create

/-- A copy, a fill with elements of four bytes, and the last half of a buffer with a pattern of four. -/
theorem regions_written_small :
    let m : Memory 64 := fun a => a.setWidth 8
    smallTarget.Written smallRegion (fun x y z => m (smallSource.byte x y z)) m
        ((memRectCpyUpdate smallTarget smallSource smallRegion).run m) ∧
      FillsRectangle m FillElement.uint.type smallTarget smallSource.address smallRegion ∧
      ∃ cmd, fill BufferObject.sixteenBytes 4 8 8 = .ok cmd ∧ FillsBuffer m cmd.params 4096 8192 4 8 8 := by
  obtain ⟨hcopy, hfill, hpattern⟩ := regions_written_iff fun a : SizeT => a.setWidth 8
  obtain ⟨cmd, hcmd⟩ : ∃ cmd, fill BufferObject.sixteenBytes 4 8 8 = .ok cmd := ⟨_, rfl⟩
  refine ⟨hcopy _ _ _ smallTarget_holds smallTarget_disjoint, ?_, cmd, hcmd, ?_⟩
  · exact (hfill _ _ _ _ (by decide) smallTarget_holds (by decide) (smallTarget_apart (by decide))).2 (by decide)
  · exact (hpattern _ _ _ _ _ _ _ _ hcmd _ _).2 (by decide)

/-- Sixteen bytes of the host, at an address that is a multiple of eight only. -/
def hostBytes : BufferObject where
  buffer := .main ⟨0, 16, some 4104, MemFlags.ReadWrite ||| MemFlags.UseHostPtr, fun _ => rfl⟩
  context := 0
  size_lt := by decide

/-- The host's memory is the storage, and a `cl_float4` is written there. -/
theorem storage_not_aligned :
    ∃ cmd, fill hostBytes 16 0 16 = .ok cmd ∧
      ∃ dst, (MemoryDescriptor.allocateStorage none (.buffer hostBytes.buffer) MemoryDescriptor.initial).val.1 = some dst ∧
        ∀ m : Memory 64, ¬ FillsBuffer m cmd.params (BitVec.ofNat 64 dst) 8192 16 0 16 := by
  obtain ⟨cmd, hcmd⟩ : ∃ cmd, fill hostBytes 16 0 16 = .ok cmd := ⟨_, rfl⟩
  refine ⟨cmd, hcmd, 4104, rfl, fun m hfills => ?_⟩
  have haligned := (fillBuffer_ok_iff hcmd 4104 8192).1 hfills.1
  exact absurd (haligned.2 (by decide)) (by decide)

end OpenCRun.CPUThread
