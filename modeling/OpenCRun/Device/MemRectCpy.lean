import OpenCRun.Core.MemMapping
import OpenCRun.Lib.Strided
/-!
# Copying and filling rectangles

`CPUThread::MemRectCpy` and `MemRectFill`: the calls of `memcpy` and `MemFill`
that they make, row by row. The addresses are words, so they are those of a
strided storage modulo `2 ^ 64`.
-/
open Lib

namespace OpenCRun.CPUThread

structure Memcpy where
  target : SizeT
  source : SizeT
  size : SizeT
  deriving DecidableEq, Repr

def memRectCpy (target source : SizeT) (region : Fin 3 → SizeT) (targetRowPitch targetSlicePitch sourceRowPitch
    sourceSlicePitch : SizeT) : List Memcpy :=
  (List.range (region 2).toNat).flatMap fun z =>
    (List.range (region 1).toNat).map fun y =>
      { target := target + targetRowPitch * BitVec.ofNat 64 y + targetSlicePitch * BitVec.ofNat 64 z
        source := source + sourceRowPitch * BitVec.ofNat 64 y + sourceSlicePitch * BitVec.ofNat 64 z
        size := region 0 }

/-- The bytes that are written, and those that are read, all satisfy `P`. -/
def Memcpy.Writes (P : SizeT → Prop) (c : Memcpy) : Prop := ∀ i < c.size.toNat, P (c.target + BitVec.ofNat 64 i)
def Memcpy.Reads (P : SizeT → Prop) (c : Memcpy) : Prop := ∀ i < c.size.toNat, P (c.source + BitVec.ofNat 64 i)

def Memcpy.written (c : Memcpy) : Set SizeT := { a | ∃ i < c.size.toNat, a = c.target + BitVec.ofNat 64 i }
def Memcpy.read (c : Memcpy) : Set SizeT := { a | ∃ i < c.size.toNat, a = c.source + BitVec.ofNat 64 i }

/-- A call of `MemFill`; `size` is the one of its type of elements. -/
structure MemFill where
  target : SizeT
  size : Nat
  numEls : SizeT
  deriving DecidableEq, Repr

def memRectFill (target : SizeT) (size : Nat) (region : Fin 3 → SizeT) (targetRowPitch targetSlicePitch : SizeT) :
    List MemFill :=
  (List.range (region 2).toNat).flatMap fun z =>
    (List.range (region 1).toNat).map fun y =>
      { target := target + targetRowPitch * BitVec.ofNat 64 y + targetSlicePitch * BitVec.ofNat 64 z
        size
        numEls := region 0 / BitVec.ofNat 64 size }

def MemFill.Writes (P : SizeT → Prop) (f : MemFill) : Prop :=
  ∀ i < f.numEls.toNat, ∀ j < f.size, P (f.target + BitVec.ofNat 64 (i * f.size + j))

/-- The storage that a region is in, from where it starts. -/
def strided (start : Int) (region : Fin 3 → SizeT) (rowPitch slicePitch : Nat) : Strided where
  start
  rowPitch
  slicePitch
  width := (region 0).toNat
  rows := (region 1).toNat
  slices := (region 2).toNat

/-- The address of a byte. -/
theorem address_eq {start : Int} {offset rowPitch slicePitch : SizeT} {rp sp : Nat} (base : SizeT)
    (region : Fin 3 → SizeT) (hstart : BitVec.ofInt 64 start = offset) (hrp : BitVec.ofNat 64 rp = rowPitch)
    (hsp : BitVec.ofNat 64 sp = slicePitch) (x y z : Nat) :
    base + offset + rowPitch * BitVec.ofNat 64 y + slicePitch * BitVec.ofNat 64 z + BitVec.ofNat 64 x =
      base + BitVec.ofInt 64 ((strided start region rp sp).byte x y z) := by
  subst hstart hrp hsp
  simp only [strided, Strided.byte, BitVec.ofInt_add, BitVec.ofInt_mul, BitVec.ofInt_natCast]
  ac_rfl

section

variable (P : SizeT → Prop) (base : SizeT) {start : Int} {region : Fin 3 → SizeT} {offset trp tsp srp ssp : SizeT}
  {rp sp : Nat}

/-- What is to hold of each row, by bytes, holds all over the storage. -/
theorem forall_rows_iff {rowPitch slicePitch : SizeT} (hstart : BitVec.ofInt 64 start = offset)
    (hrp : BitVec.ofNat 64 rp = rowPitch) (hsp : BitVec.ofNat 64 sp = slicePitch) {κ : Type} (row : Nat → Nat → κ)
    (Q : κ → Prop)
    (hrow : ∀ y z, Q (row y z) ↔ ∀ x < (region 0).toNat,
      P (base + offset + rowPitch * BitVec.ofNat 64 y + slicePitch * BitVec.ofNat 64 z + BitVec.ofNat 64 x)) :
    (∀ c ∈ (List.range (region 2).toNat).flatMap fun z => (List.range (region 1).toNat).map fun y => row y z, Q c) ↔
      (strided start region rp sp).All fun p => P (base + BitVec.ofInt 64 p) := by
  simp only [List.mem_flatMap, List.mem_map, List.mem_range]
  constructor
  · intro h x hx y hy z hz
    rw [← address_eq base region hstart hrp hsp]
    exact (hrow y z).1 (h _ ⟨z, hz, y, hy, rfl⟩) x hx
  · rintro h c ⟨z, hz, y, hy, rfl⟩
    refine (hrow y z).2 fun x hx => ?_
    rw [address_eq base region hstart hrp hsp]
    exact h x hx y hy z hz

theorem memRectCpy_writes_iff (source : SizeT) (hstart : BitVec.ofInt 64 start = offset)
    (hrp : BitVec.ofNat 64 rp = trp) (hsp : BitVec.ofNat 64 sp = tsp) :
    (∀ c ∈ memRectCpy (base + offset) source region trp tsp srp ssp, c.Writes P) ↔
      (strided start region rp sp).All fun p => P (base + BitVec.ofInt 64 p) :=
  forall_rows_iff P base hstart hrp hsp _ _ fun _ _ => Iff.rfl

theorem memRectCpy_reads_iff (target : SizeT) (hstart : BitVec.ofInt 64 start = offset)
    (hrp : BitVec.ofNat 64 rp = srp) (hsp : BitVec.ofNat 64 sp = ssp) :
    (∀ c ∈ memRectCpy target (base + offset) region trp tsp srp ssp, c.Reads P) ↔
      (strided start region rp sp).All fun p => P (base + BitVec.ofInt 64 p) :=
  forall_rows_iff P base hstart hrp hsp _ _ fun _ _ => Iff.rfl

/-! ## Fills -/

/-- The bytes of `n / size` elements are `n` bytes. -/
theorem forall_element_iff {n size : Nat} (hdvd : size ∣ n) (Q : Nat → Prop) :
    (∀ i < n / size, ∀ j < size, Q (i * size + j)) ↔ ∀ k < n, Q k := by
  constructor
  · intro h k hk
    have hpos : 0 < size := Nat.pos_of_dvd_of_pos hdvd (by omega)
    have hbyte := h (k / size) (Nat.div_lt_div_of_lt_of_dvd hdvd hk) (k % size) (Nat.mod_lt _ hpos)
    rwa [Nat.div_add_mod'] at hbyte
  · intro h i hi j hj
    apply h
    calc i * size + j < (i + 1) * size := by rw [Nat.succ_mul]; omega
      _ ≤ n / size * size := Nat.mul_le_mul_right _ hi
      _ = n := Nat.div_mul_cancel hdvd

/-- Rows of whole elements are filled where `memcpy` would have written them. -/
theorem memRectFill_writes_iff (target : SizeT) {size : Nat} (hsize : size < 2 ^ 64) (hdvd : size ∣ (region 0).toNat) :
    (∀ f ∈ memRectFill target size region trp tsp, f.Writes P) ↔
      ∀ c ∈ memRectCpy target 0 region trp tsp 0 0, c.Writes P := by
  have hels : (region 0 / BitVec.ofNat 64 size).toNat = (region 0).toNat / size := by
    rw [BitVec.toNat_udiv, BitVec.toNat_ofNat, Nat.mod_eq_of_lt hsize]
  have hrow : ∀ a : SizeT, (∀ i < (region 0 / BitVec.ofNat 64 size).toNat, ∀ j < size,
      P (a + BitVec.ofNat 64 (i * size + j))) ↔ ∀ k < (region 0).toNat, P (a + BitVec.ofNat 64 k) := by
    intro a
    rw [hels]
    exact forall_element_iff hdvd fun k => P (a + BitVec.ofNat 64 k)
  simp only [memRectFill, memRectCpy, List.mem_flatMap, List.mem_map, List.mem_range]
  constructor
  · rintro h c ⟨z, hz, y, hy, rfl⟩
    exact (hrow _).1 (h _ ⟨z, hz, y, hy, rfl⟩)
  · rintro h f ⟨z, hz, y, hy, rfl⟩
    exact (hrow _).2 (h _ ⟨z, hz, y, hy, rfl⟩)

end

end OpenCRun.CPUThread
