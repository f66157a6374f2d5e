import Mathlib.Data.List.Nodup
import Mathlib.Data.List.ProdSigma
import Mathlib.Tactic.Ring
import OpenCRun.Lib.Footprint
/-!
# Copies of a work-group

`AsyncCopyThread::Run` copies elements between a packed side, which is local
memory or global memory, and a strided side in the other: the moves of bytes
that it makes, one after the other.
-/
open Lib.Footprint

namespace OpenCRun.AsyncCopy

abbrev Address := BitVec 64

/-! ## The code -/

structure AsyncCopyThreadData where
  dst : Address
  src : Address
  numGentypes : BitVec 64
  szGentype : BitVec 64
  dstStride : BitVec 64
  srcStride : BitVec 64
  deriving DecidableEq, Repr

/-- A byte that is copied. -/
structure Move where
  target : Address
  source : Address
  deriving DecidableEq, Repr

/-- The pointer into the strided side after byte `J` of element `I`, and before `++`. -/
def jump (numGentypes szGentype stride I J : BitVec 64) (p : Address) : Address :=
  if J = szGentype - 1 ∧ I < numGentypes - 1 then p + stride * szGentype else p

section Loops
variable (move : Address → Address → Move) (numGentypes szGentype stride : BitVec 64) (packed : Address)

/-- The rest of the loop over the bytes of an element, from byte `j`, and the pointer after it. -/
def elementLoop (i : Nat) : Nat → Nat → Address → List Move × Address
  | 0, _, p => ([], p)
  | n + 1, j, p =>
    let I := BitVec.ofNat 64 i
    let J := BitVec.ofNat 64 j
    let next := jump numGentypes szGentype stride I J p + 1
    let (rest, last) := elementLoop i n (j + 1) next
    (move (packed + (I * szGentype + J)) p :: rest, last)

/-- The rest of the loop over the elements, from element `i`. -/
def stridedLoop : Nat → Nat → Address → List Move
  | 0, _, _ => []
  | n + 1, i, p =>
    let (moves, p) := elementLoop move numGentypes szGentype stride packed i szGentype.toNat 0 p
    moves ++ stridedLoop n (i + 1) p

end Loops

def memcpy (dst src : Address) (numBytes : BitVec 64) : List Move :=
  (List.range numBytes.toNat).map fun k => ⟨dst + BitVec.ofNat 64 k, src + BitVec.ofNat 64 k⟩

/-- `AsyncCopyThread::Run` -/
def run (data : AsyncCopyThreadData) : List Move :=
  if data.srcStride ≠ 0 then
    stridedLoop (fun dst src => ⟨dst, src⟩) data.numGentypes data.szGentype data.srcStride data.dst
      data.numGentypes.toNat 0 data.src
  else if data.dstStride ≠ 0 then
    stridedLoop (fun src dst => ⟨dst, src⟩) data.numGentypes data.szGentype data.dstStride data.src
      data.numGentypes.toNat 0 data.dst
  else memcpy data.dst data.src (data.numGentypes * data.szGentype)

/-- The data of `AsyncWorkGroupCopy`. -/
def asyncWorkGroupCopy (dst src : Address) (numGentypes szGentype : BitVec 64) : AsyncCopyThreadData :=
  ⟨dst, src, numGentypes, szGentype, 0, 0⟩

/-- The data of `AsyncWorkGroupStridedCopy`. -/
def asyncWorkGroupStridedCopy (dst src : Address) (numGentypes stride szGentype : BitVec 64) (isSrcStride : BitVec 32) :
    AsyncCopyThreadData :=
  if isSrcStride = 0 then ⟨dst, src, numGentypes, szGentype, stride, 0⟩ else ⟨dst, src, numGentypes, szGentype, 0, stride⟩

/-- What the moves do to the memory. -/
def execute (moves : List Move) : Update Address (BitVec 8) := Update.all (moves.map fun mv => copying mv.target mv.source 1)

/-! ## Elements -/

/-- Byte `j` of element `i`, where one element in `step` counts. -/
def place (a : Address) (step size i j : Nat) : Address := a + BitVec.ofNat 64 (i * step * size + j)

/-- The bytes of elements. -/
def bytes (place : Nat → Nat → Address) (count size : Nat) : Set Address := { p | ∃ i < count, ∃ j < size, p = place i j }

/-- Every element is copied, no other byte is written, and no other byte is read. -/
structure Copies (moves : List Move) (target source : Nat → Nat → Address) (count size : Nat) : Prop where
  copied : ∀ m, ∀ i < count, ∀ j < size, (execute moves).run m (target i j) = m (source i j)
  writes : (execute moves).writes = bytes target count size
  reads : (execute moves).reads = bytes source count size

/-- Elements in local and in global memory. -/
structure Sides where
  packed : Address
  strided : Address
  count : BitVec 64
  size : BitVec 64
  stride : BitVec 64
  /-- The elements of the strided side are in the address space. -/
  inSpace : ∀ i < count.toNat, (i * (stride.toNat + 1) + 1) * size.toNat < 2 ^ 64
  /-- Local memory is not global memory. -/
  apart : Disjoint (bytes (place packed 1 size.toNat) count.toNat size.toNat)
    (bytes (place strided (stride.toNat + 1) size.toNat) count.toNat size.toNat)

namespace Sides
variable (s : Sides)

def packedByte : Nat → Nat → Address := place s.packed 1 s.size.toNat
def stridedByte : Nat → Nat → Address := place s.strided (s.stride.toNat + 1) s.size.toNat

def gather : List Move := run (asyncWorkGroupStridedCopy s.packed s.strided s.count s.stride s.size 1)
def scatter : List Move := run (asyncWorkGroupStridedCopy s.strided s.packed s.count s.stride s.size 0)

/-- The copies from the strided side and to it, and from it and back. -/
structure StridedCopies : Prop where
  gathered : Copies s.gather s.packedByte s.stridedByte s.count.toNat s.size.toNat
  scattered : Copies s.scatter s.stridedByte s.packedByte s.count.toNat s.size.toNat
  /-- What happens in between may change everything but the packed side. -/
  restored : ∀ m m', Set.EqOn m' ((execute s.gather).run m) (bytes s.packedByte s.count.toNat s.size.toNat) →
    Set.EqOn ((execute s.scatter).run m') m (bytes s.stridedByte s.count.toNat s.size.toNat)

end Sides

/-! ## The loops -/

section Loops
variable {move : Address → Address → Move} {numGentypes szGentype stride : BitVec 64} {packed : Address} {i : Nat}

theorem ofNat_toNat (x : BitVec 64) : BitVec.ofNat 64 x.toNat = x := by
  rw [BitVec.ofNat_toNat, BitVec.setWidth_eq]

/-- The address of `[I * szGentype + J]`. -/
theorem place_packed (packed : Address) (szGentype : BitVec 64) (i j : Nat) :
    packed + (BitVec.ofNat 64 i * szGentype + BitVec.ofNat 64 j) = place packed 1 szGentype.toNat i j := by
  unfold place
  rw [Nat.mul_one, BitVec.ofNat_add, BitVec.ofNat_mul, ofNat_toNat]

/-- The pointer jumps after the last byte of each element but the last. -/
theorem jump_eq (hi : i < numGentypes.toNat) {j : Nat} (hj : j < szGentype.toNat) (p : Address) :
    jump numGentypes szGentype stride (BitVec.ofNat 64 i) (BitVec.ofNat 64 j) p =
      if j + 1 = szGentype.toNat ∧ i + 1 < numGentypes.toNat then p + stride * szGentype else p := by
  have hnum := numGentypes.isLt
  have hsize := szGentype.isLt
  have hlast : BitVec.ofNat 64 j = szGentype - 1 ↔ j + 1 = szGentype.toNat := by
    rw [← BitVec.toNat_inj, BitVec.toNat_ofNat, BitVec.toNat_sub_of_le (by simp [BitVec.le_def]; omega),
      Nat.mod_eq_of_lt (by omega)]
    change j = szGentype.toNat - 1 ↔ _
    omega
  have hmore : BitVec.ofNat 64 i < numGentypes - 1 ↔ i + 1 < numGentypes.toNat := by
    rw [BitVec.lt_def, BitVec.toNat_ofNat, BitVec.toNat_sub_of_le (by simp [BitVec.le_def]; omega), Nat.mod_eq_of_lt (by omega)]
    change i < numGentypes.toNat - 1 ↔ _
    omega
  unfold jump
  simp only [hlast, hmore]

theorem succ_add_ofNat (p : Address) (l : Nat) : p + 1 + BitVec.ofNat 64 l = p + BitVec.ofNat 64 (l + 1) := by
  rw [BitVec.ofNat_add, BitVec.add_assoc, BitVec.add_comm 1 (BitVec.ofNat 64 l)]
  rfl

theorem elementLoop_eq (hi : i < numGentypes.toNat) {n j : Nat} (h : j + n = szGentype.toNat) (p : Address) :
    elementLoop move numGentypes szGentype stride packed i n j p =
      ((List.range' j n).map fun k => move (place packed 1 szGentype.toNat i k) (p + BitVec.ofNat 64 (k - j)),
        p + BitVec.ofNat 64 n + if 0 < n ∧ i + 1 < numGentypes.toNat then stride * szGentype else 0) := by
  induction n generalizing j p with
  | zero => simp [elementLoop]
  | succ n ih =>
    have hmove : ∀ k ∈ List.range' (j + 1) n, p + 1 + BitVec.ofNat 64 (k - (j + 1)) = p + BitVec.ofNat 64 (k - j) := by
      intro k hk
      have hj := (List.mem_range'_1.1 hk).1
      rw [succ_add_ofNat, (by omega : k - (j + 1) + 1 = k - j)]
    rw [elementLoop]
    simp only [place_packed]
    rw [jump_eq hi (by omega)]
    cases n with
    | zero =>
      rw [elementLoop]
      by_cases hmore : i + 1 < numGentypes.toNat
      · have hcomm : p + stride * szGentype + 1 = p + 1 + stride * szGentype := by ac_rfl
        rw [if_pos ⟨h, hmore⟩, if_pos ⟨Nat.zero_lt_succ 0, hmore⟩, hcomm]
        simp
      · rw [if_neg (fun h => hmore h.2), if_neg (fun h => hmore h.2)]
        simp
    | succ n =>
      rw [if_neg (by omega), ih (by omega), @List.range'_succ j (n + 1) 1, List.map_cons, Nat.sub_self,
        List.map_congr_left fun k hk => congrArg (move (place packed 1 szGentype.toNat i k)) (hmove k hk), succ_add_ofNat]
      simp

/-- After the bytes of an element, the pointer is at the next element. -/
theorem next_element (strided : Address) {more : Prop} [Decidable more] (hmore : more) :
    place strided (stride.toNat + 1) szGentype.toNat i 0 + BitVec.ofNat 64 szGentype.toNat +
      (if 0 < szGentype.toNat ∧ more then stride * szGentype else 0) =
        place strided (stride.toNat + 1) szGentype.toNat (i + 1) 0 := by
  have hjump : (if 0 < szGentype.toNat ∧ more then stride * szGentype else 0) =
      BitVec.ofNat 64 (stride.toNat * szGentype.toNat) := by
    rw [BitVec.ofNat_mul, ofNat_toNat, ofNat_toNat]
    by_cases hpos : 0 < szGentype.toNat
    · rw [if_pos ⟨hpos, hmore⟩]
    · have hzero : szGentype = 0 := BitVec.toNat_inj.1 (Nat.eq_zero_of_not_pos hpos)
      rw [if_neg (fun h => hpos h.1), hzero]
      exact BitVec.mul_zero.symm
  rw [hjump]
  unfold place
  rw [BitVec.add_assoc, BitVec.add_assoc, ← BitVec.ofNat_add, ← BitVec.ofNat_add]
  congr 2
  ring

/-- The elements and their bytes, in order. -/
def pairs (count size : Nat) : List (Nat × Nat) := List.range count ×ˢ List.range size

theorem stridedLoop_from {n : Nat} (h : i + n = numGentypes.toNat) (strided : Address) :
    stridedLoop move numGentypes szGentype stride packed n i (place strided (stride.toNat + 1) szGentype.toNat i 0) =
      (List.range' i n ×ˢ List.range szGentype.toNat).map fun b =>
        move (place packed 1 szGentype.toNat b.1 b.2) (place strided (stride.toNat + 1) szGentype.toNat b.1 b.2) := by
  induction n generalizing i with
  | zero => rfl
  | succ n ih =>
    have hbyte : ∀ j, place strided (stride.toNat + 1) szGentype.toNat i 0 + BitVec.ofNat 64 (j - 0) =
        place strided (stride.toNat + 1) szGentype.toNat i j := by
      intro j
      unfold place
      rw [BitVec.add_assoc, ← BitVec.ofNat_add, Nat.add_zero, Nat.sub_zero]
    rw [stridedLoop, elementLoop_eq (by omega) (Nat.zero_add _), List.range'_succ, List.product_cons, List.map_append,
      List.map_map]
    simp only [hbyte, List.range_eq_range']
    congr 1
    cases n with
    | zero => rfl
    | succ n =>
      rw [next_element strided (by omega), ih (by omega), List.range_eq_range']

theorem stridedLoop_eq (strided : Address) :
    stridedLoop move numGentypes szGentype stride packed numGentypes.toNat 0 strided =
      (pairs numGentypes.toNat szGentype.toNat).map fun b =>
        move (place packed 1 szGentype.toNat b.1 b.2) (place strided (stride.toNat + 1) szGentype.toNat b.1 b.2) := by
  have hstart : place strided (stride.toNat + 1) szGentype.toNat 0 0 = strided := by
    unfold place
    rw [Nat.zero_mul, Nat.zero_mul]
    exact BitVec.add_zero strided
  have hloop := @stridedLoop_from move numGentypes szGentype stride packed 0 _ (Nat.zero_add numGentypes.toNat) strided
  rw [hstart, ← List.range_eq_range'] at hloop
  exact hloop

/-- Contiguous bytes are those of elements, one after the other. -/
theorem range_pairs (count size : Nat) : List.range (count * size) = (pairs count size).map fun b => b.1 * size + b.2 := by
  unfold pairs
  induction count with
  | zero => rw [Nat.zero_mul]; rfl
  | succ count ih =>
    rw [Nat.succ_mul, List.range_add, ih, List.range_succ]
    simp [SProd.sprod, List.product]

theorem memcpy_eq (dst src : Address) (h : numGentypes.toNat * szGentype.toNat < 2 ^ 64) :
    memcpy dst src (numGentypes * szGentype) =
      (pairs numGentypes.toNat szGentype.toNat).map fun b =>
        ⟨place dst 1 szGentype.toNat b.1 b.2, place src 1 szGentype.toNat b.1 b.2⟩ := by
  unfold memcpy place
  rw [BitVec.toNat_mul, Nat.mod_eq_of_lt h, range_pairs, List.map_map]
  simp only [Nat.mul_one]
  rfl

end Loops

/-! ## Elements that are copied -/

theorem range_one (a : Address) : range a 1 = {a} := by
  ext p
  constructor
  · rintro ⟨k, hk, rfl⟩
    obtain rfl : k = 0 := Nat.lt_one_iff.1 hk
    exact BitVec.add_zero a
  · rintro rfl
    exact ⟨0, Nat.one_pos, (BitVec.add_zero p).symm⟩

theorem place_inj {a : Address} {step size n : Nat} (hstep : 0 < step) (hspace : ∀ i < n, (i * step + 1) * size < 2 ^ 64)
    {i j i' j' : Nat} (hi : i < n) (hj : j < size) (hi' : i' < n) (hj' : j' < size)
    (h : place a step size i j = place a step size i' j') : i = i' ∧ j = j' := by
  have hbound : ∀ k l, k < n → l < size → k * step * size + l < 2 ^ 64 := by
    intro k l hk hl
    have hlast := hspace k hk
    rw [Nat.add_mul, Nat.one_mul] at hlast
    omega
  have hnat := Lib.Bytes.offset_inj (hbound i j hi hj) (hbound i' j' hi' hj') h
  have hdiv : ∀ k l, l < size → (k * step * size + l) / size = k * step := by
    intro k l hl
    rw [Nat.mul_comm (k * step), Nat.mul_add_div (Nat.zero_lt_of_lt hl), Nat.div_eq_of_lt hl, Nat.add_zero]
  have helement : i * step = i' * step := by rw [← hdiv i j hj, hnat, hdiv i' j' hj']
  obtain rfl := Nat.eq_of_mul_eq_mul_right hstep helement
  exact ⟨rfl, by omega⟩

theorem mem_pairs {count size : Nat} {b : Nat × Nat} : b ∈ pairs count size ↔ b.1 < count ∧ b.2 < size := by
  unfold pairs
  rw [List.mem_product, List.mem_range, List.mem_range]

theorem exists_pairs {f : Nat → Nat → Address} {count size : Nat} {p : Address} :
    (∃ b ∈ pairs count size, p ∈ range (f b.1 b.2) 1) ↔ p ∈ bytes f count size := by
  constructor
  · rintro ⟨b, hb, hp⟩
    obtain ⟨hi, hj⟩ := mem_pairs.1 hb
    rw [range_one] at hp
    exact ⟨b.1, hi, b.2, hj, hp⟩
  · rintro ⟨i, hi, j, hj, rfl⟩
    exact ⟨(i, j), mem_pairs.2 ⟨hi, hj⟩, by rw [range_one]; rfl⟩

/-- Bytes at places of their own, from places that none of them is at. -/
theorem copies_of_apart {target source : Nat → Nat → Address} {count size : Nat}
    (hinj : ∀ i j i' j', i < count → j < size → i' < count → j' < size → target i j = target i' j' → i = i' ∧ j = j')
    (hapart : Disjoint (bytes target count size) (bytes source count size)) :
    Copies ((pairs count size).map fun b => ⟨target b.1 b.2, source b.1 b.2⟩) target source count size := by
  have hexecute : execute ((pairs count size).map fun b => ⟨target b.1 b.2, source b.1 b.2⟩) =
      Update.all ((pairs count size).map fun b => copying (target b.1 b.2) (source b.1 b.2) 1) := by
    unfold execute
    rw [List.map_map]
    rfl
  refine ⟨fun m i hi j hj => ?_, ?_, ?_⟩
  · have hnodup : (pairs count size).Nodup := List.Nodup.product List.nodup_range List.nodup_range
    have hmem : (i, j) ∈ pairs count size := mem_pairs.2 ⟨hi, hj⟩
    have hrun := Update.all_run_of_mem hnodup (f := fun b => copying (target b.1 b.2) (source b.1 b.2) 1)
      (fun b hb c hc hne => ?_)
      (fun b hb c hc => ?_) hmem ⟨0, Nat.one_pos, (BitVec.add_zero _).symm⟩ m
    · rw [hexecute, hrun]
      have hcopy := copying_run m (target i j) (source i j) (by decide : 1 ≤ 2 ^ 64) Nat.one_pos
      rwa [BitVec.add_zero, BitVec.add_zero] at hcopy
    · obtain ⟨hb, hb'⟩ := mem_pairs.1 hb
      obtain ⟨hc, hc'⟩ := mem_pairs.1 hc
      change Disjoint (range _ 1) (range _ 1)
      rw [range_one, range_one, Set.disjoint_singleton]
      intro h
      obtain ⟨hi, hj⟩ := hinj _ _ _ _ hb hb' hc hc' h
      exact hne (Prod.ext hi hj)
    · obtain ⟨hb, hb'⟩ := mem_pairs.1 hb
      obtain ⟨hc, hc'⟩ := mem_pairs.1 hc
      change Disjoint (range _ 1) (range _ 1)
      rw [range_one, range_one, Set.disjoint_singleton]
      intro h
      exact Set.disjoint_left.1 hapart ⟨_, hc, _, hc', h⟩ ⟨_, hb, _, hb', rfl⟩
  · ext p
    rw [hexecute, Update.mem_all_writes]
    exact exists_pairs
  · ext p
    rw [hexecute, Update.mem_all_reads]
    exact exists_pairs

/-! ## Both sides -/

namespace Sides
variable (s : Sides)

/-- The packed side has no more bytes than the strided side reaches. -/
theorem packed_lt : ∀ i < s.count.toNat, (i * 1 + 1) * s.size.toNat < 2 ^ 64 := fun i hi =>
  lt_of_le_of_lt (Nat.mul_le_mul_right _ (Nat.succ_le_succ (Nat.mul_le_mul_left i (Nat.le_add_left 1 _)))) (s.inSpace i hi)

theorem bytes_lt : s.count.toNat * s.size.toNat < 2 ^ 64 := by
  rcases Nat.eq_zero_or_pos s.count.toNat with hzero | hpos
  · rw [hzero, Nat.zero_mul]
    decide
  · have hlast := s.packed_lt (s.count.toNat - 1) (by omega)
    rwa [Nat.mul_one, Nat.sub_add_cancel hpos] at hlast

theorem gather_eq :
    s.gather = (pairs s.count.toNat s.size.toNat).map fun b => ⟨s.packedByte b.1 b.2, s.stridedByte b.1 b.2⟩ := by
  have hdata : asyncWorkGroupStridedCopy s.packed s.strided s.count s.stride s.size 1 =
      ⟨s.packed, s.strided, s.count, s.size, 0, s.stride⟩ := if_neg (by decide)
  unfold gather run packedByte stridedByte
  rw [hdata]
  by_cases hstride : s.stride = 0
  · rw [if_neg (not_not_intro hstride), if_neg (not_not_intro rfl), memcpy_eq _ _ s.bytes_lt, hstride]
    rfl
  · rw [if_pos hstride, stridedLoop_eq]

theorem scatter_eq :
    s.scatter = (pairs s.count.toNat s.size.toNat).map fun b => ⟨s.stridedByte b.1 b.2, s.packedByte b.1 b.2⟩ := by
  have hdata : asyncWorkGroupStridedCopy s.strided s.packed s.count s.stride s.size 0 =
      ⟨s.strided, s.packed, s.count, s.size, s.stride, 0⟩ := if_pos rfl
  unfold scatter run packedByte stridedByte
  rw [hdata, if_neg (not_not_intro rfl)]
  by_cases hstride : s.stride = 0
  · rw [if_neg (not_not_intro hstride), memcpy_eq _ _ s.bytes_lt, hstride]
    rfl
  · rw [if_pos hstride, stridedLoop_eq]

theorem gather_copies : Copies s.gather s.packedByte s.stridedByte s.count.toNat s.size.toNat := by
  rw [gather_eq]
  exact copies_of_apart (fun _ _ _ _ hi hj hi' hj' h => place_inj Nat.one_pos s.packed_lt hi hj hi' hj' h) s.apart

theorem scatter_copies : Copies s.scatter s.stridedByte s.packedByte s.count.toNat s.size.toNat := by
  rw [scatter_eq]
  exact copies_of_apart (fun _ _ _ _ hi hj hi' hj' h => place_inj (Nat.succ_pos _) s.inSpace hi hj hi' hj' h) s.apart.symm

/-- Elements are gathered and scattered as the stride says, and what has been gathered is put back. -/
theorem strided_copies : s.StridedCopies where
  gathered := s.gather_copies
  scattered := s.scatter_copies
  restored := by
    rintro m m' hpacked _ ⟨i, hi, j, hj, rfl⟩
    calc (execute s.scatter).run m' (s.stridedByte i j)
        = m' (s.packedByte i j) := s.scatter_copies.copied m' i hi j hj
      _ = (execute s.gather).run m (s.packedByte i j) := hpacked ⟨i, hi, j, hj, rfl⟩
      _ = m (s.stridedByte i j) := s.gather_copies.copied m i hi j hj

end Sides

/-- Three elements of two bytes, of which the strided side has every second one from `64`. -/
def threeElements : Sides where
  packed := 0
  strided := 64
  count := 3
  size := 2
  stride := 1
  inSpace := by decide
  apart := by
    have hne : ∀ i < 3, ∀ j < 2, ∀ i' < 3, ∀ j' < 2, place 0 1 2 i j ≠ place 64 2 2 i' j' := by decide
    rw [Set.disjoint_left]
    rintro _ ⟨i, hi, j, hj, rfl⟩ ⟨i', hi', j', hj', h⟩
    exact hne i hi j hj i' hi' j' hj' h

/-- Byte 1 of element 1 is at 3 and at 69. -/
theorem threeElements_copied :
    threeElements.StridedCopies ∧ ∀ m, (execute threeElements.gather).run m 3 = m 69 :=
  ⟨threeElements.strided_copies, fun m => threeElements.strided_copies.gathered.copied m 1 (by decide) 1 (by decide)⟩

/-- A copy that is not strided is one of stride zero. -/
theorem asyncWorkGroupCopy_eq (dst src : Address) (numGentypes szGentype : BitVec 64) (isSrcStride : BitVec 32) :
    asyncWorkGroupCopy dst src numGentypes szGentype =
      asyncWorkGroupStridedCopy dst src numGentypes 0 szGentype isSrcStride := by
  unfold asyncWorkGroupCopy asyncWorkGroupStridedCopy
  rw [ite_self]

end OpenCRun.AsyncCopy
