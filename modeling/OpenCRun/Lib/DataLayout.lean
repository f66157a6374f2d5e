import Mathlib.Algebra.BigOperators.Group.List.Basic
import Mathlib.Algebra.Order.BigOperators.Group.List
import Mathlib.Algebra.Order.Ring.Nat
/-!
# Types in memory

The types of LLVM, and the bytes that they take by a data layout. A layout has
the sizes of pointers and the alignments; it pads what it places. Of all
layouts, the one that aligns nothing and has the shortest pointers makes every
type smallest.
-/
namespace Lib.DataLayout

/-! ## Types -/

inductive FloatType where
  | half | float | double | x86Fp80 | fp128 | ppcFp128
  deriving DecidableEq, Repr

def FloatType.bits : FloatType → Nat
  | half => 16
  | float => 32
  | double => 64
  | x86Fp80 => 80
  | fp128 | ppcFp128 => 128

/-- What a vector may be made of. -/
inductive ScalarType where
  | integer (width : Nat)
  | floating (f : FloatType)
  | pointer (addrSpace : Nat)
  deriving DecidableEq, Repr

/-- `void` stands for the types without a size. -/
inductive Ty where
  | void
  | scalar (s : ScalarType)
  | vector (n : Nat) (s : ScalarType)
  | array (n : Nat) (t : Ty)
  | struct (isPacked : Bool) (elements : List Ty)

namespace Ty

/-- Over a struct, what is to be shown holds of all its elements. -/
@[elab_as_elim, induction_eliminator]
theorem induction {motive : Ty → Prop} (void : motive .void) (scalar : ∀ s, motive (.scalar s))
    (vector : ∀ n s, motive (.vector n s)) (array : ∀ n t, motive t → motive (.array n t))
    (struct : ∀ isPacked ts, (∀ t ∈ ts, motive t) → motive (.struct isPacked ts)) : ∀ t, motive t
  | .void => void
  | .scalar s => scalar s
  | .vector n s => vector n s
  | .array n t => array n t (induction void scalar vector array struct t)
  | .struct isPacked ts => struct isPacked ts fun t _ => induction void scalar vector array struct t

mutual

def isSized : Ty → Bool
  | void => false
  | scalar _ | vector .. => true
  | array _ t => t.isSized
  | struct _ ts => allSized ts

def allSized : List Ty → Bool
  | [] => true
  | t :: ts => t.isSized && allSized ts

end

theorem allSized_iff (ts : List Ty) : allSized ts = true ↔ ∀ t ∈ ts, t.isSized = true := by
  induction ts with
  | nil => exact iff_of_true rfl nofun
  | cons t ts ih => rw [allSized, Bool.and_eq_true, ih, List.forall_mem_cons]

end Ty

/-! ## Bytes and alignments -/

/-- Bits in whole bytes. -/
def bytes (bits : Nat) : Nat := (bits + 7) / 8

/-- The next multiple of an alignment; nothing is done for an alignment of 0. -/
def alignTo (n a : Nat) : Nat := n + (a - n % a) % a

theorem bytes_eight_mul (n : Nat) : bytes (8 * n) = n := by
  unfold bytes
  omega

theorem bytes_mul_eight_mul (n k : Nat) : bytes (n * (8 * k)) = n * k := by
  rw [Nat.mul_left_comm, bytes_eight_mul]

theorem bytes_mono {m n : Nat} (h : m ≤ n) : bytes m ≤ bytes n := Nat.div_le_div_right (Nat.add_le_add_right h 7)

/-- Each element has its bits filled up to bytes. -/
theorem mul_bytes (n w : Nat) : 8 * (n * bytes w) = n * w + n * (8 * bytes w - w) := by
  have hw : w + (8 * bytes w - w) = 8 * bytes w := by
    unfold bytes
    omega
  rw [← Nat.mul_add, hw, Nat.mul_left_comm]

theorem bytes_mul_le (n w : Nat) : bytes (n * w) ≤ n * bytes w := by
  have h := mul_bytes n w
  have hbytes : bytes (n * w) = (n * w + 7) / 8 := rfl
  omega

theorem mul_bytes_le_iff (n w : Nat) : n * bytes w ≤ bytes (n * w) ↔ n * (8 * bytes w - w) < 8 := by
  have h := mul_bytes n w
  have hbytes : bytes (n * w) = (n * w + 7) / 8 := rfl
  omega

/-- An element of one bit at least has eight times its bits at most, in whole bytes. -/
theorem mul_bytes_le_eight_mul (n w : Nat) : n * bytes w ≤ 8 * bytes (n * w) := by
  have hw : bytes w ≤ w := by
    unfold bytes
    omega
  have hn : n * bytes w ≤ n * w := Nat.mul_le_mul_left n hw
  have hbytes : bytes (n * w) = (n * w + 7) / 8 := rfl
  omega

theorem le_alignTo (n a : Nat) : n ≤ alignTo n a := Nat.le_add_right _ _

@[simp]
theorem alignTo_one (n : Nat) : alignTo n 1 = n := by simp [alignTo, Nat.mod_one]

/-! ## Layouts -/

/-- Alignments and the sizes of pointers are in bytes. LLVM's alignments are
powers of two, which nothing here depends on. -/
structure Layout where
  pointerSize : Nat → Nat
  scalarAlign : ScalarType → Nat
  vectorAlign : Nat → ScalarType → Nat
  aggregateAlign : Nat
  /-- Pointers have 32 bits at least. -/
  four_le_pointerSize : ∀ addrSpace, 4 ≤ pointerSize addrSpace

namespace Layout
variable (L : Layout)

def scalarBits : ScalarType → Nat
  | .integer w => w
  | .floating f => f.bits
  | .pointer addrSpace => 8 * L.pointerSize addrSpace

mutual

/-- `getABITypeAlignment` -/
def abiAlign : Ty → Nat
  | .void => 1
  | .scalar s => L.scalarAlign s
  | .vector n s => L.vectorAlign n s
  | .array _ t => abiAlign t
  | .struct isPacked ts => if isPacked then 1 else max L.aggregateAlign (maxAlign ts)

/-- The alignment of a struct that is not packed. -/
def maxAlign : List Ty → Nat
  | [] => 1
  | t :: ts => max (abiAlign t) (maxAlign ts)

end

mutual

/-- `getTypeAllocSize`: the bytes of the type, aligned. -/
def allocSize : Ty → Nat
  | .void => 0
  | .scalar s => alignTo (bytes (L.scalarBits s)) (L.scalarAlign s)
  | .vector n s => alignTo (bytes (n * L.scalarBits s)) (L.vectorAlign n s)
  | .array n t => alignTo (bytes (n * (8 * allocSize t))) (L.abiAlign t)
  | .struct isPacked ts =>
    alignTo (alignTo (endOffset isPacked ts 0) (if isPacked then 1 else L.maxAlign ts))
      (L.abiAlign (.struct isPacked ts))

/-- Where the elements end if the first is placed behind an offset. -/
def endOffset (isPacked : Bool) : List Ty → Nat → Nat
  | [], offset => offset
  | t :: ts, offset => endOffset isPacked ts (alignTo offset (if isPacked then 1 else L.abiAlign t) + allocSize t)

end

/-- The sizes are of 64 bits, in bits. -/
def Represents (t : Ty) : Prop := 8 * L.allocSize t < 2 ^ 64

instance (t : Ty) : Decidable (L.Represents t) := inferInstanceAs (Decidable (_ < _))

theorem le_endOffset (isPacked : Bool) (ts : List Ty) (offset : Nat) :
    offset + (ts.map L.allocSize).sum ≤ L.endOffset isPacked ts offset := by
  induction ts generalizing offset with
  | nil => exact Nat.le_refl _
  | cons t ts ih =>
    rw [endOffset, List.map_cons, List.sum_cons, ← Nat.add_assoc]
    calc offset + L.allocSize t + (ts.map L.allocSize).sum
        ≤ alignTo offset (if isPacked then 1 else L.abiAlign t) + L.allocSize t + (ts.map L.allocSize).sum := by
          gcongr
          exact le_alignTo _ _
      _ ≤ _ := ih _

theorem sum_le_struct (isPacked : Bool) (ts : List Ty) :
    (ts.map L.allocSize).sum ≤ L.allocSize (.struct isPacked ts) := by
  rw [allocSize]
  calc (ts.map L.allocSize).sum ≤ L.endOffset isPacked ts 0 := by simpa using L.le_endOffset isPacked ts 0
    _ ≤ _ := le_alignTo _ _
    _ ≤ _ := le_alignTo _ _

theorem mul_le_array (n : Nat) (t : Ty) : n * L.allocSize t ≤ L.allocSize (.array n t) := by
  rw [allocSize, bytes_mul_eight_mul]
  exact le_alignTo _ _

/-! ### The smallest layout -/

/-- Nothing is aligned, and the pointers have 32 bits. -/
def packed : Layout where
  pointerSize _ := 4
  scalarAlign _ := 1
  vectorAlign _ _ := 1
  aggregateAlign := 1
  four_le_pointerSize _ := Nat.le_refl _

theorem packed_abiAlign (t : Ty) : packed.abiAlign t = 1 := by
  induction t with
  | void => rfl
  | scalar s => rfl
  | vector n s => rfl
  | array n t ih => rw [abiAlign, ih]
  | struct isPacked ts ih =>
    have hmax : packed.maxAlign ts = 1 := by
      induction ts with
      | nil => rfl
      | cons t ts ihs =>
        rw [List.forall_mem_cons] at ih
        rw [maxAlign, ih.1, ihs ih.2, Nat.max_self]
    rw [abiAlign, hmax]
    cases isPacked <;> rfl

theorem packed_scalar (s : ScalarType) : packed.allocSize (.scalar s) = bytes (packed.scalarBits s) := by
  rw [allocSize]
  exact alignTo_one _

theorem packed_vector (n : Nat) (s : ScalarType) :
    packed.allocSize (.vector n s) = bytes (n * packed.scalarBits s) := by
  rw [allocSize]
  exact alignTo_one _

theorem packed_array (n : Nat) (t : Ty) : packed.allocSize (.array n t) = n * packed.allocSize t := by
  rw [allocSize, packed_abiAlign, alignTo_one, bytes_mul_eight_mul]

theorem packed_endOffset (isPacked : Bool) (ts : List Ty) (offset : Nat) :
    packed.endOffset isPacked ts offset = offset + (ts.map packed.allocSize).sum := by
  induction ts generalizing offset with
  | nil => rfl
  | cons t ts ih =>
    rw [endOffset, packed_abiAlign, ite_self, alignTo_one, ih, List.map_cons, List.sum_cons, Nat.add_assoc]

theorem packed_struct (isPacked : Bool) (ts : List Ty) :
    packed.allocSize (.struct isPacked ts) = (ts.map packed.allocSize).sum := by
  have hmax : (if isPacked then 1 else packed.maxAlign ts) = 1 := by
    have h := packed_abiAlign (.struct isPacked ts)
    rw [abiAlign] at h
    cases isPacked
    · have hone : packed.maxAlign ts ≤ 1 := by
        rw [← h]
        exact Nat.le_max_right _ _
      have hpos : 1 ≤ packed.maxAlign ts := by cases ts <;> simp [maxAlign, packed_abiAlign]
      exact Nat.le_antisymm hone hpos
    · rfl
  rw [allocSize, packed_abiAlign, alignTo_one, hmax, alignTo_one, packed_endOffset, Nat.zero_add]

theorem packed_scalarBits_le (s : ScalarType) : packed.scalarBits s ≤ L.scalarBits s := by
  cases s with
  | integer w => exact Nat.le_refl _
  | floating f => exact Nat.le_refl _
  | pointer addrSpace => exact Nat.mul_le_mul_left 8 (L.four_le_pointerSize addrSpace)

theorem packed_allocSize_le (t : Ty) : packed.allocSize t ≤ L.allocSize t := by
  induction t with
  | void => exact Nat.le_refl _
  | scalar s =>
    rw [packed_scalar, allocSize]
    exact (bytes_mono (L.packed_scalarBits_le s)).trans (le_alignTo _ _)
  | vector n s =>
    rw [packed_vector, allocSize]
    exact (bytes_mono (Nat.mul_le_mul_left n (L.packed_scalarBits_le s))).trans (le_alignTo _ _)
  | array n t ih =>
    rw [packed_array]
    exact (Nat.mul_le_mul_left n ih).trans (L.mul_le_array n t)
  | struct isPacked ts ih =>
    rw [packed_struct]
    exact (List.sum_le_sum ih).trans (L.sum_le_struct isPacked ts)

theorem Represents.packed {L : Layout} {t : Ty} (h : L.Represents t) : packed.Represents t :=
  (Nat.mul_le_mul_left 8 (L.packed_allocSize_le t)).trans_lt h

end Layout
end Lib.DataLayout
