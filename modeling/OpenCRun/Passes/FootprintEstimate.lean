import Mathlib.Algebra.BigOperators.Ring.List
import OpenCRun.Lib.DataLayout
/-!
# The estimate of private memory

`FootprintEstimate` is run without a target, and takes a bound for the size of
each variable of a kernel from its type alone. The work-items of a group share
the memory, and the bound says how many there may be.
-/
open Lib.DataLayout

namespace OpenCRun.FootprintEstimate

/-- `size_t` -/
def sizeT (n : Nat) : Nat := n % 2 ^ 64

/-! ## The footprint -/

structure Footprint where
  localMemoryUsage : Nat
  privateMemoryUsage : Nat
  tempMemoryUsage : Nat
  deriving DecidableEq, Repr

namespace Footprint

def new : Footprint := ⟨0, 0, 0⟩

def addPrivateMemoryUsage (fp : Footprint) (usage : Nat) : Footprint :=
  { fp with privateMemoryUsage := sizeT (fp.privateMemoryUsage + usage) }

def addTempMemoryUsage (fp : Footprint) (usage : Nat) : Footprint :=
  { fp with tempMemoryUsage := sizeT (fp.tempMemoryUsage + usage) }

/-- Without any private memory, a byte is supposed for each work-item. -/
def getMaxWorkGroupSize (fp : Footprint) (availablePrivateMemory : Nat) : Nat :=
  if fp.privateMemoryUsage ≠ 0 then availablePrivateMemory / fp.privateMemoryUsage else availablePrivateMemory

end Footprint

/-! ## The bound -/

def scalarLowerBound : ScalarType → Nat
  | .floating f => f.bits / 8
  | .integer bitWidth => if bitWidth % 8 ≠ 0 then bitWidth / 8 + 1 else bitWidth / 8
  | .pointer _ => 4

mutual

def getSizeLowerBound : Ty → Nat
  | .void => 0
  | .scalar s => scalarLowerBound s
  | .vector n s => sizeT (n * scalarLowerBound s)
  | .array n t => if (Ty.array n t).isSized then sizeT (n * getSizeLowerBound t) else 0
  | .struct isPacked ts => if (Ty.struct isPacked ts).isSized then sumLowerBounds ts 0 else 0

/-- The loop over the elements of a struct. -/
def sumLowerBounds : List Ty → Nat → Nat
  | [], size => size
  | t :: ts, size => sumLowerBounds ts (sizeT (size + getSizeLowerBound t))

end

/-! ## Kernels -/

inductive Linkage where
  | external | internal
  deriving DecidableEq, Repr

/-- What is seen of an instruction: the linkage of the function that it calls, if
it calls one by its name; the number of values that it allocates, if that is a
constant; and a type. -/
inductive Instruction where
  | call (calledFunction : Option Linkage) (type : Ty)
  | alloca (arraySize : Option Nat) (allocatedType : Ty)
  | other (type : Ty)

def analyzeMemoryUsage (fp : Footprint) : Instruction → Footprint
  | .call (some .external) type => fp.addTempMemoryUsage (getSizeLowerBound type)
  | .call _ _ => fp
  | .alloca (some els) type => fp.addPrivateMemoryUsage (sizeT (els * getSizeLowerBound type))
  | .alloca none _ => fp
  | .other type => fp.addTempMemoryUsage (getSizeLowerBound type)

/-- `runOnFunction`, of the kernel that the pass was created for. -/
def runOnFunction (body : List Instruction) : Footprint := body.foldl analyzeMemoryUsage .new

/-! ## What is to be estimated -/

namespace Instruction

def allocatedType? : Instruction → Option Ty
  | .alloca _ type => some type
  | _ => none

/-- The bytes of the variables of which the number is a constant. -/
def privateBytes (L : Layout) : Instruction → Nat
  | .alloca (some els) type => els * L.allocSize type
  | _ => 0

/-- What is added to the private memory. -/
def privateLowerBound : Instruction → Nat
  | .alloca (some els) type => sizeT (els * getSizeLowerBound type)
  | _ => 0

end Instruction

/-- Work-items that use so many bytes, those of their variables among them, fit into the memory. -/
structure Fits (L : Layout) (body : List Instruction) (used available groupSize : Nat) : Prop where
  allocated : (body.map (·.privateBytes L)).sum ≤ used
  pos : 0 < used
  fits : groupSize * used ≤ available

/-- No layout has the type in fewer bytes, and no kernel with variables of the
type, of which the others are not estimated too large either, has its groups of
work-items limited to fewer than fit. -/
structure Estimates (t : Ty) : Prop where
  lowerBound : ∀ L : Layout, L.Represents t → getSizeLowerBound t ≤ L.allocSize t
  workGroup : ∀ L : Layout, L.Represents t → ∀ body : List Instruction,
    (∀ i ∈ body, ∀ u ∈ i.allocatedType?, u = t ∨ getSizeLowerBound u ≤ L.allocSize u) →
    ∀ used available groupSize, Fits L body used available groupSize →
      groupSize ≤ (runOnFunction body).getMaxWorkGroupSize available

mutual

/-- What fills up the elements of a vector of integers, each to whole bytes, is less than a byte. -/
def rounds : Ty → Bool
  | .void | .scalar _ => true
  | .vector n (.integer w) => decide (n * (8 * bytes w - w) < 8)
  | .vector _ _ => true
  | .array n t => n == 0 || rounds t
  | .struct _ ts => allRound ts

def allRound : List Ty → Bool
  | [] => true
  | t :: ts => rounds t && allRound ts

end

theorem allRound_iff (ts : List Ty) : allRound ts = true ↔ ∀ t ∈ ts, rounds t = true := by
  induction ts with
  | nil => exact iff_of_true rfl nofun
  | cons t ts ih => rw [allRound, Bool.and_eq_true, ih, List.forall_mem_cons]

/-! ## Scalars and vectors -/

theorem sizeT_le (n : Nat) : sizeT n ≤ n := Nat.mod_le _ _

theorem sizeT_lt (n : Nat) : sizeT n < 2 ^ 64 := Nat.mod_lt _ (by decide)

theorem sizeT_of_lt {n : Nat} (h : n < 2 ^ 64) : sizeT n = n := Nat.mod_eq_of_lt h

theorem scalarLowerBound_integer (w : Nat) : scalarLowerBound (.integer w) = bytes w := by
  unfold scalarLowerBound bytes
  dsimp only
  split <;> omega

theorem eight_mul_floating (f : FloatType) : 8 * scalarLowerBound (.floating f) = f.bits := by
  cases f <;> rfl

theorem packed_vector_floating (n : Nat) (f : FloatType) :
    Layout.packed.allocSize (.vector n (.floating f)) = n * scalarLowerBound (.floating f) := by
  rw [Layout.packed_vector, Layout.scalarBits, ← eight_mul_floating, bytes_mul_eight_mul]

theorem packed_vector_pointer (n addrSpace : Nat) :
    Layout.packed.allocSize (.vector n (.pointer addrSpace)) = n * scalarLowerBound (.pointer addrSpace) := by
  rw [Layout.packed_vector, Layout.scalarBits, bytes_mul_eight_mul]
  rfl

theorem scalarLowerBound_eq_packed (s : ScalarType) :
    scalarLowerBound s = Layout.packed.allocSize (.scalar s) := by
  rw [Layout.packed_scalar]
  cases s with
  | integer w => exact scalarLowerBound_integer w
  | floating f => rw [Layout.scalarBits, ← eight_mul_floating, bytes_eight_mul]
  | pointer addrSpace => exact (bytes_eight_mul 4).symm

theorem packed_vector_le (n : Nat) (s : ScalarType) :
    Layout.packed.allocSize (.vector n s) ≤ n * scalarLowerBound s := by
  cases s with
  | integer w =>
    rw [Layout.packed_vector, scalarLowerBound_integer]
    exact bytes_mul_le n w
  | floating f => exact (packed_vector_floating n f).le
  | pointer addrSpace => exact (packed_vector_pointer n addrSpace).le

theorem le_packed_vector_iff (n : Nat) (s : ScalarType) :
    n * scalarLowerBound s ≤ Layout.packed.allocSize (.vector n s) ↔ rounds (.vector n s) = true := by
  cases s with
  | integer w =>
    rw [Layout.packed_vector, scalarLowerBound_integer, rounds, decide_eq_true_eq]
    exact mul_bytes_le_iff n w
  | floating f => exact iff_of_true (packed_vector_floating n f).ge rfl
  | pointer addrSpace => exact iff_of_true (packed_vector_pointer n addrSpace).ge rfl

theorem le_eight_mul_packed_vector (n : Nat) (s : ScalarType) :
    n * scalarLowerBound s ≤ 8 * Layout.packed.allocSize (.vector n s) := by
  cases s with
  | integer w =>
    rw [Layout.packed_vector, scalarLowerBound_integer]
    exact mul_bytes_le_eight_mul n w
  | floating f =>
    rw [packed_vector_floating]
    exact Nat.le_mul_of_pos_left _ (by decide)
  | pointer addrSpace =>
    rw [packed_vector_pointer]
    exact Nat.le_mul_of_pos_left _ (by decide)

/-! ## The bound and the smallest layout -/

theorem sumLowerBounds_eq (ts : List Ty) {size : Nat} (h : size < 2 ^ 64) :
    sumLowerBounds ts size = sizeT (size + (ts.map getSizeLowerBound).sum) := by
  induction ts generalizing size with
  | nil => exact (sizeT_of_lt h).symm
  | cons t ts ih =>
    rw [sumLowerBounds, ih (sizeT_lt _), List.map_cons, List.sum_cons, ← Nat.add_assoc]
    exact Nat.mod_add_mod _ _ _

theorem getSizeLowerBound_array_le (n : Nat) (t : Ty) : getSizeLowerBound (.array n t) ≤ n * getSizeLowerBound t := by
  rw [getSizeLowerBound]
  split
  · exact sizeT_le _
  · exact Nat.zero_le _

theorem getSizeLowerBound_struct_le (isPacked : Bool) (ts : List Ty) :
    getSizeLowerBound (.struct isPacked ts) ≤ (ts.map getSizeLowerBound).sum := by
  rw [getSizeLowerBound]
  split
  · rw [sumLowerBounds_eq ts (by decide), Nat.zero_add]
    exact sizeT_le _
  · exact Nat.zero_le _

/-- Rounding each element up to bytes can take eight times the size. -/
theorem getSizeLowerBound_le_eight_mul (t : Ty) : getSizeLowerBound t ≤ 8 * Layout.packed.allocSize t := by
  induction t with
  | void => exact Nat.zero_le _
  | scalar s =>
    rw [getSizeLowerBound, scalarLowerBound_eq_packed]
    exact Nat.le_mul_of_pos_left _ (by decide)
  | vector n s =>
    rw [getSizeLowerBound]
    exact (sizeT_le _).trans (le_eight_mul_packed_vector n s)
  | array n t ih =>
    rw [Layout.packed_array, Nat.mul_left_comm]
    exact (getSizeLowerBound_array_le n t).trans (Nat.mul_le_mul_left n ih)
  | struct isPacked ts ih =>
    refine (getSizeLowerBound_struct_le isPacked ts).trans ?_
    rw [Layout.packed_struct, ← List.sum_map_mul_left]
    exact List.sum_le_sum ih

section Represented
variable {n : Nat} {t : Ty} {ts : List Ty} {s : ScalarType} {isPacked : Bool}

theorem getSizeLowerBound_vector (h : Layout.packed.Represents (.vector n s)) :
    getSizeLowerBound (.vector n s) = n * scalarLowerBound s := by
  rw [getSizeLowerBound]
  exact sizeT_of_lt ((le_eight_mul_packed_vector n s).trans_lt h)

theorem getSizeLowerBound_array (ht : (Ty.array n t).isSized = true) (h : Layout.packed.Represents (.array n t)) :
    getSizeLowerBound (.array n t) = n * getSizeLowerBound t := by
  have hlt : n * getSizeLowerBound t < 2 ^ 64 := by
    refine (Nat.mul_le_mul_left n (getSizeLowerBound_le_eight_mul t)).trans_lt ?_
    rw [Nat.mul_left_comm, ← Layout.packed_array]
    exact h
  rw [getSizeLowerBound, if_pos ht, sizeT_of_lt hlt]

theorem getSizeLowerBound_struct (ht : (Ty.struct isPacked ts).isSized = true)
    (h : Layout.packed.Represents (.struct isPacked ts)) :
    getSizeLowerBound (.struct isPacked ts) = (ts.map getSizeLowerBound).sum := by
  have hlt : (ts.map getSizeLowerBound).sum < 2 ^ 64 := by
    refine (List.sum_le_sum fun t _ => getSizeLowerBound_le_eight_mul t).trans_lt ?_
    rw [List.sum_map_mul_left, ← Layout.packed_struct isPacked]
    exact h
  rw [getSizeLowerBound, if_pos ht, sumLowerBounds_eq ts (by decide), Nat.zero_add, sizeT_of_lt hlt]

theorem represents_of_array (hn : n ≠ 0) (h : Layout.packed.Represents (.array n t)) : Layout.packed.Represents t := by
  unfold Layout.Represents at h
  rw [Layout.packed_array] at h
  exact (Nat.mul_le_mul_left 8 (Nat.le_mul_of_pos_left _ (Nat.pos_of_ne_zero hn))).trans_lt h

theorem represents_of_struct (h : Layout.packed.Represents (.struct isPacked ts)) :
    ∀ t ∈ ts, Layout.packed.Represents t := by
  intro t ht
  unfold Layout.Represents at h
  rw [Layout.packed_struct] at h
  exact (Nat.mul_le_mul_left 8 (List.single_le_sum (by simp) _ (List.mem_map_of_mem ht))).trans_lt h

end Represented

theorem packed_le (t : Ty) (ht : t.isSized = true) (h : Layout.packed.Represents t) :
    Layout.packed.allocSize t ≤ getSizeLowerBound t := by
  induction t with
  | void => exact Nat.zero_le _
  | scalar s => exact (scalarLowerBound_eq_packed s).ge
  | vector n s =>
    rw [getSizeLowerBound_vector h]
    exact packed_vector_le n s
  | array n t ih =>
    rw [Layout.packed_array, getSizeLowerBound_array ht h]
    by_cases hn : n = 0
    · rw [hn, Nat.zero_mul, Nat.zero_mul]
    · exact Nat.mul_le_mul_left n (ih ht (represents_of_array hn h))
  | struct isPacked ts ih =>
    rw [Layout.packed_struct, getSizeLowerBound_struct ht h]
    exact List.sum_le_sum fun t hmem => ih t hmem ((Ty.allSized_iff ts).1 ht t hmem) (represents_of_struct h t hmem)

/-- Sums of summands that are no less are no more only if the summands are equal. -/
theorem sum_le_iff {α : Type} {xs : List α} {f g : α → Nat} (h : ∀ x ∈ xs, g x ≤ f x) :
    (xs.map f).sum ≤ (xs.map g).sum ↔ ∀ x ∈ xs, f x ≤ g x := by
  constructor
  · intro hle
    by_contra hne
    push Not at hne
    obtain ⟨x, hx, hlt⟩ := hne
    exact (List.sum_lt_sum g f h ⟨x, hx, hlt⟩).not_ge hle
  · exact List.sum_le_sum

theorem le_packed_iff (t : Ty) (ht : t.isSized = true) (h : Layout.packed.Represents t) :
    getSizeLowerBound t ≤ Layout.packed.allocSize t ↔ rounds t = true := by
  induction t with
  | void => exact iff_of_true (Nat.zero_le _) rfl
  | scalar s => exact iff_of_true (scalarLowerBound_eq_packed s).le rfl
  | vector n s =>
    rw [getSizeLowerBound_vector h]
    exact le_packed_vector_iff n s
  | array n t ih =>
    rw [Layout.packed_array, getSizeLowerBound_array ht h, rounds, Bool.or_eq_true, beq_iff_eq]
    by_cases hn : n = 0
    · subst hn
      exact iff_of_true (by rw [Nat.zero_mul, Nat.zero_mul]) (.inl rfl)
    · rw [Nat.mul_le_mul_left_iff (Nat.pos_of_ne_zero hn), ih ht (represents_of_array hn h), or_iff_right hn]
  | struct isPacked ts ih =>
    have hsized := (Ty.allSized_iff ts).1 ht
    have hreps := represents_of_struct h
    rw [Layout.packed_struct, getSizeLowerBound_struct ht h, rounds, allRound_iff,
      sum_le_iff fun t hmem => packed_le t (hsized t hmem) (hreps t hmem)]
    exact forall₂_congr fun t hmem => ih t hmem (hsized t hmem) (hreps t hmem)

/-! ## Work-groups -/

theorem analyzeMemoryUsage_private (fp : Footprint) (i : Instruction) :
    (analyzeMemoryUsage fp i).privateMemoryUsage ≤ fp.privateMemoryUsage + i.privateLowerBound := by
  cases i with
  | call calledFunction type => rcases calledFunction with - | - | - <;> exact Nat.le_refl _
  | alloca arraySize type =>
    cases arraySize with
    | none => exact Nat.le_refl _
    | some els => exact sizeT_le _
  | other type => exact Nat.le_refl _

theorem foldl_private (body : List Instruction) (fp : Footprint) :
    (body.foldl analyzeMemoryUsage fp).privateMemoryUsage ≤
      fp.privateMemoryUsage + (body.map (·.privateLowerBound)).sum := by
  induction body generalizing fp with
  | nil => exact Nat.le_refl _
  | cons i body ih =>
    rw [List.foldl_cons, List.map_cons, List.sum_cons, ← Nat.add_assoc]
    exact (ih _).trans (Nat.add_le_add_right (analyzeMemoryUsage_private fp i) _)

theorem privateLowerBound_le {L : Layout} {i : Instruction}
    (h : ∀ u ∈ i.allocatedType?, getSizeLowerBound u ≤ L.allocSize u) : i.privateLowerBound ≤ i.privateBytes L := by
  cases i with
  | call calledFunction type => exact Nat.le_refl _
  | alloca arraySize type =>
    cases arraySize with
    | none => exact Nat.le_refl _
    | some els => exact (sizeT_le _).trans (Nat.mul_le_mul_left els (h type rfl))
  | other type => exact Nat.le_refl _

/-- A sum that wraps around to 0 leaves the bound at a byte for each work-item, which is used. -/
theorem le_getMaxWorkGroupSize {fp : Footprint} {used available groupSize : Nat} (hused : fp.privateMemoryUsage ≤ used)
    (hpos : 0 < used) (hfits : groupSize * used ≤ available) : groupSize ≤ fp.getMaxWorkGroupSize available := by
  unfold Footprint.getMaxWorkGroupSize
  split
  next hne =>
    rw [Nat.le_div_iff_mul_le (Nat.pos_of_ne_zero hne)]
    exact (Nat.mul_le_mul_left groupSize hused).trans hfits
  next => exact (Nat.le_mul_of_pos_right groupSize hpos).trans hfits

theorem le_maxWorkGroupSize {L : Layout} {body : List Instruction}
    (h : ∀ i ∈ body, ∀ u ∈ i.allocatedType?, getSizeLowerBound u ≤ L.allocSize u) {used available groupSize : Nat}
    (hfits : Fits L body used available groupSize) : groupSize ≤ (runOnFunction body).getMaxWorkGroupSize available := by
  refine le_getMaxWorkGroupSize ?_ hfits.pos hfits.fits
  calc (runOnFunction body).privateMemoryUsage ≤ 0 + (body.map (·.privateLowerBound)).sum := foldl_private body .new
    _ = (body.map (·.privateLowerBound)).sum := Nat.zero_add _
    _ ≤ (body.map (·.privateBytes L)).sum := List.sum_le_sum fun i hi => privateLowerBound_le (h i hi)
    _ ≤ used := hfits.allocated

/-- Each type that rounds is estimated, and those are the only ones, except for
types that are too large for every layout. -/
theorem estimates_iff (t : Ty) (ht : t.isSized = true) :
    Estimates t ↔ rounds t = true ∨ ∀ L : Layout, ¬ L.Represents t := by
  constructor
  · intro h
    by_cases hrep : Layout.packed.Represents t
    · exact .inl ((le_packed_iff t ht hrep).1 (h.lowerBound _ hrep))
    · exact .inr fun L hL => hrep hL.packed
  · intro h
    have hbound : ∀ L : Layout, L.Represents t → getSizeLowerBound t ≤ L.allocSize t := by
      intro L hL
      have hrounds : rounds t = true := h.resolve_right fun hno => hno L hL
      exact ((le_packed_iff t ht hL.packed).2 hrounds).trans (L.packed_allocSize_le t)
    refine ⟨hbound, fun L hL body hbody used available groupSize hfits => le_maxWorkGroupSize ?_ hfits⟩
    intro i hi u hu
    obtain rfl | hle := hbody i hi u hu
    · exact hbound L hL
    · exact hle

/-- Three bits, a vector of odd integers whose last byte is filled up, and pointers in an array. -/
theorem oddBits_estimated :
    Estimates (.struct false [.scalar (.integer 3), .vector 3 (.integer 15), .array 5 (.scalar (.pointer 1))]) :=
  (estimates_iff _ rfl).2 (.inl (by decide))

/-- Integers and vectors at their sizes, and pointers of 64 bits. -/
def wide : Layout where
  pointerSize _ := 8
  scalarAlign
    | .integer w => bytes w
    | .floating f => bytes f.bits
    | .pointer _ => 8
  vectorAlign n
    | .integer w => bytes (n * w)
    | .floating f => bytes (n * f.bits)
    | .pointer _ => n * 8
  aggregateAlign := 1
  four_le_pointerSize _ := by decide

/-- 64 bits in a vector are 8 bytes, which are taken for 64. -/
theorem vectorOfBits_overestimated :
    ¬ Estimates (.vector 64 (.integer 1)) ∧ getSizeLowerBound (.vector 64 (.integer 1)) = 64 ∧
      wide.allocSize (.vector 64 (.integer 1)) = 8 ∧
      Fits wide [.alloca (some 1) (.vector 64 (.integer 1))] 8 64 8 ∧
      (runOnFunction [.alloca (some 1) (.vector 64 (.integer 1))]).getMaxWorkGroupSize 64 = 1 :=
  ⟨fun h => absurd (h.lowerBound wide (by decide)) (by decide), by decide, by decide,
    ⟨by decide, by decide, by decide⟩, by decide⟩

end OpenCRun.FootprintEstimate
