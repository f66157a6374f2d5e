import OpenCRun.Lib.Loop
import OpenCRun.Util.DimensionInfo
/-!
# What an iterator visits

The local ids and the work-group ids of an iterator are the digits of its
position, the number of work-items before it. Both ways that the code advances
one, by a work-item and by a work-group, stay below 2^32, so they add to the
position, and after the last position comes the end.
-/
open Lib.MixedRadix

namespace OpenCRun.DimensionInfo

variable {di : DimensionInfo}

def globalSizes (di : DimensionInfo) : List Nat := di.info.map InfoWrapper.globalSize

def localSizes (di : DimensionInfo) : List Nat := di.info.map InfoWrapper.localSize

/-- The number of work-groups in each dimension. -/
def groupCounts (di : DimensionInfo) : List Nat := di.info.map fun w => w.globalSize / w.localSize

/-- Sizes that fit their types, and local ones that divide the global ones. -/
structure Divided (di : DimensionInfo) : Prop where
  dims : 0 < di.info.length
  globalPos : ∀ w ∈ di.info, 0 < w.globalSize
  localPos : ∀ w ∈ di.info, 0 < w.localSize
  dvd : ∀ w ∈ di.info, w.localSize ∣ w.globalSize
  globalLt : ∀ w ∈ di.info, w.globalSize < 2 ^ 32
  localProd : di.localSizes.prod < 2 ^ 32

@[simp] theorem localSizes_length : di.localSizes.length = di.info.length := List.length_map _

@[simp] theorem groupCounts_length : di.groupCounts.length = di.info.length := List.length_map _

@[simp] theorem globalSizes_length : di.globalSizes.length = di.info.length := List.length_map _

/-! ## Sizes and counts -/

namespace Divided

variable (h : di.Divided)
include h

theorem localSizes_pos : ∀ b ∈ di.localSizes, 0 < b := by
  intro b hb
  obtain ⟨w, hw, rfl⟩ := List.mem_map.1 hb
  exact h.localPos w hw

theorem groupCounts_pos : ∀ b ∈ di.groupCounts, 0 < b := by
  intro b hb
  obtain ⟨w, hw, rfl⟩ := List.mem_map.1 hb
  exact Nat.div_pos (Nat.le_of_dvd (h.globalPos w hw) (h.dvd w hw)) (h.localPos w hw)

theorem localSize_lt {w : InfoWrapper} (hw : w ∈ di.info) : w.localSize < 2 ^ 32 :=
  lt_of_le_of_lt (Nat.le_of_dvd (h.globalPos w hw) (h.dvd w hw)) (h.globalLt w hw)

theorem groupCount_lt {w : InfoWrapper} (hw : w ∈ di.info) : w.globalSize / w.localSize < 2 ^ 32 :=
  lt_of_le_of_lt (Nat.div_le_self _ _) (h.globalLt w hw)

theorem localSizes_lt : ∀ b ∈ di.localSizes, b < 2 ^ 32 := by
  intro b hb
  obtain ⟨w, hw, rfl⟩ := List.mem_map.1 hb
  exact h.localSize_lt hw

theorem groupCounts_lt : ∀ b ∈ di.groupCounts, b < 2 ^ 32 := by
  intro b hb
  obtain ⟨w, hw, rfl⟩ := List.mem_map.1 hb
  exact h.groupCount_lt hw

theorem localProd_pos : 0 < di.localSizes.prod := List.prod_pos_iff_forall_pos_nat.2 h.localSizes_pos

theorem groupProd_pos : 0 < di.groupCounts.prod := List.prod_pos_iff_forall_pos_nat.2 h.groupCounts_pos

theorem getLocalWorkItemsAt_eq {i b : Nat} (hi : di.localSizes[i]? = some b) : di.getLocalWorkItemsAt i = b := by
  rw [localSizes, List.getElem?_map, Option.map_eq_some_iff] at hi
  obtain ⟨w, hw, rfl⟩ := hi
  simp only [getLocalWorkItemsAt, hw]
  exact Nat.mod_eq_of_lt (h.localSize_lt (List.mem_of_getElem? hw))

theorem getWorkGroupsCountAt_eq {i b : Nat} (hi : di.groupCounts[i]? = some b) : di.getWorkGroupsCountAt i = b := by
  rw [groupCounts, List.getElem?_map, Option.map_eq_some_iff] at hi
  obtain ⟨w, hw, rfl⟩ := hi
  have hmem := List.mem_of_getElem? hw
  simp only [getWorkGroupsCountAt, hw, Nat.mod_eq_zero_of_dvd (h.dvd w hmem), ne_eq, not_true, if_false]
  exact Nat.mod_eq_of_lt (h.groupCount_lt hmem)

end Divided

theorem foldl_toUnsigned (f : InfoWrapper → Nat) (l : List InfoWrapper) (n : Nat) :
    l.foldl (fun size w => toUnsigned (size * f w)) (toUnsigned n) = toUnsigned (n * (l.map f).prod) := by
  induction l generalizing n with
  | nil => simp
  | cons w l ih =>
    have hmul : toUnsigned (toUnsigned n * f w) = toUnsigned (n * f w) := Nat.mod_mul_mod n (f w) _
    simp only [List.foldl_cons, hmul, ih, List.map_cons, List.prod_cons, Nat.mul_assoc]

theorem getGlobalWorkItems_eq : di.getGlobalWorkItems = di.globalSizes.prod % 2 ^ 32 := by
  have h := foldl_toUnsigned InfoWrapper.globalSize di.info 1
  rwa [Nat.one_mul] at h

theorem getLocalWorkItems_eq : di.getLocalWorkItems = di.localSizes.prod % 2 ^ 32 := by
  have h := foldl_toUnsigned InfoWrapper.localSize di.info 1
  rwa [Nat.one_mul] at h

theorem prod_groupCounts (hd : ∀ w ∈ di.info, w.localSize ∣ w.globalSize) :
    di.localSizes.prod * di.groupCounts.prod = di.globalSizes.prod := by
  rw [localSizes, groupCounts, ← List.prod_map_mul]
  exact congrArg List.prod (List.map_congr_left fun w hw => Nat.mul_div_cancel' (hd w hw))

/-! ## Advancing -/

/-- Adding does not leave 32 bits: a carry of one to digits of such bases, or a small sum. -/
theorem advanceLoop_eq (dimSize : Nat → Nat) {bs ds : List Nat} {i c : Nat} (hv : Valid bs ds)
    (hsize : ∀ k b, bs[k]? = some b → dimSize (i + k) = b)
    (hc : c ≤ 1 ∧ (∀ b ∈ bs, b < 2 ^ 32) ∨ value bs ds + c < 2 ^ 32) :
    advanceLoop dimSize i ds c = addCarry bs ds c := by
  induction hv generalizing i c with
  | nil => rfl
  | @cons d b ds bs hd hv ih =>
    by_cases h0 : c = 0
    · subst h0
      rw [addCarry_zero (.cons hd hv), advanceLoop, if_pos rfl]
    · have hb : dimSize i = b := hsize 0 b rfl
      have hlt : d + c < 2 ^ 32 := by
        rcases hc with ⟨h1, hbs⟩ | hsum
        · have := hbs b (by simp)
          omega
        · rw [value] at hsum
          omega
      have hnext : (d + c) / b ≤ 1 ∧ (∀ b ∈ bs, b < 2 ^ 32) ∨ value bs ds + (d + c) / b < 2 ^ 32 := by
        rcases hc with ⟨h1, hbs⟩ | hsum
        · refine .inl ⟨?_, fun b' hb' => hbs b' (by simp [hb'])⟩
          exact Nat.div_le_of_le_mul (by omega)
        · right
          have hb0 : 0 < b := Nat.zero_lt_of_lt hd
          have h1 : (d + c) / b ≤ d + c := Nat.div_le_self _ _
          have h2 : value bs ds ≤ b * value bs ds := Nat.le_mul_of_pos_left _ hb0
          rw [value] at hsum
          omega
      have hrec := ih (i := i + 1) (fun k b' hk => by rw [← hsize (k + 1) b' hk]; congr 1; omega) hnext
      simp only [advanceLoop, h0, if_false, toUnsigned, Nat.mod_eq_of_lt hlt, hb, hrec, addCarry]

/-- The iterator with `n` work-items before it. -/
def iterAt (di : DimensionInfo) (n : Nat) : DimensionInfoIterator where
  locals := digits di.localSizes n
  workGroups := digits di.groupCounts (n / di.localSizes.prod)

/-- The last position is the end. -/
def position (di : DimensionInfo) (n : Nat) : DimensionInfoIterator :=
  if n < di.globalSizes.prod then di.iterAt n else di.endIter

/-- Advancing adds to the position, as far as no sum of a digit and a carry leaves 32 bits. -/
theorem Divided.advance_eq (h : di.Divided) {n c : Nat} (hn : n < di.globalSizes.prod)
    (hl : c ≤ 1 ∨ n % di.localSizes.prod + c < 2 ^ 32)
    (hg : (n + c) / di.localSizes.prod ≤ n / di.localSizes.prod + 1 ∨ (n + c) / di.localSizes.prod < 2 ^ 32) :
    di.advance c (di.iterAt n) = di.position (n + c) := by
  have htotal := prod_groupCounts h.dvd
  obtain ⟨l1, l2⟩ := addCarry_digits di.localSizes h.localSizes_pos n c
  have hlocals := advanceLoop_eq di.getLocalWorkItemsAt (i := 0)
    (digits_valid h.localSizes_pos n) (fun k b hk => by rw [Nat.zero_add]; exact h.getLocalWorkItemsAt_eq hk)
    (hl.imp (fun h1 => ⟨h1, h.localSizes_lt⟩) (fun h1 => by rwa [value_digits]))
  generalize hcarry : (addCarry di.localSizes (digits di.localSizes n) c).2 = carry at l2
  have hcarries : carry ≤ 1 ∧ (∀ b ∈ di.groupCounts, b < 2 ^ 32) ∨
      value di.groupCounts (digits di.groupCounts (n / di.localSizes.prod)) + carry < 2 ^ 32 := by
    rcases hg with hone | hsum
    · exact .inl ⟨by omega, h.groupCounts_lt⟩
    · right
      have hle := Nat.mod_le (n / di.localSizes.prod) di.groupCounts.prod
      rw [value_digits]
      omega
  obtain ⟨g1, g2⟩ := addCarry_digits di.groupCounts h.groupCounts_pos (n / di.localSizes.prod) carry
  have hgroups := advanceLoop_eq di.getWorkGroupsCountAt (i := 0)
    (digits_valid h.groupCounts_pos (n / di.localSizes.prod))
    (fun k b hk => by rw [Nat.zero_add]; exact h.getWorkGroupsCountAt_eq hk) hcarries
  rw [Nat.add_comm (n / _), l2] at g1 g2
  rw [Nat.div_div_eq_div_mul, Nat.div_div_eq_div_mul, htotal, Nat.div_eq_of_lt hn, Nat.add_zero] at g2
  simp only [advance, iterAt, hlocals, hcarry, l1, hgroups, g1, g2, digits_length, localSizes_length,
    groupCounts_length, position]
  by_cases hlt : n + c < di.globalSizes.prod
  · simp [hlt, Nat.div_eq_of_lt hlt]
  · have hpos : (n + c) / di.globalSizes.prod ≠ 0 := Nat.ne_of_gt (Nat.div_pos (Nat.le_of_not_lt hlt) (by omega))
    simp [hlt, hpos, endIter]

/-- Advancing by no more than what is left of the work-group. -/
theorem Divided.advance_iterAt (h : di.Divided) {n c : Nat} (hn : n < di.globalSizes.prod)
    (hl : c ≤ 1 ∨ n % di.localSizes.prod + c < 2 ^ 32) (hg : n % di.localSizes.prod + c ≤ di.localSizes.prod) :
    di.advance c (di.iterAt n) = di.position (n + c) := by
  -- at most one is carried to the groups
  have hone : (n % di.localSizes.prod + c) / di.localSizes.prod ≤ 1 := Nat.div_le_of_le_mul (by omega)
  have hdiv : (n + c) / di.localSizes.prod = n / di.localSizes.prod + (n % di.localSizes.prod + c) / di.localSizes.prod := by
    conv_lhs => rw [← Nat.div_add_mod n di.localSizes.prod, Nat.add_assoc, Nat.mul_add_div h.localProd_pos]
  exact h.advance_eq hn hl (.inl (by omega))

/-- Advancing by as much as keeps the position in 32 bits. -/
theorem Divided.advance_add (h : di.Divided) {n c : Nat} (hn : n < di.globalSizes.prod) (hc : n + c < 2 ^ 32) :
    di.advance c (di.iterAt n) = di.position (n + c) := by
  have hmod := Nat.mod_le n di.localSizes.prod
  have hdiv := Nat.div_le_self (n + c) di.localSizes.prod
  exact h.advance_eq hn (.inr (by omega)) (.inr (by omega))

theorem Divided.position_ne_end (h : di.Divided) {n : Nat} (hn : n < di.globalSizes.prod) :
    di.position n ≠ di.endIter := by
  intro he
  rw [position, if_pos hn] at he
  -- the first work-group id of the end is not below its bound
  have hlen : 0 < di.groupCounts.length := by rw [groupCounts_length]; exact h.dims
  have hlt := (valid_iff.1 (digits_valid h.groupCounts_pos (n / di.localSizes.prod))).2 0 hlen
  have hcount := h.getWorkGroupsCountAt_eq (List.getElem?_eq_getElem hlen)
  have hend : di.endIter.workGroups.getD 0 0 = di.groupCounts.getD 0 0 := by
    simp [endIter, List.getD_eq_getElem?_getD, h.dims, hcount]
  rw [← hend, ← he] at hlt
  exact absurd hlt (lt_irrefl _)

theorem beginIter_eq (h : di.Divided) : di.beginIter = di.position 0 := by
  have hpos : 0 < di.globalSizes.prod := by
    rw [← prod_groupCounts h.dvd]
    exact Nat.mul_pos h.localProd_pos h.groupProd_pos
  simp [position, hpos, iterAt, beginIter]

/-! ## The two ways to advance -/

theorem Divided.addAssign_one (h : di.Divided) {n : Nat} (hn : n < di.globalSizes.prod) :
    di.addAssign 1 (di.position n) = di.position (n + 1) := by
  have hw := h.localProd_pos
  have hlt := Nat.mod_lt n hw
  rw [position, if_pos hn]
  exact h.advance_iterAt hn (.inl le_rfl) hlt

/-- From one work-group to the next. -/
theorem Divided.addAssign_group (h : di.Divided) {g : Nat} (hg : g < di.groupCounts.prod) :
    di.addAssign di.getLocalWorkItems (di.position (di.localSizes.prod * g)) =
      di.position (di.localSizes.prod * (g + 1)) := by
  have hw := h.localProd_pos
  have hn : di.localSizes.prod * g < di.globalSizes.prod := by
    rw [← prod_groupCounts h.dvd]
    exact Nat.mul_lt_mul_of_pos_left hg hw
  have hsize : toUnsigned di.getLocalWorkItems = di.localSizes.prod := by
    rw [getLocalWorkItems_eq, toUnsigned, Nat.mod_mod, Nat.mod_eq_of_lt h.localProd]
  rw [addAssign, hsize, position, if_pos hn, Nat.mul_succ]
  apply h.advance_iterAt hn
  · right
    rw [Nat.mul_mod_right, Nat.zero_add]
    exact h.localProd
  · rw [Nat.mul_mod_right, Nat.zero_add]

end OpenCRun.DimensionInfo
