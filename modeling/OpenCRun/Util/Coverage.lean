import Mathlib.Algebra.BigOperators.Group.List.Lemmas
import Mathlib.Data.List.Nodup
import OpenCRun.Util.Iteration
/-!
# Coverage of an iteration space

The loops over the work-groups and over the work-items of each, their linear
work-group ids and their global ids.
-/
open Lib.MixedRadix Lib.Loop

namespace OpenCRun.DimensionInfo

variable {di : DimensionInfo}

/-! ## Linear work-group ids -/

theorem Divided.workGroupsBelow_eq (h : di.Divided) (hp : di.groupCounts.prod < 2 ^ 64) {i : Nat}
    (hi : i ≤ di.info.length) : di.workGroupsBelow i = (di.groupCounts.take i).prod := by
  unfold workGroupsBelow
  induction i with
  | zero => rfl
  | succ i ih =>
    have hlen : i < di.groupCounts.length := by rw [groupCounts_length]; exact hi
    have hle := prod_take_le h.groupCounts_pos (i + 1)
    rw [List.take_add_one, List.getElem?_eq_getElem hlen, Option.toList_some, List.prod_append, List.prod_singleton]
      at hle ⊢
    rw [List.range_succ, List.foldl_append, List.foldl_cons, List.foldl_nil, ih (Nat.le_of_succ_le hi),
      h.getWorkGroupsCountAt_eq (List.getElem?_eq_getElem hlen)]
    exact Nat.mod_eq_of_lt (lt_of_le_of_lt hle hp)

/-- The first dimensions up to each one make up a numeral of their own. -/
theorem Divided.getWorkGroup_upTo (h : di.Divided) (hp : di.groupCounts.prod < 2 ^ 64) {it : DimensionInfoIterator}
    (hv : Valid di.groupCounts it.workGroups) {k : Nat} (hk : k < di.info.length) :
    (List.range' 1 k).foldl
      (fun workGroup i => toSize (workGroup + toSize (it.workGroups.getD i 0 * di.workGroupsBelow i)))
      (it.workGroups.headD 0) = value (di.groupCounts.take (k + 1)) (it.workGroups.take (k + 1)) := by
  have hlen : it.workGroups.length = di.info.length := hv.length_eq.trans groupCounts_length
  induction k with
  | zero =>
    cases hg : it.workGroups with
    | nil => rw [hg] at hlen; simp at hlen; omega
    | cons d ds =>
      cases hb : di.groupCounts with
      | nil => rw [hg, hb] at hv; cases hv
      | cons b bs => simp [value]
  | succ k ih =>
    have hb : k + 1 < di.groupCounts.length := by rw [groupCounts_length]; exact hk
    have hd : k + 1 < it.workGroups.length := by rw [hlen]; exact hk
    -- one more digit, and the value stays below the product
    have hval : value (di.groupCounts.take (k + 1 + 1)) (it.workGroups.take (k + 1 + 1)) =
        value (di.groupCounts.take (k + 1)) (it.workGroups.take (k + 1)) +
          (di.groupCounts.take (k + 1)).prod * it.workGroups[k + 1] := by
      rw [List.take_add_one, List.take_add_one (l := it.workGroups), List.getElem?_eq_getElem hb,
        List.getElem?_eq_getElem hd, Option.toList_some, Option.toList_some, value_append (by simp [hlen])]
      simp [value]
    have hlt : value (di.groupCounts.take (k + 1 + 1)) (it.workGroups.take (k + 1 + 1)) < 2 ^ 64 :=
      lt_of_lt_of_le (value_lt (hv.take _)) ((prod_take_le h.groupCounts_pos _).trans (Nat.le_of_lt hp))
    rw [List.range'_concat, List.foldl_append, List.foldl_cons, List.foldl_nil, ih (Nat.lt_of_succ_lt hk),
      h.workGroupsBelow_eq hp (by omega), List.getD_eq_getElem?_getD]
    simp only [Nat.one_mul, Nat.add_comm 1 k, List.getElem?_eq_getElem hd, Option.getD_some, toSize]
    rw [Nat.mul_comm, Nat.add_mod_mod, ← hval]
    exact Nat.mod_eq_of_lt hlt

/-- The linear id of a work-group is the value of its ids. -/
theorem Divided.getWorkGroup_eq (h : di.Divided) (hp : di.groupCounts.prod < 2 ^ 64) {it : DimensionInfoIterator}
    (hv : Valid di.groupCounts it.workGroups) : di.getWorkGroup it = value di.groupCounts it.workGroups := by
  have hlen : it.workGroups.length = di.info.length := hv.length_eq.trans groupCounts_length
  have hdims := h.dims
  have hup := h.getWorkGroup_upTo hp hv (k := di.info.length - 1) (by omega)
  rw [Nat.sub_add_cancel hdims, List.take_of_length_le (by simp), List.take_of_length_le (by omega)] at hup
  rw [getWorkGroup, hlen]
  exact hup

/-! ## Global ids -/

/-- The global ids in all dimensions. -/
def globalIds (di : DimensionInfo) (it : DimensionInfoIterator) : List Nat :=
  (List.range di.getDimensions).map (di.getGlobalId it)

/-- The ids of an iterator that is not the end. -/
def ValidIter (di : DimensionInfo) (it : DimensionInfoIterator) : Prop :=
  Valid di.localSizes it.locals ∧ Valid di.groupCounts it.workGroups

section Ids
variable (h : di.Divided) {it : DimensionInfoIterator} {i : Nat} (hi : i < di.info.length)
include h hi

theorem Divided.size_eq : di.groupCounts.getD i 0 * di.localSizes.getD i 0 = di.globalSizes.getD i 0 := by
  have hw := h.dvd _ (List.getElem_mem hi)
  simp [groupCounts, localSizes, globalSizes, List.getD_eq_getElem?_getD, List.getElem?_eq_getElem hi,
    Nat.div_mul_cancel hw]

theorem Divided.globalSize_lt : di.globalSizes.getD i 0 < 2 ^ 32 := by
  have hw := h.globalLt _ (List.getElem_mem hi)
  simpa [globalSizes, List.getD_eq_getElem?_getD, List.getElem?_eq_getElem hi] using hw

theorem Divided.localSize_pos : 0 < di.localSizes.getD i 0 := by
  have hw := h.localPos _ (List.getElem_mem hi)
  simpa [localSizes, List.getD_eq_getElem?_getD, List.getElem?_eq_getElem hi] using hw

/-- A global id is below the global size. -/
theorem Divided.id_lt (hv : di.ValidIter it) :
    it.workGroups.getD i 0 * di.localSizes.getD i 0 + it.locals.getD i 0 < di.globalSizes.getD i 0 := by
  have hl := (valid_iff.1 hv.1).2 i (by simpa using hi)
  have hg := (valid_iff.1 hv.2).2 i (by simpa using hi)
  calc it.workGroups.getD i 0 * di.localSizes.getD i 0 + it.locals.getD i 0
      < it.workGroups.getD i 0 * di.localSizes.getD i 0 + di.localSizes.getD i 0 := Nat.add_lt_add_left hl _
    _ = (it.workGroups.getD i 0 + 1) * di.localSizes.getD i 0 := (Nat.succ_mul _ _).symm
    _ ≤ di.groupCounts.getD i 0 * di.localSizes.getD i 0 := Nat.mul_le_mul_right _ hg
    _ = di.globalSizes.getD i 0 := h.size_eq hi

theorem Divided.getLocalWorkItemsAt_getD : di.getLocalWorkItemsAt i = di.localSizes.getD i 0 := by
  apply h.getLocalWorkItemsAt_eq
  rw [List.getD_eq_getElem?_getD, List.getElem?_eq_getElem (by simpa using hi), Option.getD_some]

theorem Divided.getGlobalId_eq (hv : di.ValidIter it) :
    di.getGlobalId it i = it.workGroups.getD i 0 * di.localSizes.getD i 0 + it.locals.getD i 0 := by
  have hnot : ¬ i ≥ di.getDimensions := Nat.not_le_of_lt hi
  rw [getGlobalId, if_neg hnot, getWorkGroupAt, if_neg hnot, h.getLocalWorkItemsAt_getD hi]
  apply Nat.mod_eq_of_lt
  have h1 := h.id_lt hi hv
  have h2 := h.globalSize_lt hi
  omega

/-- A global id in terms of the other ids the iterator reports. -/
theorem Divided.getGlobalId_ids (hv : di.ValidIter it) :
    di.getGlobalId it i = di.getWorkGroupAt it i * di.getLocalWorkItemsAt i + di.getLocalId it i := by
  have hnot : ¬ i ≥ di.getDimensions := Nat.not_le_of_lt hi
  rw [h.getGlobalId_eq hi hv, getWorkGroupAt, getLocalId, if_neg hnot, if_neg hnot, h.getLocalWorkItemsAt_getD hi]

end Ids

theorem globalIds_getD {it : DimensionInfoIterator} {i : Nat} (hi : i < di.info.length) :
    (di.globalIds it).getD i 0 = di.getGlobalId it i := by
  simp [globalIds, List.getD_eq_getElem?_getD, getDimensions, hi]

theorem Divided.globalIds_valid (h : di.Divided) {it : DimensionInfoIterator} (hv : di.ValidIter it) :
    Valid di.globalSizes (di.globalIds it) := by
  rw [valid_iff]
  refine ⟨by simp [globalIds, getDimensions], fun i hi => ?_⟩
  have hi' : i < di.info.length := by simpa using hi
  rw [globalIds_getD hi', h.getGlobalId_eq hi' hv]
  exact h.id_lt hi' hv

theorem ext_getD {as bs : List Nat} (hl : as.length = bs.length) (h : ∀ i < as.length, as.getD i 0 = bs.getD i 0) :
    as = bs := by
  apply List.ext_getElem hl
  intro i h1 h2
  simpa [List.getD_eq_getElem?_getD, List.getElem?_eq_getElem h1, List.getElem?_eq_getElem h2] using h i h1

/-- The global ids determine the iterator. -/
theorem Divided.globalIds_inj (h : di.Divided) {a b : DimensionInfoIterator} (ha : di.ValidIter a)
    (hb : di.ValidIter b) (he : di.globalIds a = di.globalIds b) : a = b := by
  have hids : ∀ i < di.info.length,
      a.workGroups.getD i 0 = b.workGroups.getD i 0 ∧ a.locals.getD i 0 = b.locals.getD i 0 := by
    intro i hi
    have hpos := h.localSize_pos hi
    have hla := (valid_iff.1 ha.1).2 i (by simpa using hi)
    have hlb := (valid_iff.1 hb.1).2 i (by simpa using hi)
    have hid := congrArg (fun l => l.getD i 0) he
    simp only [globalIds_getD hi, h.getGlobalId_eq hi ha, h.getGlobalId_eq hi hb] at hid
    have hdiv := congrArg (· / di.localSizes.getD i 0) hid
    have hmod := congrArg (· % di.localSizes.getD i 0) hid
    simp only [Nat.mul_comm _ (di.localSizes.getD i 0), Nat.mul_add_div hpos, Nat.div_eq_of_lt hla,
      Nat.div_eq_of_lt hlb, Nat.mul_add_mod, Nat.mod_eq_of_lt hla, Nat.mod_eq_of_lt hlb, Nat.add_zero] at hdiv hmod
    exact ⟨hdiv, hmod⟩
  obtain ⟨al, ag⟩ := a
  obtain ⟨bl, bg⟩ := b
  have hal := ha.1.length_eq
  have hbl := hb.1.length_eq
  have hag := ha.2.length_eq
  have hbg := hb.2.length_eq
  simp only [localSizes_length, groupCounts_length] at hal hbl hag hbg
  congr 1
  · exact ext_getD (hal.trans hbl.symm) fun i hi => (hids i (hal ▸ hi)).2
  · exact ext_getD (hag.trans hbg.symm) fun i hi => (hids i (hag ▸ hi)).1

/-- Every global id of the box is that of an iterator. -/
theorem Divided.globalIds_surj (h : di.Divided) {ids : List Nat} (hids : Valid di.globalSizes ids) :
    ∃ it, di.ValidIter it ∧ di.globalIds it = ids := by
  let it : DimensionInfoIterator :=
    { locals := (List.range di.info.length).map fun i => ids.getD i 0 % di.localSizes.getD i 0
      workGroups := (List.range di.info.length).map fun i => ids.getD i 0 / di.localSizes.getD i 0 }
  have hlocal : ∀ i < di.info.length, it.locals.getD i 0 = ids.getD i 0 % di.localSizes.getD i 0 := fun i hi => by
    simp [it, List.getD_eq_getElem?_getD, hi]
  have hgroup : ∀ i < di.info.length, it.workGroups.getD i 0 = ids.getD i 0 / di.localSizes.getD i 0 :=
    fun i hi => by simp [it, List.getD_eq_getElem?_getD, hi]
  have hv : di.ValidIter it := by
    constructor
    · refine valid_iff.2 ⟨by simp [it], fun i hi => ?_⟩
      rw [localSizes_length] at hi
      rw [hlocal i hi]
      exact Nat.mod_lt _ (h.localSize_pos hi)
    · refine valid_iff.2 ⟨by simp [it], fun i hi => ?_⟩
      rw [groupCounts_length] at hi
      have hlt := (valid_iff.1 hids).2 i (by simpa using hi)
      rw [hgroup i hi, Nat.div_lt_iff_lt_mul (h.localSize_pos hi), h.size_eq hi]
      exact hlt
  refine ⟨it, hv, ext_getD (by simp [globalIds, getDimensions, hids.length_eq]) fun i hi => ?_⟩
  have hi' : i < di.info.length := by simpa [globalIds, getDimensions] using hi
  rw [globalIds_getD hi', h.getGlobalId_eq hi' hv, hgroup i hi', hlocal i hi', Nat.mul_comm]
  exact Nat.div_add_mod _ _

/-! ## Positions -/

theorem position_eq {n : Nat} (hn : n < di.globalSizes.prod) : di.position n = di.iterAt n := if_pos hn

theorem Divided.iterAt_valid (h : di.Divided) (n : Nat) : di.ValidIter (di.iterAt n) :=
  ⟨digits_valid h.localSizes_pos n, digits_valid h.groupCounts_pos _⟩

theorem Divided.iterAt_inj (h : di.Divided) {m n : Nat} (hm : m < di.globalSizes.prod) (hn : n < di.globalSizes.prod)
    (he : di.iterAt m = di.iterAt n) : m = n := by
  have hw := h.localProd_pos
  rw [← prod_groupCounts h.dvd] at hm hn
  have hl : digits di.localSizes (m % di.localSizes.prod) = digits di.localSizes (n % di.localSizes.prod) := by
    rw [digits_mod, digits_mod]
    exact congrArg DimensionInfoIterator.locals he
  have hmod := digits_inj (Nat.mod_lt _ hw) (Nat.mod_lt _ hw) hl
  have hdiv := digits_inj (Nat.div_lt_of_lt_mul hm) (Nat.div_lt_of_lt_mul hn)
    (congrArg DimensionInfoIterator.workGroups he)
  rw [← Nat.div_add_mod m di.localSizes.prod, hmod, hdiv, Nat.div_add_mod]

/-- The number of work-items before an iterator: local ids first, then work-group ids, each from the first dimension on. -/
def linear (di : DimensionInfo) (it : DimensionInfoIterator) : Nat :=
  value di.localSizes it.locals + di.localSizes.prod * value di.groupCounts it.workGroups

theorem Divided.linear_lt (h : di.Divided) {it : DimensionInfoIterator} (hv : di.ValidIter it) :
    di.linear it < di.globalSizes.prod := by
  have hl := value_lt hv.1
  have hg := value_lt hv.2
  calc di.linear it < di.localSizes.prod + di.localSizes.prod * value di.groupCounts it.workGroups :=
        Nat.add_lt_add_right hl _
    _ = di.localSizes.prod * (value di.groupCounts it.workGroups + 1) := by rw [Nat.mul_succ, Nat.add_comm]
    _ ≤ di.localSizes.prod * di.groupCounts.prod := Nat.mul_le_mul_left _ hg
    _ = di.globalSizes.prod := prod_groupCounts h.dvd

theorem iterAt_linear {it : DimensionInfoIterator} (hv : di.ValidIter it) : di.iterAt (di.linear it) = it := by
  have hl := value_lt hv.1
  have hw : 0 < di.localSizes.prod := Nat.zero_lt_of_lt hl
  have hdigits := digits_mod di.localSizes (di.linear it)
  rw [linear, Nat.add_mul_mod_self_left, Nat.mod_eq_of_lt hl, digits_value hv.1] at hdigits
  simp only [iterAt, linear, ← hdigits, Nat.add_mul_div_left _ _ hw, Nat.div_eq_of_lt hl, Nat.zero_add, digits_value hv.2]

theorem Divided.linear_iterAt (h : di.Divided) {n : Nat} (hn : n < di.globalSizes.prod) : di.linear (di.iterAt n) = n := by
  rw [← prod_groupCounts h.dvd] at hn
  rw [linear, iterAt, value_digits, value_digits, Nat.mod_eq_of_lt (Nat.div_lt_of_lt_mul hn), Nat.mod_add_div]

/-! ## The loops -/

/-- `for (auto I = begin(), E = end(); I != E; I += WGSize)`. -/
def workGroupLoop (di : DimensionInfo) (fuel : Nat) : Option (List DimensionInfoIterator × Bool) :=
  forLoop (di.addAssign di.getLocalWorkItems) di.endIter (fun _ _ => true) fuel 0 di.beginIter

/-- From a work-group to the next one by `++`. -/
def workItemLoop (di : DimensionInfo) (group : DimensionInfoIterator) (fuel : Nat) :
    Option (List DimensionInfoIterator × Bool) :=
  forLoop (di.addAssign 1) (di.addAssign di.getLocalWorkItems group) (fun _ _ => true) fuel 0 group

/-- The work-groups of a space. -/
def groups (di : DimensionInfo) : List DimensionInfoIterator :=
  (List.range di.groupCounts.prod).map fun g => di.position (di.localSizes.prod * g)

/-- The work-items of the `g`-th work-group. -/
def items (di : DimensionInfo) (g : Nat) : List DimensionInfoIterator :=
  (List.range di.localSizes.prod).map fun l => di.position (di.localSizes.prod * g + l)

theorem Divided.group_lt (h : di.Divided) {g : Nat} (hg : g < di.groupCounts.prod) :
    di.localSizes.prod * g + di.localSizes.prod ≤ di.globalSizes.prod := by
  rw [← prod_groupCounts h.dvd, ← Nat.mul_succ]
  exact Nat.mul_le_mul_left _ hg

theorem Divided.workGroupLoop_eq (h : di.Divided) {fuel : Nat} (hf : di.groupCounts.prod < fuel) :
    di.workGroupLoop fuel = some (di.groups, true) := by
  have hw := h.localProd_pos
  have hloop : forLoop (di.addAssign di.getLocalWorkItems) di.endIter (fun _ _ => true) fuel 0
      (di.position (di.localSizes.prod * 0)) = some (di.groups, decide (di.groupCounts.prod = di.groupCounts.prod)) :=
    forLoop_range (fun g => di.position (di.localSizes.prod * g)) (fun g hg => h.addAssign_group hg)
      (fun g hg => h.position_ne_end (by have := h.group_lt hg; omega))
      (by simp [prod_groupCounts h.dvd, position]) le_rfl (fun _ _ => rfl) (fun hlt => absurd hlt (lt_irrefl _)) hf
  simpa [workGroupLoop, beginIter_eq h] using hloop

theorem Divided.workItemLoop_eq (h : di.Divided) {g : Nat} (hg : g < di.groupCounts.prod) {fuel : Nat}
    (hf : di.localSizes.prod < fuel) :
    di.workItemLoop (di.position (di.localSizes.prod * g)) fuel = some (di.items g, true) := by
  have hle := h.group_lt hg
  have hloop : forLoop (di.addAssign 1) (di.position (di.localSizes.prod * (g + 1))) (fun _ _ => true) fuel 0
      (di.position (di.localSizes.prod * g + 0)) = some (di.items g, decide (di.localSizes.prod = di.localSizes.prod)) := by
    apply forLoop_range (fun l => di.position (di.localSizes.prod * g + l)) (fun l hl => h.addAssign_one (by omega))
      ?_ rfl le_rfl (fun _ _ => rfl) (fun hlt => absurd hlt (lt_irrefl _)) hf
    -- no work-item of the group is where the next group begins
    intro l hl he
    have hn : di.localSizes.prod * g + l < di.globalSizes.prod := by omega
    rcases Nat.lt_or_eq_of_le hle with hlt | heq
    · rw [position_eq hn, position_eq hlt] at he
      have := h.iterAt_inj hn hlt he
      omega
    · refine h.position_ne_end hn (he.trans ?_)
      rw [heq, position, if_neg (lt_irrefl _)]
  simpa [workItemLoop, h.addAssign_group hg] using hloop

theorem Divided.flatMap_items (h : di.Divided) :
    (List.range di.groupCounts.prod).flatMap di.items = (List.range di.globalSizes.prod).map di.iterAt := by
  have hall := flatMap_range_mul di.position di.localSizes.prod di.groupCounts.prod
  rw [prod_groupCounts h.dvd] at hall
  refine hall.trans (List.map_congr_left fun n hn => position_eq (List.mem_range.1 hn))

/-- The work-items of a work-group have its work-group ids. -/
theorem Divided.items_workGroups (h : di.Divided) {g : Nat} (hg : g < di.groupCounts.prod)
    {it : DimensionInfoIterator} (hit : it ∈ di.items g) :
    it.workGroups = (di.position (di.localSizes.prod * g)).workGroups := by
  obtain ⟨l, hl, rfl⟩ := List.mem_map.1 hit
  have hl' := List.mem_range.1 hl
  have hw := h.localProd_pos
  have hle := h.group_lt hg
  rw [position_eq (by omega), position_eq (by omega)]
  simp [iterAt, Nat.mul_add_div hw, Nat.div_eq_of_lt hl', Nat.mul_div_cancel_left g hw]

/-- The positions are those of all valid ids, -/
theorem Divided.mem_positions (h : di.Divided) {it : DimensionInfoIterator} :
    it ∈ (List.range di.globalSizes.prod).map di.iterAt ↔ di.ValidIter it := by
  simp only [List.mem_map, List.mem_range]
  constructor
  · rintro ⟨n, -, rfl⟩
    exact h.iterAt_valid n
  · intro hv
    exact ⟨di.linear it, h.linear_lt hv, iterAt_linear hv⟩

/-- and each of them once. -/
theorem Divided.positions_nodup (h : di.Divided) : ((List.range di.globalSizes.prod).map di.iterAt).Nodup := by
  apply List.Nodup.map_on ?_ List.nodup_range
  intro m hm n hn he
  exact h.iterAt_inj (List.mem_range.1 hm) (List.mem_range.1 hn) he

/-- So every global id of the box is that of one position, -/
theorem Divided.mem_globalIds (h : di.Divided) {ids : List Nat} :
    ids ∈ ((List.range di.globalSizes.prod).map di.iterAt).map di.globalIds ↔ Valid di.globalSizes ids := by
  rw [List.mem_map]
  constructor
  · rintro ⟨it, hit, rfl⟩
    exact h.globalIds_valid (h.mem_positions.1 hit)
  · intro hv
    obtain ⟨it, hit, he⟩ := h.globalIds_surj hv
    exact ⟨it, h.mem_positions.2 hit, he⟩

/-- and of only one. -/
theorem Divided.globalIds_nodup (h : di.Divided) :
    (((List.range di.globalSizes.prod).map di.iterAt).map di.globalIds).Nodup := by
  apply List.Nodup.map_on ?_ h.positions_nodup
  intro a ha b hb he
  exact h.globalIds_inj (h.mem_positions.1 ha) (h.mem_positions.1 hb) he

/-! ## Coverage -/

theorem divided_of_prod (hdims : 0 < di.info.length)
    (hsizes : ∀ w ∈ di.info, 0 < w.globalSize ∧ 0 < w.localSize ∧ w.localSize ∣ w.globalSize)
    (hprod : di.globalSizes.prod < 2 ^ 32) : di.Divided where
  dims := hdims
  globalPos w hw := (hsizes w hw).1
  localPos w hw := (hsizes w hw).2.1
  dvd w hw := (hsizes w hw).2.2
  globalLt w hw := by
    have hpos : 0 < di.globalSizes.prod := List.prod_pos_iff_forall_pos_nat.2 fun b hb => by
      obtain ⟨w', hw', rfl⟩ := List.mem_map.1 hb
      exact (hsizes w' hw').1
    have hdvd : w.globalSize ∣ di.globalSizes.prod := List.dvd_prod (List.mem_map_of_mem hw)
    exact lt_of_le_of_lt (Nat.le_of_dvd hpos hdvd) hprod
  localProd := by
    have hmul := prod_groupCounts fun w hw => (hsizes w hw).2.2
    have hpos : 0 < di.groupCounts.prod := List.prod_pos_iff_forall_pos_nat.2 fun b hb => by
      obtain ⟨w, hw, rfl⟩ := List.mem_map.1 hb
      have h := hsizes w hw
      exact Nat.div_pos (Nat.le_of_dvd h.1 h.2.2) h.2.1
    have hle := Nat.le_mul_of_pos_right di.localSizes.prod hpos
    omega

theorem Divided.getWorkGroup_position (h : di.Divided) (hprod : di.globalSizes.prod < 2 ^ 32) {g : Nat}
    (hg : g < di.groupCounts.prod) : di.getWorkGroup (di.position (di.localSizes.prod * g)) = g := by
  have hw := h.localProd_pos
  have hle := h.group_lt hg
  have hcount : di.groupCounts.prod ≤ di.globalSizes.prod := by
    rw [← prod_groupCounts h.dvd]
    exact Nat.le_mul_of_pos_left _ hw
  rw [position_eq (by omega), h.getWorkGroup_eq (by omega) (h.iterAt_valid _).2]
  simp [iterAt, value_digits, Nat.mul_div_cancel_left g hw, Nat.mod_eq_of_lt hg]

theorem getWorkGroupsCount_eq (h : di.Divided) (hprod : di.globalSizes.prod < 2 ^ 32) :
    di.getWorkGroupsCount = di.groupCounts.prod := by
  have hw := h.localProd_pos
  rw [getWorkGroupsCount, getGlobalWorkItems_eq, getLocalWorkItems_eq, Nat.mod_eq_of_lt hprod,
    Nat.mod_eq_of_lt h.localProd, ← prod_groupCounts h.dvd, Nat.mul_div_cancel_left _ hw]

theorem Divided.map_getWorkGroup (h : di.Divided) (hprod : di.globalSizes.prod < 2 ^ 32) :
    di.groups.map di.getWorkGroup = List.range di.groupCounts.prod := by
  rw [groups, List.map_map]
  conv_rhs => rw [← List.map_id (List.range di.groupCounts.prod)]
  apply List.map_congr_left
  intro g hg
  exact h.getWorkGroup_position hprod (List.mem_range.1 hg)

/-- The loops over the work-groups and over the work-items of each terminate; they visit every pair of
work-group ids and local ids once, with every global id in the box once, and the linear ids of the
work-groups count from 0 up. -/
theorem range_coverage (di : DimensionInfo) (hdims : 0 < di.info.length)
    (hsizes : ∀ w ∈ di.info, 0 < w.globalSize ∧ 0 < w.localSize ∧ w.localSize ∣ w.globalSize)
    (hprod : di.globalSizes.prod < 2 ^ 32) :
    ∃ (groups : List DimensionInfoIterator) (items : DimensionInfoIterator → List DimensionInfoIterator),
      (∀ fuel > groups.length, di.workGroupLoop fuel = some (groups, true)) ∧
      (∀ g ∈ groups, ∀ fuel > (items g).length, di.workItemLoop g fuel = some (items g, true)) ∧
      (∀ g ∈ groups, ∀ it ∈ items g, it.workGroups = g.workGroups) ∧
      (groups.flatMap items).Nodup ∧
      (∀ it, it ∈ groups.flatMap items ↔ Valid di.localSizes it.locals ∧ Valid di.groupCounts it.workGroups) ∧
      ((groups.flatMap items).map di.globalIds).Nodup ∧
      (∀ ids, ids ∈ (groups.flatMap items).map di.globalIds ↔ Valid di.globalSizes ids) ∧
      (∀ it ∈ groups.flatMap items, ∀ i < di.getDimensions,
        di.getGlobalId it i = di.getWorkGroupAt it i * di.getLocalWorkItemsAt i + di.getLocalId it i) ∧
      groups.map di.getWorkGroup = List.range di.getWorkGroupsCount := by
  have h := divided_of_prod hdims hsizes hprod
  have hids := h.map_getWorkGroup hprod
  have hflat : di.groups.flatMap (fun it => di.items (di.getWorkGroup it)) =
      (List.range di.globalSizes.prod).map di.iterAt := by
    rw [← h.flatMap_items, ← hids, List.flatMap_map]
  -- the work-items of a visited work-group are those of its number
  have hgroup : ∀ it ∈ di.groups, ∃ g < di.groupCounts.prod,
      it = di.position (di.localSizes.prod * g) ∧ di.getWorkGroup it = g := by
    intro it hit
    obtain ⟨g, hg, rfl⟩ := List.mem_map.1 hit
    exact ⟨g, List.mem_range.1 hg, rfl, h.getWorkGroup_position hprod (List.mem_range.1 hg)⟩
  refine ⟨di.groups, fun it => di.items (di.getWorkGroup it), ?_, ?_, ?_, ?_, ?_, ?_, ?_, ?_, ?_⟩
  · intro fuel hf
    apply h.workGroupLoop_eq
    simpa [groups] using hf
  · intro it hit fuel hf
    obtain ⟨g, hg, hpos, hnum⟩ := hgroup it hit
    simp only [hnum] at hf ⊢
    rw [hpos]
    apply h.workItemLoop_eq hg
    simpa [items] using hf
  · intro it hit it' hit'
    obtain ⟨g, hg, hpos, hnum⟩ := hgroup it hit
    simp only [hnum] at hit'
    rw [hpos]
    exact h.items_workGroups hg hit'
  · rw [hflat]
    exact h.positions_nodup
  · intro it
    rw [hflat]
    exact h.mem_positions
  · rw [hflat]
    exact h.globalIds_nodup
  · intro ids
    rw [hflat]
    exact h.mem_globalIds
  · intro it hit i hi
    rw [hflat] at hit
    exact h.getGlobalId_ids hi (h.mem_positions.1 hit)
  · rw [hids, getWorkGroupsCount_eq h hprod]

/-- 4 by 6 work-items in work-groups of 2 by 3. -/
theorem range_coverage_plane :
    ∃ groups : List DimensionInfoIterator, groups.length = 4 ∧
      (new [0, 0] [4, 6] [2, 3]).workGroupLoop 5 = some (groups, true) ∧
      groups.map (new [0, 0] [4, 6] [2, 3]).getWorkGroup = List.range 4 := by
  obtain ⟨groups, -, hloop, -, -, -, -, -, -, -, hids⟩ :=
    range_coverage (new [0, 0] [4, 6] [2, 3]) (by decide) (by decide) (by decide)
  have hlen := congrArg List.length hids
  rw [List.length_map, List.length_range] at hlen
  exact ⟨groups, hlen, hloop 5 (by rw [hlen]; decide), hids⟩

/-! ## The law of advancing -/

/-- Iterators that are not the end are the positions below the number of work-items, and advancing one adds to its
position, up to the end. -/
structure AdvanceLaw (di : DimensionInfo) : Prop where
  valid : ∀ p < di.globalSizes.prod, di.ValidIter (di.iterAt p) ∧ di.linear (di.iterAt p) = p
  linear : ∀ it, di.ValidIter it → di.linear it < di.globalSizes.prod ∧ di.iterAt (di.linear it) = it
  advance : ∀ it, di.ValidIter it → ∀ n, di.linear it + n < 2 ^ 32 →
    di.advance n it = if di.linear it + n < di.globalSizes.prod then di.iterAt (di.linear it + n) else di.endIter
  add : ∀ it, di.ValidIter it → ∀ a b, di.linear it + a < di.globalSizes.prod → di.linear it + a + b < 2 ^ 32 →
    di.advance b (di.advance a it) = di.advance (a + b) it

theorem Divided.advanceLaw (h : di.Divided) (hprod : di.globalSizes.prod < 2 ^ 32) : AdvanceLaw di := by
  have hadvance : ∀ it, di.ValidIter it → ∀ n, di.linear it + n < 2 ^ 32 →
      di.advance n it = di.position (di.linear it + n) := by
    intro it hv n hn
    have hadd := h.advance_add (h.linear_lt hv) hn
    rwa [iterAt_linear hv] at hadd
  refine ⟨fun p hp => ⟨h.iterAt_valid p, h.linear_iterAt hp⟩, fun it hv => ⟨h.linear_lt hv, iterAt_linear hv⟩, hadvance, ?_⟩
  intro it hv a b ha hb
  -- the first step is still in range, so the second one starts from its position
  have hfirst : di.advance a it = di.iterAt (di.linear it + a) := by
    rw [hadvance it hv a (Nat.lt_trans ha hprod), position_eq ha]
  have hsecond := hadvance (di.iterAt (di.linear it + a)) (h.iterAt_valid _) b (by rwa [h.linear_iterAt ha])
  rw [hfirst, hsecond, h.linear_iterAt ha, Nat.add_assoc, hadvance it hv (a + b) (by omega)]

/-- Without dimensions there is one work-item, whose iterator is also the end. -/
theorem advanceLaw_nil : AdvanceLaw ⟨[]⟩ := by
  have hone : ∀ it, ValidIter ⟨[]⟩ it → it = ⟨[], []⟩ := by
    rintro ⟨locals, workGroups⟩ ⟨hl, hg⟩
    cases hl
    cases hg
    rfl
  have hadvance : ∀ n, advance ⟨[]⟩ n ⟨[], []⟩ = ⟨[], []⟩ := by
    intro n
    cases n <;> rfl
  refine ⟨fun p hp => ⟨⟨.nil, .nil⟩, (Nat.lt_one_iff.1 hp).symm⟩, fun it hv => ?_, fun it hv n _ => ?_,
    fun it hv a b _ _ => ?_⟩
  · rw [hone it hv]
    exact ⟨Nat.one_pos, rfl⟩
  · rw [hone it hv, hadvance]
    exact (ite_self _).symm
  · rw [hone it hv, hadvance, hadvance, hadvance]

/-- Advancing within the iteration space adds to the position, and beyond it gives the end. -/
theorem advance_law (di : DimensionInfo) (hsizes : ∀ w ∈ di.info, 0 < w.globalSize ∧ w.localSize ∣ w.globalSize)
    (hprod : di.globalSizes.prod < 2 ^ 32) : AdvanceLaw di := by
  obtain ⟨info⟩ := di
  cases info with
  | nil => exact advanceLaw_nil
  | cons w info =>
    refine Divided.advanceLaw (divided_of_prod (Nat.succ_pos _) (fun w hw => ?_) hprod) hprod
    obtain ⟨hpos, hdvd⟩ := hsizes w hw
    exact ⟨hpos, Nat.pos_of_dvd_of_pos hdvd hpos, hdvd⟩

/-- From the twelfth of 24 work-items to the end. -/
theorem advance_law_plane :
    (new [0, 0] [4, 6] [2, 3]).advance 13 ((new [0, 0] [4, 6] [2, 3]).iterAt 11) =
      (new [0, 0] [4, 6] [2, 3]).endIter := by
  have hlaw := advance_law (new [0, 0] [4, 6] [2, 3]) (by decide) (by decide)
  obtain ⟨hvalid, hlinear⟩ := hlaw.valid 11 (by decide)
  rw [hlaw.advance _ hvalid 13 (by rw [hlinear]; decide), hlinear]
  exact if_neg (by decide)

end OpenCRun.DimensionInfo
