import Mathlib.Data.List.Basic
import Mathlib.Order.Basic
/-!
# Bytes with patches

Values that are written over a block of bytes, each at an offset. A patch that
does not lie within the block is undefined. Of patches that overlap the later
one counts.
-/
namespace Lib.Patches

variable {β : Type}

def patch (bytes : List β) (offset : Int) (value : List β) : Option (List β) :=
  if 0 ≤ offset ∧ offset + value.length ≤ bytes.length then
    some (bytes.take offset.toNat ++ value ++ bytes.drop (offset.toNat + value.length))
  else none

def patchAll (bytes : List β) (patches : List (Int × List β)) : Option (List β) :=
  patches.foldlM (fun bytes p => patch bytes p.1 p.2) bytes

/-- The patch lies within a block of that length. -/
def Inside (length : Nat) (p : Int × List β) : Prop := 0 ≤ p.1 ∧ p.1 + p.2.length ≤ length

def Covers (p : Int × List β) (k : Nat) : Prop := p.1 ≤ k ∧ (k : Int) < p.1 + p.2.length

section Patch
variable {bytes bytes' : List β} {offset : Int} {value : List β}

theorem patch_isSome_iff : (∃ bytes', patch bytes offset value = some bytes') ↔ Inside bytes.length (offset, value) := by
  unfold patch Inside
  split
  · next h => simpa using h
  · next h => simpa using h

theorem length_patch (h : patch bytes offset value = some bytes') : bytes'.length = bytes.length := by
  unfold patch at h
  split at h
  · cases h
    simp only [List.length_append, List.length_take, List.length_drop]
    omega
  · cases h

theorem getElem?_patch_covered (h : patch bytes offset value = some bytes') {k : Nat} (hk : Covers (offset, value) k) :
    bytes'[k]? = value[k - offset.toNat]? := by
  obtain ⟨hle, hlt⟩ := hk
  unfold patch at h
  split at h
  · cases h
    have htake : (bytes.take offset.toNat).length = offset.toNat := by
      rw [List.length_take]
      omega
    dsimp only at hle hlt
    rw [List.append_assoc, List.getElem?_append_right (by omega), htake, List.getElem?_append_left (by omega)]
  · cases h

theorem getElem?_patch_other (h : patch bytes offset value = some bytes') {k : Nat} (hk : ¬ Covers (offset, value) k) :
    bytes'[k]? = bytes[k]? := by
  unfold Covers at hk
  unfold patch at h
  split at h
  · cases h
    have htake : (bytes.take offset.toNat).length = offset.toNat := by
      rw [List.length_take]
      omega
    rcases Nat.lt_or_ge k offset.toNat with hlt | hge
    · rw [List.append_assoc, List.getElem?_append_left (by omega), List.getElem?_take_of_lt hlt]
    · -- Behind the value.
      have hlast : offset.toNat + value.length ≤ k := by
        dsimp only at hk
        omega
      rw [List.getElem?_append_right (by rw [List.length_append]; omega), List.length_append, htake,
        List.getElem?_drop]
      congr 1
      omega
  · cases h

end Patch

section PatchAll
variable {bytes bytes' : List β} {patches : List (Int × List β)}

theorem length_patchAll (h : patchAll bytes patches = some bytes') : bytes'.length = bytes.length := by
  induction patches generalizing bytes with
  | nil => cases h; rfl
  | cons p patches ih =>
    obtain ⟨bytes₁, h₁, h⟩ := Option.bind_eq_some_iff.1 h
    exact (ih h).trans (length_patch h₁)

theorem patchAll_isSome_iff : (∃ bytes', patchAll bytes patches = some bytes') ↔ ∀ p ∈ patches, Inside bytes.length p := by
  induction patches generalizing bytes with
  | nil => simp [patchAll]
  | cons p patches ih =>
    rw [List.forall_mem_cons, ← patch_isSome_iff]
    constructor
    · rintro ⟨bytes', h⟩
      obtain ⟨bytes₁, h₁, h⟩ := Option.bind_eq_some_iff.1 h
      exact ⟨⟨bytes₁, h₁⟩, length_patch h₁ ▸ ih.1 ⟨bytes', h⟩⟩
    · rintro ⟨⟨bytes₁, h₁⟩, h⟩
      obtain ⟨bytes', h'⟩ := ih.2 ((length_patch h₁).symm ▸ h)
      exact ⟨bytes', Option.bind_eq_some_iff.2 ⟨bytes₁, h₁, h'⟩⟩

/-- What no patch covers stays. -/
theorem getElem?_patchAll_other (h : patchAll bytes patches = some bytes') {k : Nat} (hk : ∀ p ∈ patches, ¬ Covers p k) :
    bytes'[k]? = bytes[k]? := by
  induction patches generalizing bytes with
  | nil => cases h; rfl
  | cons p patches ih =>
    obtain ⟨bytes₁, h₁, h⟩ := Option.bind_eq_some_iff.1 h
    obtain ⟨hp, hpatches⟩ := List.forall_mem_cons.1 hk
    rw [ih h hpatches, getElem?_patch_other h₁ hp]

/-- The last patch that covers it decides. -/
theorem getElem?_patchAll_covered {before after : List (Int × List β)} {p : Int × List β}
    (h : patchAll bytes (before ++ p :: after) = some bytes') {k : Nat} (hp : Covers p k)
    (hafter : ∀ q ∈ after, ¬ Covers q k) : bytes'[k]? = p.2[k - p.1.toNat]? := by
  rw [patchAll, List.foldlM_append] at h
  obtain ⟨bytes₁, -, h⟩ := Option.bind_eq_some_iff.1 h
  obtain ⟨bytes₂, h₂, h⟩ := Option.bind_eq_some_iff.1 h
  rw [getElem?_patchAll_other h hafter, getElem?_patch_covered h₂ hp]

theorem exists_last_covering {k : Nat} (h : ¬ ∀ p ∈ patches, ¬ Covers p k) :
    ∃ before p after, patches = before ++ p :: after ∧ Covers p k ∧ ∀ q ∈ after, ¬ Covers q k := by
  induction patches with
  | nil => simp at h
  | cons p patches ih =>
    by_cases hrest : ∀ q ∈ patches, ¬ Covers q k
    · refine ⟨[], p, patches, rfl, ?_, hrest⟩
      by_contra hp
      exact h (List.forall_mem_cons.2 ⟨hp, hrest⟩)
    · obtain ⟨before, q, after, rfl, hq, hafter⟩ := ih hrest
      exact ⟨p :: before, q, after, rfl, hq, hafter⟩

def place (p : Int × List β) : Int × Nat := (p.1, p.2.length)

theorem forall_place_congr {patches' : List (Int × List β)} (hsame : patches.map place = patches'.map place)
    (P : Int × Nat → Prop) : (∀ p ∈ patches, P (place p)) ↔ ∀ p ∈ patches', P (place p) := by
  rw [← List.forall_mem_map, hsame, List.forall_mem_map]

/-- Where the same places are patched again, nothing is left of the first time. -/
theorem patchAll_again {patches' : List (Int × List β)} (hsame : patches.map place = patches'.map place) :
    (patchAll bytes patches).bind (patchAll · patches') = patchAll bytes patches' := by
  have hinside : (∀ p ∈ patches, Inside bytes.length p) ↔ ∀ p ∈ patches', Inside bytes.length p :=
    forall_place_congr hsame fun x => 0 ≤ x.1 ∧ x.1 + x.2 ≤ bytes.length
  have hcovers : ∀ k, (∀ p ∈ patches, ¬ Covers p k) ↔ ∀ p ∈ patches', ¬ Covers p k := fun k =>
    forall_place_congr hsame fun x => ¬ (x.1 ≤ k ∧ (k : Int) < x.1 + x.2)
  cases hfirst : patchAll bytes patches with
  | none =>
    rw [Option.bind_none, eq_comm, Option.eq_none_iff_forall_ne_some]
    intro bytes' h
    obtain ⟨bytes₁, h₁⟩ := patchAll_isSome_iff.2 (hinside.2 (patchAll_isSome_iff.1 ⟨bytes', h⟩))
    rw [hfirst] at h₁
    cases h₁
  | some bytes₁ =>
    have hall := hinside.1 (patchAll_isSome_iff.1 ⟨bytes₁, hfirst⟩)
    obtain ⟨bytes₂, h₂⟩ := patchAll_isSome_iff.2 hall
    obtain ⟨bytes₃, h₃⟩ := patchAll_isSome_iff.2 ((length_patchAll hfirst).symm ▸ hall)
    rw [Option.bind_some, h₂, h₃]
    congr 1
    refine List.ext_getElem? fun k => ?_
    by_cases hk : ∀ p ∈ patches', ¬ Covers p k
    · rw [getElem?_patchAll_other h₃ hk, getElem?_patchAll_other h₂ hk,
        getElem?_patchAll_other hfirst ((hcovers k).2 hk)]
    · obtain ⟨before, p, after, rfl, hp, hafter⟩ := exists_last_covering hk
      rw [getElem?_patchAll_covered h₃ hp hafter, getElem?_patchAll_covered h₂ hp hafter]

end PatchAll

end Lib.Patches
