import Mathlib.Algebra.Group.Prod
import Mathlib.Algebra.Order.Group.Multiset
/-!
# Who owns what

A heap of blocks that are allocated and freed one by one, and counts of the
references to objects. Resources are what a part of the program owns of both.
They add up, and each operation says what it takes of them and what it gives:
what others own stays as it is.
-/
namespace OpenCRun.Ownership

/-- An allocator may hand out any address that is not in use. -/
structure Allocator where
  pick : List Nat → Nat
  pick_notMem (used : List Nat) : pick used ∉ used

/-- The blocks that are allocated. -/
abbrev Heap (α : Type) := List (Nat × α)

variable {α : Type}

namespace Heap

def get (h : Heap α) (p : Nat) : Option α := h.lookup p

def alloc (A : Allocator) (h : Heap α) (v : α) : Nat × Heap α :=
  let p := A.pick (h.map Prod.fst)
  (p, (p, v) :: h)

/-- Only what is allocated may be freed. -/
def free : Heap α → Nat → Option (Heap α)
  | [], _ => none
  | (q, v) :: h, p => if q = p then some h else (free h p).map ((q, v) :: ·)

end Heap

/-- References to objects by their counts. -/
abbrev Counts := Nat → Nat

namespace Counts

def retain (c : Counts) (o : Nat) : Counts := fun o' => if o' = o then c o + 1 else c o'

/-- A count does not go below zero. -/
def release (c : Counts) (o : Nat) : Option Counts :=
  if c o = 0 then none else some fun o' => if o' = o then c o - 1 else c o'

end Counts

/-- Some blocks with what is in them, and some references. -/
abbrev Resources (α : Type) := Multiset (Nat × α) × Multiset Nat

abbrev block (p : Nat) (v : α) : Resources α := ({(p, v)}, 0)

abbrev reference (o : Nat) : Resources α := (0, {o})

/-- The heap consists of the blocks, each once; the counts are those of the references, on top of `others`. -/
structure Owned (h : Heap α) (c : Counts) (others : Nat → Nat) (ρ : Resources α) : Prop where
  cells : (h : Multiset (Nat × α)) = ρ.1
  nodup : (h.map Prod.fst).Nodup
  count (o : Nat) : c o = others o + ρ.2.count o

section Rules
variable {h : Heap α} {c : Counts} {others : Nat → Nat} {ρ : Resources α} {p o : Nat} {v : α}

theorem owned_empty (others : Nat → Nat) : Owned ([] : Heap α) others others 0 where
  cells := rfl
  nodup := List.nodup_nil
  count o := by simp

/-- A new block comes on top of what there is. -/
theorem Owned.alloc (A : Allocator) (H : Owned h c others ρ) (v : α) :
    Owned (h.alloc A v).2 c others (block (h.alloc A v).1 v + ρ) where
  cells := by
    rw [Heap.alloc, ← Multiset.cons_coe, H.cells]
    rfl
  nodup := List.nodup_cons.2 ⟨A.pick_notMem _, H.nodup⟩
  count o := by
    rw [H.count o]
    simp

theorem get_of_mem {h : Heap α} (hnodup : (h.map Prod.fst).Nodup) (hmem : (p, v) ∈ h) : h.get p = some v := by
  induction h with
  | nil => cases hmem
  | cons x h ih =>
    obtain ⟨hx, hnodup⟩ := List.nodup_cons.1 hnodup
    rw [Heap.get, List.lookup_cons]
    rcases List.mem_cons.1 hmem with rfl | hmem
    · simp
    · have hne : p ≠ x.1 := fun heq => hx (heq ▸ List.mem_map.2 ⟨(p, v), hmem, rfl⟩)
      rw [beq_false_of_ne hne]
      exact ih hnodup hmem

theorem free_of_mem {h : Heap α} (hnodup : (h.map Prod.fst).Nodup) (hmem : (p, v) ∈ h) :
    ∃ h', h.free p = some h' ∧ h.Perm ((p, v) :: h') := by
  induction h with
  | nil => cases hmem
  | cons x h ih =>
    obtain ⟨hx, hnodup⟩ := List.nodup_cons.1 hnodup
    rcases List.mem_cons.1 hmem with rfl | hmem
    · exact ⟨h, if_pos rfl, .refl _⟩
    · have hne : x.1 ≠ p := fun heq => hx (heq ▸ List.mem_map.2 ⟨(p, v), hmem, rfl⟩)
      obtain ⟨h', hfree, hperm⟩ := ih hnodup hmem
      refine ⟨x :: h', ?_, (hperm.cons x).trans (.swap ..)⟩
      rw [Heap.free, if_neg hne, hfree]
      rfl

/-- What is owned can be read. -/
theorem Owned.get (H : Owned h c others (block p v + ρ)) : h.get p = some v := by
  refine get_of_mem H.nodup ?_
  rw [← Multiset.mem_coe, H.cells]
  simp

/-- Freeing takes the block, and leaves the others. -/
theorem Owned.free (H : Owned h c others (block p v + ρ)) : ∃ h', h.free p = some h' ∧ Owned h' c others ρ := by
  have hmem : (p, v) ∈ h := by
    rw [← Multiset.mem_coe, H.cells]
    simp
  obtain ⟨h', hfree, hperm⟩ := free_of_mem H.nodup hmem
  refine ⟨h', hfree, ?_, ((hperm.map Prod.fst).nodup_iff.1 H.nodup).of_cons, fun o => ?_⟩
  · have hcells : (p, v) ::ₘ (h' : Multiset (Nat × α)) = (p, v) ::ₘ ρ.1 := by
      rw [Multiset.cons_coe, ← Multiset.coe_eq_coe.2 hperm, H.cells]
      rfl
    exact (Multiset.cons_inj_right (p, v)).1 hcells
  · rw [H.count o]
    simp

theorem Owned.retain (H : Owned h c others ρ) (o : Nat) : Owned h (c.retain o) others (reference o + ρ) where
  cells := by
    rw [H.cells]
    simp
  nodup := H.nodup
  count o' := by
    rw [Counts.retain, Prod.snd_add, Multiset.count_add, Multiset.count_singleton]
    split
    · next heq =>
      rw [heq, H.count o]
      omega
    · rw [H.count o']
      omega

theorem Owned.release (H : Owned h c others (reference o + ρ)) :
    ∃ c', c.release o = some c' ∧ Owned h c' others ρ := by
  have hcount : ∀ o', c o' = others o' + ((if o' = o then 1 else 0) + ρ.2.count o') := by
    intro o'
    rw [H.count o', Prod.snd_add, Multiset.count_add, Multiset.count_singleton]
  have hpos : c o ≠ 0 := by
    rw [hcount o, if_pos rfl]
    omega
  refine ⟨_, if_neg hpos, ?_, H.nodup, fun o' => ?_⟩
  · rw [H.cells]
    simp
  · split
    · next heq =>
      rw [hcount o, heq, if_pos rfl]
      omega
    · next hne =>
      rw [hcount o', if_neg hne]
      omega

/-- Others may take references. -/
theorem Owned.retain_elsewhere (H : Owned h c others ρ) (o : Nat) :
    Owned h (c.retain o) (Counts.retain others o) ρ where
  cells := H.cells
  nodup := H.nodup
  count o' := by
    simp only [Counts.retain]
    split
    · rw [H.count o, ‹o' = o›]
      omega
    · exact H.count o'

/-- Others may give back those that they have. -/
theorem Owned.release_elsewhere (H : Owned h c others ρ) {others' : Counts}
    (hothers : Counts.release others o = some others') : ∃ c', c.release o = some c' ∧ Owned h c' others' ρ := by
  unfold Counts.release at hothers
  split at hothers
  · cases hothers
  · next hpos =>
    cases hothers
    have hcount := H.count o
    refine ⟨_, if_neg (by omega), H.cells, H.nodup, fun o' => ?_⟩
    split
    · rw [H.count o, ‹o' = o›]
      omega
    · exact H.count o'

end Rules

/-! ## Lists of owners -/

/-- Each element of the one list stands for that of the other, and has resources of its own. -/
inductive Each {σ τ ρ : Type} [AddCommMonoid ρ] (R : σ → τ → ρ → Prop) : List σ → List τ → ρ → Prop
  | nil : Each R [] [] 0
  | cons {s : σ} {t : τ} {r r' : ρ} {ss : List σ} {ts : List τ} :
    R s t r → Each R ss ts r' → Each R (s :: ss) (t :: ts) (r + r')

namespace Each
variable {σ τ ρ : Type} [AddCommMonoid ρ] {R : σ → τ → ρ → Prop} {ss ss' : List σ} {ts ts' : List τ} {r r' : ρ}

theorem length_eq (h : Each R ss ts r) : ss.length = ts.length := by
  induction h with
  | nil => rfl
  | cons _ _ ih => exact congrArg (· + 1) ih

theorem snoc {s : σ} {t : τ} (h : Each R ss ts r) (hst : R s t r') : Each R (ss ++ [s]) (ts ++ [t]) (r' + r) := by
  induction h with
  | nil => exact .cons hst .nil
  | cons hs _ ih =>
    rw [add_left_comm]
    exact .cons hs ih

theorem replicate {s : σ} {t : τ} (n : Nat) (h : R s t 0) : Each R (List.replicate n s) (List.replicate n t) 0 := by
  induction n with
  | zero => exact .nil
  | succ n ih => exact zero_add (0 : ρ) ▸ .cons h ih

/-- An element can be taken out, or given back changed, with its resources. -/
theorem at_index (h : Each R ss ts r) {i : Nat} {t : τ} (ht : ts[i]? = some t) :
    ∃ s r₁ r₂, ss[i]? = some s ∧ R s t r₁ ∧ r = r₁ + r₂ ∧ Each R (ss.eraseIdx i) (ts.eraseIdx i) r₂ ∧
      ∀ s' t' r', R s' t' r' → Each R (ss.set i s') (ts.set i t') (r' + r₂) := by
  induction h generalizing i with
  | nil => cases ht
  | @cons s₀ t₀ r₀ r₁ ss ts hst hrest ih =>
    cases i with
    | zero =>
      obtain rfl := Option.some.inj ht
      exact ⟨s₀, r₀, r₁, rfl, hst, rfl, hrest, fun s' t' r' h' => .cons h' hrest⟩
    | succ i =>
      obtain ⟨s, r₂, r₃, hs, hRs, rfl, herase, hset⟩ := ih ht
      refine ⟨s, r₂, r₀ + r₃, hs, hRs, add_left_comm .., .cons hst herase, fun s' t' r' h' => ?_⟩
      rw [add_left_comm]
      exact .cons hst (hset s' t' r' h')

/-- What each element shows of itself where its resources are among those that there are. -/
theorem map_eq {γ : Type} {Q : ρ → Prop} {f : σ → γ} {g : τ → γ} (h : Each R ss ts r)
    (hfg : ∀ s t r r', R s t r → Q (r + r') → f s = g t) (hQ : Q (r + r')) : ss.map f = ts.map g := by
  induction h generalizing r' with
  | nil => rfl
  | @cons s t r₁ r₂ ss ts hst _ ih =>
    rw [add_assoc] at hQ
    have hrest : ss.map f = ts.map g := ih (by rwa [add_left_comm] at hQ)
    rw [List.map_cons, List.map_cons, hfg s t r₁ (r₂ + r') hst hQ, hrest]

/-- What the elements own together. -/
theorem sum_eq {γ : Type} {f : ρ →+ Multiset γ} {g : τ → List γ} (h : Each R ss ts r)
    (hfg : ∀ s t r, R s t r → f r = (g t : Multiset γ)) : f r = (ts.flatMap g : Multiset γ) := by
  induction h with
  | nil => exact map_zero f
  | cons hst _ ih =>
    rw [map_add, hfg _ _ _ hst, ih, List.flatMap_cons, Multiset.coe_add]

end Each

end OpenCRun.Ownership
