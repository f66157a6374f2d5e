import Mathlib.Order.Lattice
import Mathlib.Data.List.Induction
/-!
# Maps that group

A map from keys to lists, kept sorted by key, to which values are added one
by one at the end of the list of their key. Grouping a list of pairs gives each
key that occurs the values it occurs with, in order.
-/
namespace Lib.Grouping

variable {κ α : Type} [LinearOrder κ]

/-- Adds a value to the list of a key. -/
def push (k : κ) (a : α) : List (κ × List α) → List (κ × List α)
  | [] => [(k, [a])]
  | x :: m =>
    if k = x.1 then (k, x.2 ++ [a]) :: m
    else if k < x.1 then (k, [a]) :: x :: m
    else x :: push k a m

def group (l : List (κ × α)) : List (κ × List α) := l.foldl (fun m x => push x.1 x.2 m) []

/-- The values that a key occurs with. -/
def valuesAt (l : List (κ × α)) (k : κ) : List α := (l.filter (·.1 = k)).map Prod.snd

/-- The list of a key in the map. -/
def get : List (κ × List α) → κ → List α
  | [], _ => []
  | x :: m, k => if x.1 = k then x.2 else get m k

/-- The map is sorted, and groups the list. -/
structure Groups (m : List (κ × List α)) (l : List (κ × α)) : Prop where
  sorted : m.Pairwise fun x y => x.1 < y.1
  nonempty : ∀ x ∈ m, x.2 ≠ []
  get_eq : ∀ k, get m k = valuesAt l k

variable {m : List (κ × List α)} {l : List (κ × α)} {k k' : κ} {a : α} {as : List α}

theorem valuesAt_append (l : List (κ × α)) (k : κ) (a : α) (k' : κ) :
    valuesAt (l ++ [(k, a)]) k' = if k = k' then valuesAt l k' ++ [a] else valuesAt l k' := by
  unfold valuesAt
  split
  · next h => simp [h]
  · next h => simp [h]

theorem key_of_mem_push {x : κ × List α} (h : x ∈ push k a m) : x.1 = k ∨ ∃ y ∈ m, x.1 = y.1 := by
  induction m with
  | nil => exact .inl (by rw [List.mem_singleton.1 h])
  | cons y m ih =>
    unfold push at h
    split at h
    · rcases List.mem_cons.1 h with rfl | h
      · exact .inl rfl
      · exact .inr ⟨x, List.mem_cons_of_mem _ h, rfl⟩
    · split at h
      · rcases List.mem_cons.1 h with rfl | h
        · exact .inl rfl
        · exact .inr ⟨x, h, rfl⟩
      · rcases List.mem_cons.1 h with rfl | h
        · exact .inr ⟨x, List.mem_cons_self, rfl⟩
        · rcases ih h with h | ⟨z, hz, h⟩
          · exact .inl h
          · exact .inr ⟨z, List.mem_cons_of_mem _ hz, h⟩

theorem push_sorted (hm : m.Pairwise fun x y => x.1 < y.1) : (push k a m).Pairwise fun x y => x.1 < y.1 := by
  induction m with
  | nil => exact List.pairwise_singleton ..
  | cons y m ih =>
    obtain ⟨hy, hm⟩ := List.pairwise_cons.1 hm
    unfold push
    split
    · next heq => exact List.pairwise_cons.2 ⟨fun x hx => heq ▸ hy x hx, hm⟩
    · split
      · next hlt =>
        refine List.pairwise_cons.2 ⟨fun x hx => ?_, List.pairwise_cons.2 ⟨hy, hm⟩⟩
        rcases List.mem_cons.1 hx with rfl | hx
        · exact hlt
        · exact lt_trans hlt (hy x hx)
      · next hne hge =>
        refine List.pairwise_cons.2 ⟨fun x hx => ?_, ih hm⟩
        -- The keys further on are those from before, and the new one.
        rcases key_of_mem_push hx with h | ⟨z, hz, h⟩
        · rw [h]
          exact lt_of_le_of_ne (not_lt.1 hge) (Ne.symm hne)
        · rw [h]
          exact hy z hz

theorem push_nonempty (hm : ∀ x ∈ m, x.2 ≠ []) : ∀ x ∈ push k a m, x.2 ≠ [] := by
  induction m with
  | nil => exact List.forall_mem_singleton.2 (List.cons_ne_nil a [])
  | cons y m ih =>
    obtain ⟨hy, hm⟩ := List.forall_mem_cons.1 hm
    unfold push
    split
    · exact List.forall_mem_cons.2 ⟨by simp, hm⟩
    · split
      · exact List.forall_mem_cons.2 ⟨List.cons_ne_nil a [], List.forall_mem_cons.2 ⟨hy, hm⟩⟩
      · exact List.forall_mem_cons.2 ⟨hy, ih hm⟩

theorem get_of_lt (h : ∀ x ∈ m, k < x.1) : get m k = [] := by
  induction m with
  | nil => rfl
  | cons y m ih =>
    obtain ⟨hy, hm⟩ := List.forall_mem_cons.1 h
    rw [get, if_neg hy.ne', ih hm]

theorem get_of_mem (hm : m.Pairwise fun x y => x.1 < y.1) (h : (k, as) ∈ m) : get m k = as := by
  induction m with
  | nil => cases h
  | cons y m ih =>
    obtain ⟨hy, hm⟩ := List.pairwise_cons.1 hm
    rcases List.mem_cons.1 h with rfl | h
    · exact if_pos rfl
    · rw [get, if_neg (hy _ h).ne, ih hm h]

theorem mem_of_get (h : get m k ≠ []) : (k, get m k) ∈ m := by
  induction m with
  | nil => exact absurd rfl h
  | cons y m ih =>
    by_cases hy : y.1 = k
    · rw [get, if_pos hy, ← hy]
      exact List.mem_cons_self
    · rw [get, if_neg hy] at h ⊢
      exact List.mem_cons_of_mem _ (ih h)

/-- The key gets the value at the end of its list, the others keep theirs. -/
theorem get_push (hm : m.Pairwise fun x y => x.1 < y.1) :
    get (push k a m) k' = if k = k' then get m k' ++ [a] else get m k' := by
  induction m with
  | nil => rfl
  | cons y m ih =>
    obtain ⟨hy, hm⟩ := List.pairwise_cons.1 hm
    unfold push
    -- The key is here, or is new and comes before this one, or is further on.
    by_cases heq : k = y.1
    · subst heq
      rw [if_pos rfl]
      by_cases hk : y.1 = k'
      · simp [get, hk]
      · simp [get, hk]
    by_cases hlt : k < y.1
    · rw [if_neg heq, if_pos hlt]
      by_cases hk : k = k'
      · subst hk
        have hnone : get (y :: m) k = [] :=
          get_of_lt (List.forall_mem_cons.2 ⟨hlt, fun x hx => lt_trans hlt (hy x hx)⟩)
        rw [get, if_pos rfl, if_pos rfl, hnone]
        rfl
      · rw [get, if_neg hk, if_neg hk]
    · rw [if_neg heq, if_neg hlt, get, get, ih hm]
      by_cases hk : y.1 = k'
      · have hne : k ≠ k' := fun h => heq (h.trans hk.symm)
        rw [if_pos hk, if_neg hne, if_pos hk]
      · rw [if_neg hk, if_neg hk]

theorem Groups.push (h : Groups m l) (k : κ) (a : α) : Groups (push k a m) (l ++ [(k, a)]) where
  sorted := push_sorted h.sorted
  nonempty := push_nonempty h.nonempty
  get_eq k' := by rw [get_push h.sorted, valuesAt_append, h.get_eq]

theorem groups_group (l : List (κ × α)) : Groups (group l) l := by
  induction l using List.reverseRecOn with
  | nil => exact ⟨.nil, fun x hx => absurd hx List.not_mem_nil, fun k => rfl⟩
  | append_singleton l x ih =>
    rw [group, List.foldl_append]
    exact ih.push x.1 x.2

/-- A group is there, with all its values, when it has some. -/
theorem Groups.mem_iff (h : Groups m l) : (k, as) ∈ m ↔ as = valuesAt l k ∧ as ≠ [] := by
  rw [← h.get_eq]
  constructor
  · exact fun hmem => ⟨(get_of_mem h.sorted hmem).symm, h.nonempty _ hmem⟩
  · rintro ⟨rfl, hne⟩
    exact mem_of_get hne

theorem Groups.keys_nodup (h : Groups m l) : (m.map Prod.fst).Nodup :=
  List.pairwise_map.2 (h.sorted.imp fun hlt => hlt.ne)

end Lib.Grouping
