import Mathlib.Order.Lattice
import Mathlib.Data.List.Induction
/-!
# Multimaps

Entries sorted by key, those of one key in the order in which they were
inserted. The entries of a key are found from the first of them on.
-/
namespace Lib

structure Multimap (κ β : Type) [LinearOrder κ] where
  entries : List (κ × β)
  sorted : entries.Pairwise fun e e' => e.1 ≤ e'.1

namespace Multimap

variable {κ β : Type} [LinearOrder κ]

def empty : Multimap κ β := ⟨[], .nil⟩

/-- Puts an entry behind those of the same key. -/
def insertEntry (e : κ × β) : List (κ × β) → List (κ × β)
  | [] => [e]
  | x :: m => if e.1 < x.1 then e :: x :: m else x :: insertEntry e m

theorem mem_insertEntry {e x : κ × β} {m : List (κ × β)} (h : x ∈ insertEntry e m) : x = e ∨ x ∈ m := by
  induction m with
  | nil => exact .inl (List.mem_singleton.1 h)
  | cons y m ih =>
    unfold insertEntry at h
    split at h
    · exact List.mem_cons.1 h
    · rcases List.mem_cons.1 h with rfl | h
      · exact .inr List.mem_cons_self
      · exact (ih h).imp id (List.mem_cons_of_mem y)

theorem insertEntry_sorted (e : κ × β) {m : List (κ × β)} (h : m.Pairwise fun e e' => e.1 ≤ e'.1) :
    (insertEntry e m).Pairwise fun e e' => e.1 ≤ e'.1 := by
  induction m with
  | nil => exact List.pairwise_singleton _ _
  | cons y m ih =>
    obtain ⟨hy, hm⟩ := List.pairwise_cons.1 h
    unfold insertEntry
    split
    · next hlt =>
      refine List.pairwise_cons.2 ⟨fun x hx => ?_, h⟩
      rcases List.mem_cons.1 hx with rfl | hx
      · exact hlt.le
      · exact hlt.le.trans (hy x hx)
    · next hge =>
      refine List.pairwise_cons.2 ⟨fun x hx => ?_, ih hm⟩
      rcases mem_insertEntry hx with rfl | hx
      · exact not_lt.1 hge
      · exact hy x hx

def insert (m : Multimap κ β) (k : κ) (v : β) : Multimap κ β :=
  ⟨insertEntry (k, v) m.entries, insertEntry_sorted (k, v) m.sorted⟩

/-- From the first entry of the key on, to the end of the map; nothing if the key has no entry. -/
def find (m : Multimap κ β) (k : κ) : List (κ × β) :=
  match m.entries.dropWhile (fun e => decide (e.1 < k)) with
  | [] => []
  | e :: rest => if e.1 = k then e :: rest else []

/-- The values of a key. -/
def valuesAt (m : Multimap κ β) (k : κ) : List β := (m.entries.filter (·.1 = k)).map Prod.snd

@[simp] theorem valuesAt_empty (k : κ) : (empty : Multimap κ β).valuesAt k = [] := rfl

theorem filter_eq_nil {m : List (κ × β)} {k : κ} (h : ∀ e ∈ m, k < e.1) : m.filter (·.1 = k) = [] :=
  List.filter_eq_nil_iff.2 fun e he => by simpa using (h e he).ne'

theorem filter_insertEntry (e : κ × β) {m : List (κ × β)} (h : m.Pairwise fun e e' => e.1 ≤ e'.1) (k : κ) :
    (insertEntry e m).filter (·.1 = k) = m.filter (·.1 = k) ++ if e.1 = k then [e] else [] := by
  induction m with
  | nil => simp [insertEntry, List.filter_cons]
  | cons x m ih =>
    obtain ⟨hx, hm⟩ := List.pairwise_cons.1 h
    unfold insertEntry
    split
    · next hlt =>
      rw [List.filter_cons]
      split
      · next hk =>
        have hk : e.1 = k := of_decide_eq_true hk
        rw [filter_eq_nil (m := x :: m), if_pos hk, List.nil_append]
        -- All keys from here on are greater.
        intro y hy
        rcases List.mem_cons.1 hy with rfl | hy
        · exact hk ▸ hlt
        · exact hk ▸ hlt.trans_le (hx y hy)
      · next hk =>
        rw [if_neg (by simpa using hk), List.append_nil]
    · rw [List.filter_cons, List.filter_cons, ih hm]
      split <;> rfl

theorem valuesAt_insert (m : Multimap κ β) (k : κ) (v : β) (k' : κ) :
    (m.insert k v).valuesAt k' = m.valuesAt k' ++ if k = k' then [v] else [] := by
  unfold valuesAt insert
  rw [filter_insertEntry _ m.sorted, List.map_append]
  split <;> rfl

/-- Values that are inserted one after the other. -/
theorem valuesAt_foldl {α : Type} (key : α → κ) (val : α → β) (as : List α) (k : κ) :
    (as.foldl (fun m a => m.insert (key a) (val a)) empty).valuesAt k = (as.filter (key · = k)).map val := by
  induction as using List.reverseRecOn with
  | nil => rfl
  | append_singleton as a ih =>
    rw [List.foldl_append, List.foldl_cons, List.foldl_nil, valuesAt_insert, ih, List.filter_append, List.map_append]
    by_cases h : key a = k
    · simp [h]
    · simp [h]

/-- Where no key is smaller, the entries of the key come first. -/
theorem takeWhile_eq_filter {m : List (κ × β)} {k : κ} (h : m.Pairwise fun e e' => e.1 ≤ e'.1) (hk : ∀ e ∈ m, k ≤ e.1) :
    m.takeWhile (·.1 = k) = m.filter (·.1 = k) := by
  induction m with
  | nil => rfl
  | cons x m ih =>
    obtain ⟨hx, hm⟩ := List.pairwise_cons.1 h
    by_cases heq : x.1 = k
    · rw [List.takeWhile_cons_of_pos (by simpa using heq), List.filter_cons_of_pos (by simpa using heq),
        ih hm fun e he => hk e (List.mem_cons_of_mem x he)]
    · have hlt : k < x.1 := lt_of_le_of_ne (hk x List.mem_cons_self) (Ne.symm heq)
      rw [List.takeWhile_cons_of_neg (by simpa using heq), List.filter_cons_of_neg (by simpa using heq),
        filter_eq_nil fun e he => hlt.trans_le (hx e he)]

/-- A walk from where a key is found passes its values, as long as the key stays the same. -/
theorem takeWhile_find (m : Multimap κ β) (k : κ) :
    ((m.find k).takeWhile (·.1 = k)).map Prod.snd = m.valuesAt k := by
  obtain ⟨m, hm⟩ := m
  unfold find valuesAt
  dsimp only
  induction m with
  | nil => rfl
  | cons x m ih =>
    obtain ⟨hx, hsorted⟩ := List.pairwise_cons.1 hm
    rcases lt_trichotomy x.1 k with hlt | heq | hgt
    · rw [List.dropWhile_cons_of_pos (by simpa using hlt), List.filter_cons_of_neg (by simpa using hlt.ne)]
      exact ih hsorted
    · rw [List.dropWhile_cons_of_neg (by simp [heq])]
      simp only [if_pos heq]
      rw [takeWhile_eq_filter hm]
      intro e he
      rcases List.mem_cons.1 he with rfl | he
      · exact heq.ge
      · exact heq ▸ hx e he
    · rw [List.dropWhile_cons_of_neg (by simpa using hgt.le)]
      simp only [if_neg hgt.ne', List.takeWhile_nil, List.map_nil]
      rw [filter_eq_nil (m := x :: m), List.map_nil]
      intro e he
      rcases List.mem_cons.1 he with rfl | he
      · exact hgt
      · exact hgt.trans_le (hx e he)

end Multimap

end Lib
