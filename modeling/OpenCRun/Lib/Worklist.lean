import Mathlib.Algebra.Order.BigOperators.Group.List
import Mathlib.Algebra.Order.Ring.Nat
import Mathlib.Logic.Relation
/-!
# Work lists

Loops that take a node from the end of a work list and put the next ones there.
One passes over the nodes that it has seen, another one puts those only on the
list that it has not seen. Either sees what can be reached from the list at the
start, and comes to an end where the nodes are finitely many.
-/
namespace Lib.Worklist

variable {α : Type} (next : α → List α)

/-- The work list has its end first. -/
def run [DecidableEq α] : Nat → List α → List α → Option (List α)
  | _, [], seen => some seen
  | 0, _ :: _, _ => none
  | fuel + 1, a :: work, seen =>
    if a ∈ seen then run fuel work seen else run fuel ((next a).reverse ++ work) (a :: seen)

/-- The loop that looks nodes up before they are put on the list, and not when they are taken. -/
def runFiltered [DecidableEq α] : Nat → List α → List α → Option (List α)
  | _, [], seen => some seen
  | 0, _ :: _, _ => none
  | fuel + 1, a :: work, seen => runFiltered fuel (((next a).filter (· ∉ seen)).reverse ++ work) (a :: seen)

abbrev Reaches (a b : α) : Prop := Relation.ReflTransGen (fun a b => b ∈ next a) a b

/-- What comes after a node that has been seen has been seen, or is going to be. -/
def Closed (work seen : List α) : Prop := ∀ a ∈ seen, ∀ b ∈ next a, b ∈ seen ∨ b ∈ work

/-- A search from some nodes, under way. -/
structure Search (start work seen : List α) : Prop where
  closed : Closed next work seen
  started : ∀ a ∈ start, a ∈ seen ∨ a ∈ work
  reached : ∀ b, b ∈ seen ∨ b ∈ work → ∃ a ∈ start, Reaches next a b

variable {next} {fuel : Nat} {start work seen out : List α}

theorem mem_of_skip {a b : α} (ha : a ∈ seen) (hb : b ∈ seen ∨ b ∈ a :: work) : b ∈ seen ∨ b ∈ work := by
  rcases hb with hseen | hwork
  · exact .inl hseen
  · rcases List.mem_cons.1 hwork with rfl | hwork
    · exact .inl ha
    · exact .inr hwork

theorem mem_of_visit {a b : α} (new : List α) (hb : b ∈ seen ∨ b ∈ a :: work) :
    b ∈ a :: seen ∨ b ∈ new ++ work := by
  rcases hb with hseen | hwork
  · exact .inl (List.mem_cons_of_mem _ hseen)
  · rcases List.mem_cons.1 hwork with rfl | hwork
    · exact .inl List.mem_cons_self
    · exact .inr (List.mem_append_right _ hwork)

namespace Search

theorem new : Search next start start [] where
  closed := nofun
  started _ ha := .inr ha
  reached b hb := ⟨b, hb.resolve_left List.not_mem_nil, .refl⟩

theorem skip {a : α} (h : Search next start (a :: work) seen) (ha : a ∈ seen) : Search next start work seen where
  closed c hc b hb := mem_of_skip ha (h.closed c hc b hb)
  started c hc := mem_of_skip ha (h.started c hc)
  reached b hb := h.reached b (hb.imp_right (List.mem_cons_of_mem _))

/-- Of the next nodes, those that have been seen need not be put on the list. -/
theorem visit {a : α} {new : List α} (h : Search next start (a :: work) seen) (hnew : ∀ b ∈ new, b ∈ next a)
    (hrest : ∀ b ∈ next a, b ∈ seen ∨ b ∈ new) : Search next start (new ++ work) (a :: seen) where
  closed c hc b hb := by
    rcases List.mem_cons.1 hc with rfl | hc
    · exact (hrest b hb).imp (List.mem_cons_of_mem _) (List.mem_append_left _)
    · exact mem_of_visit new (h.closed c hc b hb)
  started c hc := mem_of_visit new (h.started c hc)
  reached b hb := by
    rcases hb with hseen | hwork
    · rcases List.mem_cons.1 hseen with rfl | hseen
      · exact h.reached b (.inr List.mem_cons_self)
      · exact h.reached b (.inl hseen)
    · rcases List.mem_append.1 hwork with hb | hwork
      · obtain ⟨c, hc, hpath⟩ := h.reached a (.inr List.mem_cons_self)
        exact ⟨c, hc, hpath.tail (hnew b hb)⟩
      · exact h.reached b (.inr (List.mem_cons_of_mem _ hwork))

/-- When the list is empty, what has been seen is what can be reached. -/
theorem mem_iff (h : Search next start [] out) {b : α} : b ∈ out ↔ ∃ a ∈ start, Reaches next a b := by
  constructor
  · intro hb
    exact h.reached b (.inl hb)
  · rintro ⟨a, ha, hpath⟩
    induction hpath with
    | refl => exact (h.started a ha).resolve_right List.not_mem_nil
    | tail _ hstep ih => exact (h.closed _ ih _ hstep).resolve_right List.not_mem_nil

end Search

variable [DecidableEq α]

theorem search_run (h : run next fuel work seen = some out) (hs : Search next start work seen) :
    Search next start [] out := by
  induction fuel generalizing work seen with
  | zero =>
    cases work with
    | nil =>
      cases h
      exact hs
    | cons => cases h
  | succ fuel ih =>
    cases work with
    | nil =>
      cases h
      exact hs
    | cons a work =>
      -- A node that has been seen is passed over, another one puts the next ones on the list.
      rw [run] at h
      split at h
      next ha => exact ih h (hs.skip ha)
      next => exact ih h (hs.visit (fun b hb => List.mem_reverse.1 hb) fun b hb => .inr (List.mem_reverse.2 hb))

/-- The loop sees exactly what can be reached. -/
theorem mem_run (h : run next fuel work [] = some out) {b : α} : b ∈ out ↔ ∃ a ∈ work, Reaches next a b :=
  (search_run h .new).mem_iff

theorem search_runFiltered (h : runFiltered next fuel work seen = some out) (hs : Search next start work seen) :
    Search next start [] out := by
  induction fuel generalizing work seen with
  | zero =>
    cases work with
    | nil =>
      cases h
      exact hs
    | cons => cases h
  | succ fuel ih =>
    cases work with
    | nil =>
      cases h
      exact hs
    | cons a work =>
      rw [runFiltered] at h
      refine ih h (hs.visit (fun b hb => ?_) fun b hb => ?_)
      · exact List.mem_of_mem_filter (List.mem_reverse.1 hb)
      · by_cases hseen : b ∈ seen
        · exact .inl hseen
        · exact .inr (List.mem_reverse.2 (List.mem_filter.2 ⟨hb, decide_eq_true hseen⟩))

theorem mem_runFiltered (h : runFiltered next fuel work [] = some out) {b : α} :
    b ∈ out ↔ ∃ a ∈ work, Reaches next a b :=
  (search_runFiltered h .new).mem_iff

section Termination
variable (next) (nodes : List α)

/-- How many nodes there are still to be put on the list. -/
def pending (seen : List α) : Nat := (nodes.map fun a => if a ∈ seen then 0 else (next a).length).sum

/-- A bound of the number of turns. -/
def turns (work : List α) : Nat := work.length + pending next nodes []

variable {next nodes}

theorem pending_cons_le (a : α) : pending next nodes (a :: seen) ≤ pending next nodes seen := by
  refine List.sum_le_sum fun c _ => ?_
  simp only [List.mem_cons]
  split <;> split <;> simp_all

theorem pending_cons {a : α} (ha : a ∈ nodes) (hnew : a ∉ seen) :
    pending next nodes (a :: seen) + (next a).length ≤ pending next nodes seen := by
  induction nodes with
  | nil => cases ha
  | cons c rest ih =>
    have hrest : pending next rest (a :: seen) ≤ pending next rest seen := pending_cons_le a
    simp only [pending, List.map_cons, List.sum_cons] at ih hrest ⊢
    rcases List.mem_cons.1 ha with rfl | ha
    · rw [if_pos List.mem_cons_self, if_neg hnew]
      omega
    · have hle : (if c ∈ a :: seen then 0 else (next c).length) ≤ if c ∈ seen then 0 else (next c).length := by
        simp only [List.mem_cons]
        split <;> split <;> simp_all
      have := ih ha
      omega

theorem run_isSome (hnext : ∀ a ∈ nodes, ∀ b ∈ next a, b ∈ nodes) (hwork : ∀ a ∈ work, a ∈ nodes)
    (hfuel : work.length + pending next nodes seen ≤ fuel) : ∃ out, run next fuel work seen = some out := by
  induction fuel generalizing work seen with
  | zero =>
    cases work with
    | nil => exact ⟨seen, rfl⟩
    | cons => simp at hfuel
  | succ fuel ih =>
    cases work with
    | nil => exact ⟨seen, rfl⟩
    | cons a work =>
      rw [List.forall_mem_cons] at hwork
      rw [List.length_cons] at hfuel
      rw [run]
      split
      · exact ih hwork.2 (by omega)
      -- The list grows by the next nodes, and what is pending shrinks by as much and one more.
      · rename_i hnew
        have hpending : pending next nodes (a :: seen) + (next a).length ≤ _ := pending_cons hwork.1 hnew
        refine ih (fun b hb => ?_) ?_
        · rcases List.mem_append.1 hb with hb | hb
          · exact hnext a hwork.1 b (List.mem_reverse.1 hb)
          · exact hwork.2 b hb
        · rw [List.length_append, List.length_reverse]
          omega

/-- How many nodes there are still to be seen. -/
def unseen (nodes seen : List α) : Nat := nodes.countP (· ∉ seen)

theorem unseen_cons_le (a : α) : unseen nodes (a :: seen) ≤ unseen nodes seen := by
  refine List.countP_mono_left fun c _ hc => ?_
  rw [decide_eq_true_eq] at hc ⊢
  exact fun hseen => hc (List.mem_cons_of_mem _ hseen)

theorem unseen_cons {a : α} (ha : a ∈ nodes) (hnew : a ∉ seen) : unseen nodes (a :: seen) < unseen nodes seen := by
  induction nodes with
  | nil => cases ha
  | cons c rest ih =>
    unfold unseen at ih ⊢
    rw [List.countP_cons, List.countP_cons]
    rcases List.mem_cons.1 ha with rfl | ha
    · rw [if_neg (by simp), if_pos (decide_eq_true hnew)]
      exact Nat.lt_succ_of_le (unseen_cons_le a)
    · have hle : (if decide (c ∉ a :: seen) = true then 1 else 0) ≤ if decide (c ∉ seen) = true then 1 else 0 := by
        split <;> split <;> simp_all
      exact Nat.add_lt_add_of_lt_of_le (ih ha) hle

/-- A node can be taken again after it has been seen, and put nodes on the list
again. But then the next one that is taken has not been seen. -/
theorem runFiltered_isSome (hnext : ∀ a ∈ nodes, ∀ b ∈ next a, b ∈ nodes) (hwork : ∀ a ∈ work, a ∈ nodes) :
    ∃ fuel out, runFiltered next fuel work seen = some out := by
  obtain ⟨k, hk⟩ : ∃ k, unseen nodes seen < k := ⟨_, Nat.lt_succ_self _⟩
  induction k generalizing work seen with
  | zero => exact absurd hk (Nat.not_lt_zero _)
  | succ k ih =>
    -- A turn that takes a node that has not been seen leaves fewer of them.
    have hfresh : ∀ a work seen, a ∉ seen → unseen nodes seen < k + 1 → (∀ b ∈ a :: work, b ∈ nodes) →
        ∃ fuel out, runFiltered next fuel (a :: work) seen = some out := by
      intro a work seen hnew hk hwork
      rw [List.forall_mem_cons] at hwork
      have hput : ∀ b ∈ ((next a).filter (· ∉ seen)).reverse ++ work, b ∈ nodes := by
        intro b hb
        rcases List.mem_append.1 hb with hb | hb
        · exact hnext a hwork.1 b (List.mem_of_mem_filter (List.mem_reverse.1 hb))
        · exact hwork.2 b hb
      obtain ⟨fuel, out, h⟩ := ih hput ((unseen_cons hwork.1 hnew).trans_le (Nat.le_of_lt_succ hk))
      exact ⟨fuel + 1, out, h⟩
    induction work generalizing seen with
    | nil => exact ⟨0, seen, rfl⟩
    | cons a work ihw =>
      by_cases ha : a ∈ seen
      · have hk' : unseen nodes (a :: seen) < k + 1 := (unseen_cons_le a).trans_lt hk
        rw [List.forall_mem_cons] at hwork
        cases hput : ((next a).filter (· ∉ seen)).reverse with
        | nil =>
          obtain ⟨fuel, out, h⟩ := ihw hwork.2 hk'
          exact ⟨fuel + 1, out, by rw [runFiltered, hput]; exact h⟩
        | cons b rest =>
          have hmem : ∀ c ∈ b :: rest, c ∈ next a ∧ c ∉ seen := by
            intro c hc
            rw [← hput, List.mem_reverse, List.mem_filter, decide_eq_true_eq] at hc
            exact hc
          have hb : b ∉ a :: seen := by
            rw [List.mem_cons, not_or]
            exact ⟨fun hba => (hmem b List.mem_cons_self).2 (hba ▸ ha), (hmem b List.mem_cons_self).2⟩
          obtain ⟨fuel, out, h⟩ := hfresh b (rest ++ work) (a :: seen) hb hk' fun c hc => by
            rw [← List.cons_append] at hc
            rcases List.mem_append.1 hc with hc | hc
            · exact hnext a hwork.1 c (hmem c hc).1
            · exact hwork.2 c hc
          exact ⟨fuel + 1, out, by rw [runFiltered, hput]; exact h⟩
      · exact hfresh a work seen ha hk hwork

end Termination

end Lib.Worklist
