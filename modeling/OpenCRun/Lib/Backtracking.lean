import Mathlib.Data.List.Forall2
import Mathlib.Data.List.Flatten
import Mathlib.Data.List.Nodup
/-!
# Back-tracking

From each of a list of pools one element is chosen, in order. What has been
chosen so far is tested each time, and given up where the test fails. A test may also
end in an error, and then the whole search does.
-/
namespace Lib.Backtracking

variable {α : Type}

/-- The choices that go on from `s`. -/
def search (admits : List α → Bool) : List (List α) → List α → List (List α)
  | [], s => [s]
  | pool :: pools, s => pool.flatMap fun x => if admits (s ++ [x]) then search admits pools (s ++ [x]) else []

/-- One element from each pool. -/
abbrev Chosen (s : List α) (pools : List (List α)) : Prop := List.Forall₂ (fun x pool => x ∈ pool) s pools

/-- Every step on the way from `s` passes. -/
def Admitted (admits : List α → Bool) (s rest : List α) : Prop := ∀ p, p ≠ [] → p <+: rest → admits (s ++ p) = true

variable {admits : List α → Bool} {pools : List (List α)} {s t : List α}

theorem admitted_nil (admits : List α → Bool) (s : List α) : Admitted admits s [] :=
  fun _ hne hp => absurd (List.prefix_nil.1 hp) hne

theorem admitted_cons {x : α} {rest : List α} :
    Admitted admits s (x :: rest) ↔ admits (s ++ [x]) = true ∧ Admitted admits (s ++ [x]) rest := by
  constructor
  · intro h
    refine ⟨h [x] (List.cons_ne_nil x []) ((List.cons_prefix_cons).2 ⟨rfl, List.nil_prefix⟩), fun p _ hp => ?_⟩
    rw [List.append_assoc]
    exact h (x :: p) (List.cons_ne_nil x p) (List.cons_prefix_cons.2 ⟨rfl, hp⟩)
  · rintro ⟨hx, hrest⟩ p hne hp
    cases p with
    | nil => exact absurd rfl hne
    | cons y p =>
      obtain ⟨rfl, htail⟩ := List.cons_prefix_cons.1 hp
      by_cases hnil : p = []
      · rw [hnil]
        exact hx
      · have h := hrest p hnil htail
        rwa [List.append_assoc] at h

/-- The search finds what is chosen with every step passed. -/
theorem mem_search_iff : t ∈ search admits pools s ↔
    ∃ rest, t = s ++ rest ∧ Chosen rest pools ∧ Admitted admits s rest := by
  induction pools generalizing s with
  | nil =>
    rw [search, List.mem_singleton]
    constructor
    · rintro rfl
      exact ⟨[], (List.append_nil t).symm, .nil, admitted_nil admits t⟩
    · rintro ⟨rest, rfl, hchosen, -⟩
      rw [List.forall₂_nil_right_iff.1 hchosen, List.append_nil]
  | cons pool pools ih =>
    rw [search, List.mem_flatMap]
    constructor
    · rintro ⟨x, hx, ht⟩
      split at ht
      · next hpass =>
        obtain ⟨rest, rfl, hchosen, hrest⟩ := ih.1 ht
        exact ⟨x :: rest, by rw [List.append_assoc]; rfl, .cons hx hchosen, admitted_cons.2 ⟨hpass, hrest⟩⟩
      · cases ht
    · rintro ⟨rest, rfl, hchosen, hrest⟩
      cases hchosen with
      | @cons x _ rest _ hx hchosen =>
        obtain ⟨hpass, hrest⟩ := admitted_cons.1 hrest
        refine ⟨x, hx, ?_⟩
        rw [if_pos hpass]
        exact ih.2 ⟨rest, by rw [List.append_assoc]; rfl, hchosen, hrest⟩

/-- Nothing is found twice. -/
theorem search_nodup (h : ∀ pool ∈ pools, pool.Nodup) (s : List α) : (search admits pools s).Nodup := by
  induction pools generalizing s with
  | nil => exact List.nodup_singleton s
  | cons pool pools ih =>
    rw [search, List.nodup_flatMap]
    constructor
    · intro x _
      split
      · exact ih (fun pool hpool => h pool (List.mem_cons_of_mem _ hpool)) (s ++ [x])
      · exact List.nodup_nil
    · refine (h pool List.mem_cons_self).imp fun {x y} hne t hx hy => hne ?_
      -- What is found tells which element came next.
      have hnext : ∀ {z : α}, t ∈ (if admits (s ++ [z]) then search admits pools (s ++ [z]) else []) →
          ∃ rest, t = s ++ z :: rest := by
        intro z hz
        split at hz
        · obtain ⟨rest, rfl, -, -⟩ := mem_search_iff.1 hz
          exact ⟨rest, by rw [List.append_assoc]; rfl⟩
        · cases hz
      obtain ⟨rest, hx⟩ := hnext hx
      obtain ⟨rest', hy⟩ := hnext hy
      exact (List.cons.inj (List.append_cancel_left (hx.symm.trans hy))).1

section Aborts
variable {ε : Type} (test : List α → Except ε Bool)

/-- The test is passed. -/
def passes (s : List α) : Bool := (test s).toOption == some true

variable {test} in
theorem passes_iff : passes test s = true ↔ test s = .ok true := by
  rw [passes, beq_iff_eq]
  rcases test s with _ | b
  · simp [Except.toOption]
  · simp [Except.toOption]

/-- The steps that pass lead to one where the test ends in an error. -/
def Aborts (pools : List (List α)) (s : List α) : Prop :=
  ∃ p x, Chosen (p ++ [x]) (pools.take (p.length + 1)) ∧ Admitted (passes test) s p ∧
    ∃ e, test (s ++ (p ++ [x])) = .error e

theorem not_aborts_nil (s : List α) : ¬ Aborts test [] s := by
  rintro ⟨p, x, hchosen, -, -⟩
  rw [List.take_nil] at hchosen
  exact List.append_ne_nil_of_right_ne_nil p (List.cons_ne_nil x []) (List.forall₂_nil_right_iff.1 hchosen)

theorem aborts_cons_iff {pool : List α} : Aborts test (pool :: pools) s ↔
    ∃ x ∈ pool, (∃ e, test (s ++ [x]) = .error e) ∨
      (test (s ++ [x]) = .ok true ∧ Aborts test pools (s ++ [x])) := by
  constructor
  · rintro ⟨p, x, hchosen, hpass, hnone⟩
    cases p with
    | nil =>
      rw [List.nil_append] at hchosen hnone
      cases hchosen with
      | cons hx _ => exact ⟨x, hx, .inl hnone⟩
    | cons y p =>
      cases hchosen with
      | cons hy hchosen =>
        obtain ⟨htrue, hpass⟩ := admitted_cons.1 hpass
        refine ⟨y, hy, .inr ⟨passes_iff.1 htrue, p, x, hchosen, hpass, ?_⟩⟩
        rw [List.append_assoc]
        exact hnone
  · rintro ⟨y, hy, hnone | ⟨htrue, p, x, hchosen, hpass, hnone⟩⟩
    · exact ⟨[], y, .cons hy .nil, admitted_nil _ s, hnone⟩
    · refine ⟨y :: p, x, .cons hy hchosen, admitted_cons.2 ⟨passes_iff.2 htrue, hpass⟩, ?_⟩
      rw [List.append_assoc] at hnone
      exact hnone

end Aborts

/-! ## Searching by a loop -/

/-- An error where the search is off, and else the value. -/
structure Yields {ε σ : Type} (r : Except ε σ) (off : Prop) (v : σ) : Prop where
  error : off → ∃ e, r = .error e
  ok : ¬ off → r = .ok v

/-- A loop over states, of which each turn is off or adds to the results, and comes back to where it began. -/
theorem foldlM_search {ε σ β : Type} {l : List α} {off : α → Prop} {found : α → List β}
    {step : σ × List β → α → Except ε (σ × List β)} {tmp : σ}
    (h : ∀ x ∈ l, ∀ r, Yields (step (tmp, r) x) (off x) (tmp, r ++ found x)) (r : List β) :
    Yields (l.foldlM step (tmp, r)) (∃ x ∈ l, off x) (tmp, r ++ l.flatMap found) := by
  induction l generalizing r with
  | nil => exact ⟨by simp, fun _ => by simp; rfl⟩
  | cons x l ih =>
    have hx := h x List.mem_cons_self r
    have hrest := ih (fun y hy => h y (List.mem_cons_of_mem x hy)) (r ++ found x)
    rw [List.foldlM_cons, List.flatMap_cons, ← List.append_assoc]
    by_cases hoff : off x
    · obtain ⟨e, he⟩ := hx.error hoff
      rw [he]
      exact ⟨fun _ => ⟨e, rfl⟩, fun hnone => absurd ⟨x, List.mem_cons_self, hoff⟩ hnone⟩
    · rw [hx.ok hoff]
      simp only [List.exists_mem_cons_iff, hoff, false_or]
      exact hrest

end Lib.Backtracking
