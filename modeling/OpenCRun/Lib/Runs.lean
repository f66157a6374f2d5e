import Mathlib.Data.List.Induction
/-!
# Runs of a system

A system starts in some states and takes labelled steps. What holds at the
start and is kept by every step holds in every reachable state. `meeting`
keeps the runs whose steps all meet a condition. Where steps are functions, a
run is a list of them, and what holds all along it holds of its prefixes.
-/
namespace Lib.Runs

variable {σ ℓ : Type}

structure System (σ ℓ : Type) where
  init : σ → Prop
  step : σ → ℓ → σ → Prop

inductive Reachable (M : System σ ℓ) : σ → Prop
  | init {s : σ} : M.init s → Reachable M s
  | step {s s' : σ} {l : ℓ} : Reachable M s → M.step s l s' → Reachable M s'

structure Invariant (M : System σ ℓ) (P : σ → Prop) : Prop where
  init : ∀ s, M.init s → P s
  step : ∀ s l s', P s → M.step s l s' → P s'

theorem Invariant.reachable {M : System σ ℓ} {P : σ → Prop} (h : Invariant M P) {s : σ} (hr : Reachable M s) : P s := by
  induction hr with
  | init hi => exact h.init _ hi
  | step _ hs ih => exact h.step _ _ _ ih hs

/-- Where steps can be computed, so can runs. -/
theorem Reachable.foldlM {M : System σ ℓ} {step : σ → ℓ → Option σ} (hstep : ∀ s l s', step s l = some s' → M.step s l s')
    {s s' : σ} (hr : Reachable M s) {ls : List ℓ} (h : ls.foldlM step s = some s') : Reachable M s' := by
  induction ls generalizing s with
  | nil => exact Option.some.inj h ▸ hr
  | cons l ls ih =>
    rw [List.foldlM_cons] at h
    obtain ⟨s₁, hs₁, h⟩ := Option.bind_eq_some_iff.1 h
    exact ih (.step hr (hstep _ _ _ hs₁)) h

/-- The end of a run from an initial state that goes through. -/
theorem Reachable.getD_foldlM {M : System σ ℓ} {step : σ → ℓ → Option σ} (hstep : ∀ s l s', step s l = some s' → M.step s l s')
    {s : σ} (hinit : M.init s) {ls : List ℓ} (h : (ls.foldlM step s).isSome = true) :
    Reachable M ((ls.foldlM step s).getD s) := by
  obtain ⟨s', hs⟩ := Option.isSome_iff_exists.1 h
  rw [hs]
  exact Reachable.foldlM hstep (.init hinit) hs

/-- The same system, as far as its steps meet a condition on the state and the label. -/
def System.meeting (M : System σ ℓ) (ok : σ → ℓ → Prop) : System σ ℓ :=
  { M with step := fun s l s' => ok s l ∧ M.step s l s' }

/-- Some steps, all with labels of one kind. -/
inductive Steps (M : System σ ℓ) (ok : ℓ → Prop) : σ → σ → Prop
  | refl (s : σ) : Steps M ok s s
  | step {s s' s'' : σ} {l : ℓ} : Steps M ok s s' → ok l → M.step s' l s'' → Steps M ok s s''

theorem Steps.reachable {M : System σ ℓ} {ok : ℓ → Prop} {s s' : σ} (h : Steps M ok s s') (hr : Reachable M s) :
    Reachable M s' := by
  induction h with
  | refl => exact hr
  | step _ _ hs ih => exact .step ih hs

/-- What each of the steps keeps, they keep together. -/
theorem Steps.keeps {M : System σ ℓ} {ok : ℓ → Prop} {P : σ → Prop} (hstep : ∀ s l s', P s → ok l → M.step s l s' → P s')
    {s s' : σ} (h : Steps M ok s s') (hp : P s) : P s' := by
  induction h with
  | refl => exact hp
  | step _ hl hs ih => exact hstep _ _ _ ih hl hs

/-- Some steps, of which a number are of one kind. -/
inductive Taking (M : System σ ℓ) (mine : ℓ → Prop) : Nat → σ → σ → Prop
  | refl (s : σ) : Taking M mine 0 s s
  | mine {n : Nat} {s s' s'' : σ} {l : ℓ} : Taking M mine n s s' → mine l → M.step s' l s'' → Taking M mine (n + 1) s s''
  | other {n : Nat} {s s' s'' : σ} {l : ℓ} : Taking M mine n s s' → ¬ mine l → M.step s' l s'' → Taking M mine n s s''

/-- What each of my steps brings down, and no other step brings up, has come down after enough of mine. -/
theorem Taking.exhausts {M : System σ ℓ} {mine : ℓ → Prop} {I : σ → Prop} (work : σ → Nat)
    (hI : ∀ s l s', I s → M.step s l s' → I s')
    (hmine : ∀ s l s', I s → mine l → M.step s l s' → work s' ≤ work s - 1)
    (hother : ∀ s l s', I s → ¬ mine l → M.step s l s' → work s' ≤ work s)
    {n : Nat} {s s' : σ} (h : Taking M mine n s s') (hs : I s) : I s' ∧ work s' ≤ work s - n := by
  induction h with
  | refl => exact ⟨hs, Nat.le_refl _⟩
  | mine _ hl hstep ih =>
    obtain ⟨hi, hw⟩ := ih hs
    have := hmine _ _ _ hi hl hstep
    exact ⟨hI _ _ _ hi hstep, by omega⟩
  | other _ hl hstep ih =>
    obtain ⟨hi, hw⟩ := ih hs
    exact ⟨hI _ _ _ hi hstep, Nat.le_trans (hother _ _ _ hi hl hstep) hw⟩

/-- Where each step of one system is matched by a step of another, so is each run. -/
theorem foldlM_simulates {τ : Type} {R : σ → τ → Prop} {step : σ → ℓ → Option σ} {step' : τ → ℓ → Option τ}
    (hstep : ∀ s t l t', R s t → step' t l = some t' → ∃ s', step s l = some s' ∧ R s' t') {s : σ} {t t' : τ}
    (h : R s t) {ls : List ℓ} (hrun : ls.foldlM step' t = some t') : ∃ s', ls.foldlM step s = some s' ∧ R s' t' := by
  induction ls generalizing s t with
  | nil => exact ⟨s, rfl, Option.some.inj hrun ▸ h⟩
  | cons l ls ih =>
    rw [List.foldlM_cons] at hrun
    obtain ⟨t₁, ht₁, hrun⟩ := Option.bind_eq_some_iff.1 hrun
    obtain ⟨s₁, hs₁, h₁⟩ := hstep s t l t₁ h ht₁
    obtain ⟨s', hs', h'⟩ := ih h₁ hrun
    refine ⟨s', ?_, h'⟩
    rw [List.foldlM_cons, hs₁]
    exact hs'

/-! ## Prefixes of a run -/

section Prefixes
variable {ο : Type} (run : σ → ο → σ)

theorem foldl_invariant {I : σ → Prop} (hstep : ∀ s o, I s → I (run s o)) {s : σ} (h : I s) (ops : List ο) :
    I (ops.foldl run s) := by
  induction ops generalizing s with
  | nil => exact h
  | cons o ops ih => exact ih (hstep s o h)

/-- Where a good step keeps an invariant that gives `P`, and a bad one ends `P`, then `P` holds all
along a run exactly when no step of the run is bad. -/
theorem prefixes_iff_of_good {I P : σ → Prop} {bad : σ → ο → Prop} {s : σ} (hI : I s) (hP : ∀ s, I s → P s)
    (hgood : ∀ s o, I s → ¬ bad s o → I (run s o)) (hbad : ∀ s o, I s → bad s o → ¬ P (run s o)) (ops : List ο) :
    (∀ done, done <+: ops → P (done.foldl run s)) ↔
      ∀ done o, done ++ [o] <+: ops → ¬ bad (done.foldl run s) o := by
  constructor
  · intro h done o hp
    -- the invariant holds before each step, as none of the steps before was bad
    have before : ∀ done, done <+: ops → I (done.foldl run s) := by
      intro done
      induction done using List.reverseRecOn with
      | nil => exact fun _ => hI
      | append_singleton done o ih =>
        intro hp
        have hinv := ih ((List.prefix_append _ _).trans hp)
        have next := h (done ++ [o]) hp
        rw [List.foldl_append] at next ⊢
        exact hgood _ o hinv fun hb => hbad _ o hinv hb next
    have next := h (done ++ [o]) hp
    rw [List.foldl_append] at next
    exact fun hb => hbad _ o (before done ((List.prefix_append _ _).trans hp)) hb next
  · intro h done hp
    refine hP _ ?_
    induction done using List.reverseRecOn with
    | nil => exact hI
    | append_singleton done o ih =>
      rw [List.foldl_append]
      exact hgood _ o (ih ((List.prefix_append _ _).trans hp)) (h done o hp)

/-- Where a step keeps `P` exactly when it is not a bad one, `P` holds all along a run exactly when
no step of the run is bad. -/
theorem prefixes_iff {I P : σ → Prop} {bad : σ → ο → Prop} {s : σ} (hI : I s) (hP : P s)
    (hinv : ∀ s o, I s → I (run s o)) (hstep : ∀ s o, I s → P s → (P (run s o) ↔ ¬ bad s o)) (ops : List ο) :
    (∀ done, done <+: ops → P (done.foldl run s)) ↔
      ∀ done o, done ++ [o] <+: ops → ¬ bad (done.foldl run s) o :=
  prefixes_iff_of_good run (I := fun s => I s ∧ P s) ⟨hI, hP⟩ (fun _ h => h.2)
    (fun s o h hb => ⟨hinv s o h.1, (hstep s o h.1 h.2).2 hb⟩)
    (fun s o h hb hp => (hstep s o h.1 h.2).1 hp hb) ops

end Prefixes

end Lib.Runs
