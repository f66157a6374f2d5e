import Mathlib.Data.Finset.Union
/-!
# Text with conditionals

Lines that a preprocessor keeps or drops: those within `#if`s count only where
all the macros that these test are defined. An emitter with guards leaves a
guard open while the next piece of text has the same one. A text that defines
no macro has an effect, and the one of the emitted text is put together from
those of the pieces. Pieces that leave the extensions as they were mean what
they would with a guard of their own around each.
-/
namespace OpenCRun.ConditionalText

/-- Over macros `μ`, language extensions `ε` and other text `α`. -/
inductive Line (μ ε α : Type) where
  /-- `#if defined(a) && defined(b)` -/
  | ifDefined (macros : List μ)
  /-- `#ifndef a` -/
  | ifNotDefined (name : μ)
  | endif
  | define (name : μ)
  | enable (extension : ε)
  | disable (extension : ε)
  | text (content : α)
  deriving DecidableEq, Repr

structure State (μ ε α : Type) where
  macros : Finset μ
  /-- What came out of the conditions that are open, the innermost first. -/
  conds : List Bool := []
  enabled : Finset ε := ∅
  /-- The text that is kept, each with the extensions enabled there. -/
  kept : List (α × Finset ε) := []
  deriving DecidableEq

/-- What a guard tests, and which extensions are enabled within it. The free guard stands for none. -/
structure GuardStyle (γ μ ε : Type) where
  free : γ
  tested : γ → List μ
  extensions : γ → List ε
  tested_free : tested free = []
  extensions_free : extensions free = []

namespace GuardStyle
variable {γ μ ε : Type} (G : GuardStyle γ μ ε)

def holds [DecidableEq μ] (g : γ) (macros : Finset μ) : Bool := decide (∀ m ∈ G.tested g, m ∈ macros)

def on [DecidableEq ε] (g : γ) : Finset ε := (G.extensions g).toFinset

@[simp] theorem holds_free [DecidableEq μ] (macros : Finset μ) : G.holds G.free macros = true := by
  simp [holds, G.tested_free]

@[simp] theorem on_free [DecidableEq ε] : G.on G.free = ∅ := by
  simp [on, G.extensions_free]

theorem holds_mono [DecidableEq μ] {g : γ} {macros macros' : Finset μ} (h : macros ⊆ macros') (hg : G.holds g macros = true) :
    G.holds g macros' = true :=
  decide_eq_true fun m hm => h (of_decide_eq_true hg m hm)

end GuardStyle

variable {μ ε α : Type} [DecidableEq μ] [DecidableEq ε]

def State.active (s : State μ ε α) : Bool := s.conds.all id

namespace Line

/-- What a line does where all conditions hold. -/
def act : Line μ ε α → State μ ε α → State μ ε α
  | define m, s => { s with macros := insert m s.macros }
  | enable e, s => { s with enabled := insert e s.enabled }
  | disable e, s => { s with enabled := s.enabled.erase e }
  | text a, s => { s with kept := s.kept ++ [(a, s.enabled)] }
  | ifDefined _, s | ifNotDefined _, s | endif, s => s

/-- An `#endif` of no `#if` is refused. -/
def apply (l : Line μ ε α) (s : State μ ε α) : Option (State μ ε α) :=
  match l with
  | ifDefined ms => some { s with conds := decide (∀ m ∈ ms, m ∈ s.macros) :: s.conds }
  | ifNotDefined m => some { s with conds := decide (m ∉ s.macros) :: s.conds }
  | endif =>
    match s.conds with
    | [] => none
    | _ :: conds => some { s with conds }
  | l => some (if s.active then l.act s else s)

end Line

def preprocess (t : List (Line μ ε α)) (s : State μ ε α) : Option (State μ ε α) := t.foldlM (fun s l => l.apply s) s

@[simp] theorem preprocess_nil (s : State μ ε α) : preprocess [] s = some s := rfl

theorem preprocess_cons (l : Line μ ε α) (t : List (Line μ ε α)) (s : State μ ε α) :
    preprocess (l :: t) s = (l.apply s).bind (preprocess t) := rfl

theorem preprocess_append (t t' : List (Line μ ε α)) (s : State μ ε α) :
    preprocess (t ++ t') s = (preprocess t s).bind (preprocess t') := List.foldlM_append

theorem preprocess_singleton (l : Line μ ε α) (s : State μ ε α) : preprocess [l] s = l.apply s := by
  rw [preprocess_cons]
  cases l.apply s <;> rfl

/-! ## Tidy text -/

/-- The text closes what it opens, forgets no macro, and outside of `X` has no effect on extensions. Where a
condition around it fails, it does nothing. -/
structure TidyAt (t : List (Line μ ε α)) (s s' : State μ ε α) : Prop where
  run : preprocess t s = some s'
  conds : s'.conds = s.conds
  enabled : s'.enabled = s.enabled
  macros : s.macros ⊆ s'.macros
  inactive : s.active = false → s' = s

def Tidy (X : Finset ε) (t : List (Line μ ε α)) : Prop :=
  ∀ s : State μ ε α, Disjoint s.enabled X → ∃ s', TidyAt t s s'

theorem TidyAt.active {t : List (Line μ ε α)} {s s' : State μ ε α} (h : TidyAt t s s') : s'.active = s.active := by
  rw [State.active, State.active, h.conds]

theorem tidy_nil (X : Finset ε) : Tidy X ([] : List (Line μ ε α)) :=
  fun s _ => ⟨s, rfl, rfl, rfl, subset_rfl, fun _ => rfl⟩

theorem Tidy.append {X : Finset ε} {t t' : List (Line μ ε α)} (h : Tidy X t) (h' : Tidy X t') : Tidy X (t ++ t') := by
  intro s hs
  obtain ⟨s₁, h₁⟩ := h s hs
  obtain ⟨s₂, h₂⟩ := h' s₁ (by rwa [h₁.enabled])
  refine ⟨s₂, ?_, h₂.conds.trans h₁.conds, h₂.enabled.trans h₁.enabled, h₁.macros.trans h₂.macros, fun hs => ?_⟩
  · rw [preprocess_append, h₁.run]
    exact h₂.run
  · rw [h₂.inactive (h₁.active.trans hs), h₁.inactive hs]

theorem Tidy.mono {X Y : Finset ε} {t : List (Line μ ε α)} (h : Tidy X t) (hXY : X ⊆ Y) : Tidy Y t :=
  fun s hs => h s (hs.mono_right hXY)

theorem tidy_flatMap {ι : Type} {X : Finset ε} {f : ι → List (Line μ ε α)} {l : List ι} (h : ∀ i ∈ l, Tidy X (f i)) :
    Tidy X (l.flatMap f) := by
  induction l with
  | nil => exact tidy_nil X
  | cons i l ih =>
    rw [List.flatMap_cons]
    exact (h i (List.mem_cons_self ..)).append (ih fun j hj => h j (List.mem_cons_of_mem _ hj))

/-- Definitions and other text. -/
theorem tidy_of_act {l : Line μ ε α} (happly : ∀ s : State μ ε α, l.apply s = some (if s.active then l.act s else s))
    (hconds : ∀ s : State μ ε α, (l.act s).conds = s.conds)
    (henabled : ∀ s : State μ ε α, (l.act s).enabled = s.enabled)
    (hmacros : ∀ s : State μ ε α, s.macros ⊆ (l.act s).macros) (X : Finset ε) : Tidy X [l] := by
  intro s _
  refine ⟨if s.active then l.act s else s, by rw [preprocess_singleton, happly], ?_, ?_, ?_, fun h => by simp [h]⟩
  · split
    · exact hconds s
    · rfl
  · split
    · exact henabled s
    · rfl
  · split
    · exact hmacros s
    · exact subset_rfl

theorem tidy_define (X : Finset ε) (m : μ) : Tidy (α := α) X [.define m] :=
  tidy_of_act (fun _ => rfl) (fun _ => rfl) (fun _ => rfl) (fun s => by exact Finset.subset_insert m s.macros) X

/-! ## Guards -/

namespace GuardStyle
variable {γ : Type} [DecidableEq γ] (G : GuardStyle γ μ ε)

def opening (g : γ) : List (Line μ ε α) :=
  if g = G.free then [] else .ifDefined (G.tested g) :: (G.extensions g).map .enable

def closing (g : γ) : List (Line μ ε α) :=
  if g = G.free then [] else (G.extensions g).map .disable ++ [.endif]

/-- What stands between two pieces of text: nothing if they have the same guard. -/
def push (current g : γ) : List (Line μ ε α) := if g = current then [] else G.closing current ++ G.opening g

/-- The text for pieces with their guards, after some text with guard `current`. -/
def emitFrom (current : γ) : List (γ × List (Line μ ε α)) → List (Line μ ε α)
  | [] => G.closing current
  | (g, t) :: pieces => G.push current g ++ t ++ emitFrom g pieces

def emit (pieces : List (γ × List (Line μ ε α))) : List (Line μ ε α) := G.emitFrom G.free pieces

def guarded (g : γ) (t : List (Line μ ε α)) : List (Line μ ε α) := G.opening g ++ t ++ G.closing g

/-- Each piece in a guard of its own. -/
def emitEach (pieces : List (γ × List (Line μ ε α))) : List (Line μ ε α) := pieces.flatMap fun p => G.guarded p.1 p.2

end GuardStyle

theorem preprocess_enable (es : List ε) (s : State μ ε α) : preprocess (es.map .enable) s =
    some { s with enabled := if s.active then s.enabled ∪ es.toFinset else s.enabled } := by
  induction es generalizing s with
  | nil => simp only [List.map_nil, preprocess_nil, List.toFinset_nil, Finset.union_empty, ite_self]
  | cons e es ih =>
    rw [List.map_cons, preprocess_cons]
    cases hs : s.active with
    | false =>
      have happly : (Line.enable e : Line μ ε α).apply s = some s := by simp [Line.apply, hs]
      rw [happly, Option.bind_some, ih, hs]
      rfl
    | true =>
      have happly : (Line.enable e : Line μ ε α).apply s = some { s with enabled := insert e s.enabled } := by
        simp [Line.apply, hs, Line.act]
      have hactive : ({ s with enabled := insert e s.enabled } : State μ ε α).active = true := hs
      rw [happly, Option.bind_some, ih, hactive]
      congr 2
      ext x
      simp only [if_true, Finset.mem_union, Finset.mem_insert, List.toFinset_cons]
      tauto

theorem preprocess_disable (es : List ε) (s : State μ ε α) : preprocess (es.map .disable) s =
    some { s with enabled := if s.active then s.enabled \ es.toFinset else s.enabled } := by
  induction es generalizing s with
  | nil => simp only [List.map_nil, preprocess_nil, List.toFinset_nil, Finset.sdiff_empty, ite_self]
  | cons e es ih =>
    rw [List.map_cons, preprocess_cons]
    cases hs : s.active with
    | false =>
      have happly : (Line.disable e : Line μ ε α).apply s = some s := by simp [Line.apply, hs]
      rw [happly, Option.bind_some, ih, hs]
      rfl
    | true =>
      have happly : (Line.disable e : Line μ ε α).apply s = some { s with enabled := s.enabled.erase e } := by
        simp [Line.apply, hs, Line.act]
      have hactive : ({ s with enabled := s.enabled.erase e } : State μ ε α).active = true := hs
      rw [happly, Option.bind_some, ih, hactive]
      congr 2
      ext x
      simp only [if_true, Finset.mem_sdiff, Finset.mem_erase, Finset.mem_insert, List.toFinset_cons, not_or]
      tauto

section Guarded
variable {γ : Type} [DecidableEq γ] (G : GuardStyle γ μ ε) {g : γ}

/-- The state within a guard. -/
def entered (g : γ) (s : State μ ε α) : State μ ε α :=
  { s with
    conds := G.holds g s.macros :: s.conds
    enabled := if s.active && G.holds g s.macros then s.enabled ∪ G.on g else s.enabled }

/-- The state after a guard, around which the state was `s`. -/
def left (s s' : State μ ε α) : State μ ε α := { s' with conds := s.conds, enabled := s.enabled }

omit [DecidableEq γ] in
theorem active_entered (g : γ) (s : State μ ε α) : (entered G g s).active = (s.active && G.holds g s.macros) := by
  rw [State.active, entered, List.all_cons, id, Bool.and_comm]
  rfl

omit [DecidableEq γ] in
theorem disjoint_entered {X : Finset ε} {s : State μ ε α} (hX : Disjoint s.enabled X) (hgX : Disjoint (G.on g) X) :
    Disjoint (entered G g s).enabled X := by
  rw [entered]
  split
  · exact Finset.disjoint_union_left.2 ⟨hX, hgX⟩
  · exact hX

theorem preprocess_opening (hg : g ≠ G.free) (s : State μ ε α) :
    preprocess (G.opening g) s = some (entered G g s) := by
  rw [GuardStyle.opening, if_neg hg, preprocess_cons]
  change preprocess _ ({ s with conds := G.holds g s.macros :: s.conds } : State μ ε α) = _
  have hactive : ({ s with conds := G.holds g s.macros :: s.conds } : State μ ε α).active =
      (s.active && G.holds g s.macros) := active_entered G g s
  rw [preprocess_enable, hactive]
  rfl

theorem preprocess_closing (hg : g ≠ G.free) {s : State μ ε α} {c : Bool} {conds : List Bool}
    (hs : s.conds = c :: conds) : preprocess (G.closing g) s =
      some { s with conds, enabled := if s.active then s.enabled \ G.on g else s.enabled } := by
  rw [GuardStyle.closing, if_neg hg, preprocess_append, preprocess_disable, Option.bind_some, preprocess_singleton]
  simp [Line.apply, hs, GuardStyle.on]

/-- A piece in its guard runs in the state within. -/
theorem preprocess_guarded {X : Finset ε} {t : List (Line μ ε α)} (ht : Tidy X t) {s : State μ ε α}
    (hX : Disjoint s.enabled X) (hgX : Disjoint (G.on g) X) (hg : Disjoint s.enabled (G.on g)) :
    ∃ s', TidyAt t (if g = G.free then s else entered G g s) s' ∧ preprocess (G.guarded g t) s = some (left s s') := by
  by_cases hfree : g = G.free
  · -- Nothing stands around the piece.
    obtain ⟨s', h'⟩ := ht s hX
    refine ⟨s', by rwa [if_pos hfree], ?_⟩
    rw [GuardStyle.guarded, GuardStyle.opening, if_pos hfree, GuardStyle.closing, if_pos hfree, List.nil_append,
      List.append_nil, h'.run, left, ← h'.conds, ← h'.enabled]
  · rw [if_neg hfree]
    obtain ⟨s', h'⟩ := ht _ (disjoint_entered G hX hgX)
    refine ⟨s', h', ?_⟩
    rw [GuardStyle.guarded, preprocess_append, preprocess_append, preprocess_opening G hfree, Option.bind_some, h'.run,
      Option.bind_some, preprocess_closing G hfree h'.conds, h'.active, active_entered, h'.enabled, left, entered]
    congr 2
    -- What the guard enabled was not enabled before.
    split
    · rw [Finset.union_sdiff_right]
      exact Finset.sdiff_eq_self_of_disjoint hg
    · rfl

theorem Tidy.guarded {X : Finset ε} {t : List (Line μ ε α)} (ht : Tidy X t) (hgX : Disjoint (G.on g) X) :
    Tidy (X ∪ G.on g) (G.guarded g t) := by
  intro s hs
  obtain ⟨hX, hg⟩ := Finset.disjoint_union_right.1 hs
  obtain ⟨s', h', hrun⟩ := preprocess_guarded G ht hX hgX hg
  refine ⟨_, hrun, rfl, rfl, ?_, fun hinactive => ?_⟩
  · have hmacros := h'.macros
    split at hmacros
    · exact hmacros
    · exact hmacros
  · split at h'
    · rw [h'.inactive hinactive]
      rfl
    · rw [h'.inactive (by rw [active_entered, hinactive]; rfl), left, entered, hinactive]

/-! ## Guards that are left open -/

/-- Within the guard, after some text: leaving it and entering it again makes no difference. -/
def Within (g : γ) (s : State μ ε α) : Prop :=
  g = G.free ∨ ∃ conds, s.conds = G.holds g s.macros :: conds ∧ (s.active = true → G.on g ⊆ s.enabled)

theorem within_opening (g : γ) (s : State μ ε α) : ∃ s', preprocess (G.opening g) s = some s' ∧ Within G g s' ∧
    ∀ X : Finset ε, Disjoint s.enabled X → Disjoint (G.on g) X → Disjoint s'.enabled X := by
  by_cases hfree : g = G.free
  · exact ⟨s, by rw [GuardStyle.opening, if_pos hfree]; rfl, .inl hfree, fun _ h _ => h⟩
  · refine ⟨_, preprocess_opening G hfree s, .inr ⟨s.conds, rfl, fun hactive => ?_⟩,
      fun X hX hgX => disjoint_entered G hX hgX⟩
    rw [active_entered] at hactive
    rw [entered, hactive]
    exact Finset.subset_union_right

omit [DecidableEq γ] in
theorem Within.tidy {X : Finset ε} {t : List (Line μ ε α)} (ht : Tidy X t) {s : State μ ε α} (h : Within G g s)
    (hX : Disjoint s.enabled X) : ∃ s', TidyAt t s s' ∧ Within G g s' := by
  obtain ⟨s', h'⟩ := ht s hX
  refine ⟨s', h', h.imp id ?_⟩
  rintro ⟨conds, hconds, hon⟩
  refine ⟨conds, ?_, fun hactive => ?_⟩
  · rw [h'.conds, hconds]
    cases hactive : s.active with
    | false => rw [h'.inactive hactive]
    | true =>
      -- The guard holds, and what is defined stays.
      have hholds : G.holds g s.macros = true := by
        rw [State.active, hconds, List.all_cons, Bool.and_eq_true] at hactive
        exact hactive.1
      rw [hholds, G.holds_mono h'.macros hholds]
  · rw [h'.enabled]
    exact hon (h'.active ▸ hactive)

theorem Within.reopen {s : State μ ε α} (h : Within G g s) :
    preprocess (G.closing g ++ G.opening g) s = some s := by
  rcases h with hfree | ⟨conds, hconds, hon⟩
  · rw [GuardStyle.closing, if_pos hfree, GuardStyle.opening, if_pos hfree]
    rfl
  · by_cases hfree : g = G.free
    · rw [GuardStyle.closing, if_pos hfree, GuardStyle.opening, if_pos hfree]
      rfl
    rw [preprocess_append, preprocess_closing G hfree hconds, Option.bind_some, preprocess_opening G hfree, entered]
    have hactive : s.active = (conds.all id && G.holds g s.macros) := by
      rw [State.active, hconds, List.all_cons, Bool.and_comm]
      rfl
    congr 1
    have hbase : ({ s with conds, enabled := if s.active then s.enabled \ G.on g else s.enabled } :
        State μ ε α).active = conds.all id := rfl
    rw [hbase, ← hactive, ← hconds]
    cases hs : s.active with
    | false => simp
    | true => simp [Finset.sdiff_union_of_subset (hon hs)]

theorem Within.closing {s : State μ ε α} (h : Within G g s) :
    ∃ s', preprocess (G.closing g) s = some s' ∧ s'.enabled ⊆ s.enabled := by
  by_cases hfree : g = G.free
  · exact ⟨s, by rw [GuardStyle.closing, if_pos hfree]; rfl, subset_rfl⟩
  · obtain ⟨conds, hconds, -⟩ := h.resolve_left hfree
    refine ⟨_, preprocess_closing G hfree hconds, ?_⟩
    dsimp only
    split
    · exact Finset.sdiff_subset
    · exact subset_rfl

/-- A guard may be left at once, and each further piece have its own. -/
theorem emitFrom_eq {X : Finset ε} {pieces : List (γ × List (Line μ ε α))}
    (hpieces : ∀ p ∈ pieces, Tidy X p.2 ∧ Disjoint (G.on p.1) X) {current : γ} {s : State μ ε α}
    (h : Within G current s) (hX : Disjoint s.enabled X) :
    preprocess (G.emitFrom current pieces) s = preprocess (G.closing current ++ G.emitEach pieces) s := by
  induction pieces generalizing current s with
  | nil => rw [GuardStyle.emitFrom, GuardStyle.emitEach, List.flatMap_nil, List.append_nil]
  | cons p pieces ih =>
    obtain ⟨⟨ht, hgX⟩, hpieces⟩ := List.forall_mem_cons.1 hpieces
    -- What follows the piece, from any state within its guard.
    have hrest : ∀ {s₁ : State μ ε α}, Within G p.1 s₁ → Disjoint s₁.enabled X →
        preprocess (p.2 ++ G.emitFrom p.1 pieces) s₁ =
          preprocess (p.2 ++ (G.closing p.1 ++ G.emitEach pieces)) s₁ := by
      intro s₁ h₁ hX₁
      obtain ⟨s₂, h₂, hwithin⟩ := h₁.tidy G ht hX₁
      rw [preprocess_append, preprocess_append, h₂.run, Option.bind_some, Option.bind_some]
      exact ih hpieces hwithin (by rwa [h₂.enabled])
    have heach : G.emitEach (p :: pieces) = G.opening p.1 ++ (p.2 ++ (G.closing p.1 ++ G.emitEach pieces)) := by
      simp only [GuardStyle.emitEach, List.flatMap_cons, GuardStyle.guarded, List.append_assoc]
    rw [GuardStyle.emitFrom, GuardStyle.push, heach]
    by_cases hsame : p.1 = current
    · subst hsame
      rw [if_pos rfl, List.nil_append, hrest h hX, ← List.append_assoc (G.closing p.1) (G.opening p.1),
        preprocess_append (G.closing p.1 ++ G.opening p.1), h.reopen, Option.bind_some]
    · rw [if_neg hsame, List.append_assoc, List.append_assoc, preprocess_append, preprocess_append (G.closing current)]
      obtain ⟨s₁, h₁, hsubset⟩ := h.closing G
      obtain ⟨s₂, h₂, hwithin, hdisjoint⟩ := within_opening G p.1 s₁
      rw [h₁, Option.bind_some, Option.bind_some, preprocess_append, preprocess_append (G.opening p.1), h₂,
        Option.bind_some, Option.bind_some]
      exact hrest hwithin (hdisjoint X (hX.mono_left hsubset) hgX)

/-- Text in which guards are left open means what it would with each piece in a guard of its own. -/
theorem preprocess_emit {X : Finset ε} {pieces : List (γ × List (Line μ ε α))}
    (hpieces : ∀ p ∈ pieces, Tidy X p.2 ∧ Disjoint (G.on p.1) X) {s : State μ ε α} (hX : Disjoint s.enabled X) :
    preprocess (G.emit pieces) s = preprocess (G.emitEach pieces) s := by
  have hclosing : G.closing G.free = ([] : List (Line μ ε α)) := if_pos rfl
  rw [GuardStyle.emit, emitFrom_eq G hpieces (.inl rfl) hX, hclosing, List.nil_append]

end Guarded

/-! ## Effects -/

/-- Of the macros and of the extensions enabled before a text: what it keeps, and which extensions are enabled after
it. -/
abbrev Effect (μ ε α : Type) := Finset μ → Finset ε → List (α × Finset ε) × Finset ε

/-- Where a condition fails there is no effect. -/
def State.after (s : State μ ε α) (d : Effect μ ε α) : State μ ε α :=
  if s.active then { s with kept := s.kept ++ (d s.macros s.enabled).1, enabled := (d s.macros s.enabled).2 } else s

/-- The text closes what it opens, defines nothing and has the effect `d`. -/
def Has (t : List (Line μ ε α)) (d : Effect μ ε α) : Prop := ∀ s : State μ ε α, preprocess t s = some (s.after d)

/-- One effect after the other. -/
def Effect.seq (d d' : Effect μ ε α) : Effect μ ε α := fun macros enabled =>
  ((d macros enabled).1 ++ (d' macros (d macros enabled).2).1, (d' macros (d macros enabled).2).2)

section Has
variable {t t' : List (Line μ ε α)} {d d' : Effect μ ε α}

omit [DecidableEq μ] [DecidableEq ε] in
theorem State.after_of_active {s : State μ ε α} (h : s.active = true) (d : Effect μ ε α) : s.after d =
    { s with kept := s.kept ++ (d s.macros s.enabled).1, enabled := (d s.macros s.enabled).2 } := if_pos h

omit [DecidableEq μ] [DecidableEq ε] in
theorem State.after_of_inactive {s : State μ ε α} (h : s.active = false) (d : Effect μ ε α) : s.after d = s :=
  if_neg (by simp [h])

omit [DecidableEq μ] [DecidableEq ε] in
@[simp] theorem State.after_conds (s : State μ ε α) (d : Effect μ ε α) : (s.after d).conds = s.conds := by
  rw [State.after]
  split <;> rfl

omit [DecidableEq μ] [DecidableEq ε] in
@[simp] theorem State.after_macros (s : State μ ε α) (d : Effect μ ε α) : (s.after d).macros = s.macros := by
  rw [State.after]
  split <;> rfl

theorem Has.append (h : Has t d) (h' : Has t' d') : Has (t ++ t') (d.seq d') := by
  intro s
  rw [preprocess_append, h, Option.bind_some, h']
  cases hs : s.active with
  | false => rw [State.after_of_inactive hs, State.after_of_inactive hs, State.after_of_inactive hs]
  | true =>
    have hactive : (s.after d).active = true := by rw [State.after_of_active hs]; exact hs
    rw [State.after_of_active hactive, State.after_of_active hs, State.after_of_active hs, Effect.seq,
      ← List.append_assoc]

theorem has_text (a : α) : Has [(.text a : Line μ ε α)] fun _ enabled => ([(a, enabled)], enabled) := by
  intro s
  rw [preprocess_singleton]
  cases hs : s.active with
  | false => simp [Line.apply, hs, State.after]
  | true => simp [Line.apply, hs, Line.act, State.after]

theorem has_texts (as : List α) :
    Has (as.map fun a => (.text a : Line μ ε α)) fun _ enabled => (as.map fun a => (a, enabled), enabled) := by
  induction as with
  | nil =>
    intro s
    simp [State.after]
  | cons a as ih => exact (has_text a).append ih

end Has

section Emit
variable {γ : Type} [DecidableEq γ] (G : GuardStyle γ μ ε)

namespace GuardStyle

/-- The extensions within a guard. -/
def enter (g : γ) (macros : Finset μ) (enabled : Finset ε) : Finset ε :=
  if G.holds g macros then enabled ∪ G.on g else enabled

/-- The extensions after a guard. -/
def leave (g : γ) (macros : Finset μ) (enabled : Finset ε) : Finset ε :=
  if G.holds g macros then enabled \ G.on g else enabled

def move (current g : γ) (macros : Finset μ) (enabled : Finset ε) : Finset ε :=
  if g = current then enabled else G.enter g macros (G.leave current macros enabled)

/-- The effect of what is emitted, after some text with guard `current`. -/
def effectFrom (current : γ) : List (γ × Effect μ ε α) → Effect μ ε α
  | [], macros, enabled => ([], G.leave current macros enabled)
  | (g, d) :: pieces, macros, enabled =>
    let enabled := G.move current g macros enabled
    if G.holds g macros then d.seq (effectFrom g pieces) macros enabled else effectFrom g pieces macros enabled

end GuardStyle

/-- Within a guard that has been opened within `conds`. -/
def Inside (g : γ) (conds : List Bool) (s : State μ ε α) : Prop :=
  s.conds = if g = G.free then conds else G.holds g s.macros :: conds

variable {G} {g current : γ} {conds : List Bool} {s : State μ ε α}

omit [DecidableEq ε] in
theorem Inside.active (h : Inside G g conds s) : s.active = (G.holds g s.macros && conds.all id) := by
  rw [State.active, h]
  split
  · next hfree => rw [hfree, G.holds_free, Bool.true_and]
  · rfl

theorem Inside.preprocess_closing (h : Inside G g conds s) : preprocess (G.closing g) s =
    some { s with conds, enabled := if conds.all id then G.leave g s.macros s.enabled else s.enabled } := by
  by_cases hfree : g = G.free
  · have hconds : s.conds = conds := h.trans (if_pos hfree)
    rw [GuardStyle.closing, if_pos hfree, preprocess_nil, GuardStyle.leave, hfree, G.on_free, Finset.sdiff_empty, ite_self,
      ite_self, ← hconds]
  · rw [ConditionalText.preprocess_closing G hfree (h.trans (if_neg hfree)), h.active, GuardStyle.leave]
    cases conds.all id <;> cases G.holds g s.macros <;> rfl

theorem preprocess_opening_inside (g : γ) (s : State μ ε α) : preprocess (G.opening g) s =
    some { s with
      conds := if g = G.free then s.conds else G.holds g s.macros :: s.conds
      enabled := if s.active then G.enter g s.macros s.enabled else s.enabled } := by
  by_cases hfree : g = G.free
  · rw [GuardStyle.opening, if_pos hfree, preprocess_nil, if_pos hfree, GuardStyle.enter, hfree, G.on_free,
      Finset.union_empty, ite_self, ite_self]
  · rw [preprocess_opening G hfree, if_neg hfree, entered, GuardStyle.enter]
    cases s.active <;> cases G.holds g s.macros <;> rfl

theorem Inside.preprocess_push (h : Inside G current conds s) (g : γ) : preprocess (G.push current g) s =
    some { s with
      conds := if g = G.free then conds else G.holds g s.macros :: conds
      enabled := if conds.all id then G.move current g s.macros s.enabled else s.enabled } := by
  by_cases hsame : g = current
  · subst hsame
    rw [GuardStyle.push, if_pos rfl, preprocess_nil, GuardStyle.move, if_pos rfl, ite_self, ← h]
  · rw [GuardStyle.push, if_neg hsame, preprocess_append, h.preprocess_closing, Option.bind_some,
      preprocess_opening_inside, GuardStyle.move, if_neg hsame]
    change some { s with
      conds := _
      enabled := if conds.all id then G.enter g s.macros (if conds.all id then _ else _) else _ } = _
    cases conds.all id <;> rfl

/-- The effects of the pieces are those of the text. -/
theorem preprocess_emitFrom {ι : Type} {l : List ι} {guard : ι → γ} {t : ι → List (Line μ ε α)} {d : ι → Effect μ ε α}
    (h : ∀ i ∈ l, Has (t i) (d i)) (hs : Inside G current conds s) :
    preprocess (G.emitFrom current (l.map fun i => (guard i, t i))) s =
      some (({ s with conds } : State μ ε α).after (G.effectFrom current (l.map fun i => (guard i, d i)))) := by
  induction l generalizing current s with
  | nil =>
    refine hs.preprocess_closing.trans (congrArg some ?_)
    cases hconds : conds.all id with
    | false => exact (State.after_of_inactive (s := { s with conds }) hconds _).symm
    | true =>
      rw [State.after_of_active (s := { s with conds }) hconds]
      simp [GuardStyle.effectFrom]
  | cons i l ih =>
    obtain ⟨hi, hl⟩ := List.forall_mem_cons.1 h
    rw [List.map_cons, List.map_cons, GuardStyle.emitFrom, preprocess_append, preprocess_append, hs.preprocess_push,
      Option.bind_some, hi, Option.bind_some]
    -- the state in which the piece begins
    let s₁ : State μ ε α := { s with
      conds := if guard i = G.free then conds else G.holds (guard i) s.macros :: conds
      enabled := if conds.all id then G.move current (guard i) s.macros s.enabled else s.enabled }
    have hs₁ : Inside G (guard i) conds s₁ := rfl
    have hafter : Inside G (guard i) conds (s₁.after (d i)) := by
      rw [Inside, State.after_conds, State.after_macros]
    refine (ih hl hafter).trans (congrArg some ?_)
    cases hconds : conds.all id with
    | false =>
      have hinactive : s₁.active = false := by rw [hs₁.active, hconds, Bool.and_false]
      rw [State.after_of_inactive hinactive, State.after_of_inactive (s := { s₁ with conds }) hconds,
        State.after_of_inactive (s := { s with conds }) hconds]
      simp [s₁, hconds]
    | true =>
      have hactive : s₁.active = G.holds (guard i) s.macros := by rw [hs₁.active, hconds, Bool.and_true]
      rw [State.after_of_active (s := { s₁.after (d i) with conds }) hconds,
        State.after_of_active (s := { s with conds }) hconds, GuardStyle.effectFrom]
      cases hholds : G.holds (guard i) s.macros with
      | false =>
        rw [State.after_of_inactive (hactive.trans hholds)]
        simp [s₁, hconds]
      | true =>
        rw [State.after_of_active (hactive.trans hholds)]
        simp [s₁, hconds, Effect.seq]

theorem has_emit {ι : Type} {l : List ι} {guard : ι → γ} {t : ι → List (Line μ ε α)} {d : ι → Effect μ ε α}
    (h : ∀ i ∈ l, Has (t i) (d i)) :
    Has (G.emit (l.map fun i => (guard i, t i))) (G.effectFrom G.free (l.map fun i => (guard i, d i))) :=
  fun s => preprocess_emitFrom h (show Inside G G.free s.conds s from (if_pos rfl).symm)

end Emit

/-! ## What effects come to -/

section EffectFrom
variable {γ : Type} [DecidableEq γ] {G : GuardStyle γ μ ε} {ι : Type} {l : List ι} {guard : ι → γ} {d : ι → Effect μ ε α}
  {macros : Finset μ} {current : γ}

omit [DecidableEq γ] in
theorem enter_empty (g : γ) : G.enter g macros ∅ = if G.holds g macros then G.on g else ∅ := by
  rw [GuardStyle.enter, Finset.empty_union]

omit [DecidableEq γ] in
theorem leave_of_subset {enabled : Finset ε} (h : enabled ⊆ G.enter current macros ∅) : G.leave current macros enabled = ∅ := by
  rw [enter_empty] at h
  rw [GuardStyle.leave]
  split
  · next hholds =>
    rw [if_pos hholds] at h
    exact Finset.sdiff_eq_empty_iff_subset.2 h
  · next hholds =>
    rw [if_neg hholds] at h
    exact Finset.subset_empty.1 h

theorem move_of_subset {enabled : Finset ε} (h : enabled ⊆ G.enter current macros ∅) {g : γ} (hne : g ≠ current) :
    G.move current g macros enabled = G.enter g macros ∅ := by
  rw [GuardStyle.move, if_neg hne, leave_of_subset h]

theorem move_subset {enabled : Finset ε} (h : enabled ⊆ G.enter current macros ∅) (g : γ) :
    G.move current g macros enabled ⊆ G.enter g macros ∅ := by
  by_cases hsame : g = current
  · rw [GuardStyle.move, if_pos hsame, hsame]
    exact h
  · rw [move_of_subset h hsame]

/-- What is kept are the pieces whose guards hold. -/
theorem effectFrom_contents {c : ι → List α} (h : ∀ i ∈ l, ∀ enabled, (d i macros enabled).1.map Prod.fst = c i)
    (enabled : Finset ε) : (G.effectFrom current (l.map fun i => (guard i, d i)) macros enabled).1.map Prod.fst =
      (l.filter fun i => G.holds (guard i) macros).flatMap c := by
  induction l generalizing current enabled with
  | nil => rfl
  | cons i l ih =>
    obtain ⟨hi, hl⟩ := List.forall_mem_cons.1 h
    rw [List.map_cons, GuardStyle.effectFrom, List.filter_cons]
    split
    · rw [Effect.seq, List.map_append, hi, ih hl, List.flatMap_cons]
    · exact ih hl _

/-- Pieces that enable nothing beside their guards leave nothing enabled. -/
theorem effectFrom_closed (h : ∀ i ∈ l, ∀ enabled ⊆ G.enter (guard i) macros ∅,
      (d i macros enabled).2 ⊆ G.enter (guard i) macros ∅)
    {enabled : Finset ε} (henabled : enabled ⊆ G.enter current macros ∅) :
    (G.effectFrom current (l.map fun i => (guard i, d i)) macros enabled).2 = ∅ := by
  induction l generalizing current enabled with
  | nil => exact leave_of_subset henabled
  | cons i l ih =>
    obtain ⟨hi, hl⟩ := List.forall_mem_cons.1 h
    have hmove := move_subset henabled (guard i)
    rw [List.map_cons, GuardStyle.effectFrom]
    split
    · exact ih hl (hi _ hmove)
    · exact ih hl hmove

/-- Pieces that leave the extensions as they were have each those of its own guard. -/
theorem effectFrom_fst (h : ∀ i ∈ l, (d i macros (G.enter (guard i) macros ∅)).2 = G.enter (guard i) macros ∅) :
    (G.effectFrom current (l.map fun i => (guard i, d i)) macros (G.enter current macros ∅)).1 =
      (l.filter fun i => G.holds (guard i) macros).flatMap fun i => (d i macros (G.enter (guard i) macros ∅)).1 := by
  induction l generalizing current with
  | nil => rfl
  | cons i l ih =>
    obtain ⟨hi, hl⟩ := List.forall_mem_cons.1 h
    have hmove : G.move current (guard i) macros (G.enter current macros ∅) = G.enter (guard i) macros ∅ := by
      by_cases hsame : guard i = current
      · rw [GuardStyle.move, if_pos hsame, hsame]
      · exact move_of_subset subset_rfl hsame
    rw [List.map_cons, GuardStyle.effectFrom, hmove, List.filter_cons]
    split
    · rw [Effect.seq, hi, ih hl, List.flatMap_cons]
    · exact ih hl

end EffectFrom

/-! ## What is defined -/

theorem preprocess_defines (ms : List μ) (s : State μ ε α) : preprocess (ms.map .define) s =
    some { s with macros := if s.active then s.macros ∪ ms.toFinset else s.macros } := by
  induction ms generalizing s with
  | nil => simp only [List.map_nil, preprocess_nil, List.toFinset_nil, Finset.union_empty, ite_self]
  | cons m ms ih =>
    rw [List.map_cons, preprocess_cons]
    cases hs : s.active with
    | false =>
      have happly : (Line.define m : Line μ ε α).apply s = some s := by simp [Line.apply, hs]
      rw [happly, Option.bind_some, ih, hs]
      rfl
    | true =>
      have happly : (Line.define m : Line μ ε α).apply s = some { s with macros := insert m s.macros } := by
        simp [Line.apply, hs, Line.act]
      have hactive : ({ s with macros := insert m s.macros } : State μ ε α).active = true := hs
      rw [happly, Option.bind_some, ih, hactive]
      congr 2
      ext x
      simp only [if_true, Finset.mem_union, Finset.mem_insert, List.toFinset_cons]
      tauto

theorem tidy_defines (X : Finset ε) (ms : List μ) : Tidy X (ms.map fun m => (.define m : Line μ ε α)) := by
  rw [List.map_eq_flatMap]
  exact tidy_flatMap fun m _ => tidy_define X m

section Defines
variable {γ : Type} [DecidableEq γ] (G : GuardStyle γ μ ε)

/-- What a guard defines, after the macros so far. -/
def GuardStyle.defineIn (macros : Finset μ) (p : γ × List μ) : Finset μ :=
  if G.holds p.1 macros then macros ∪ p.2.toFinset else macros

theorem preprocess_guarded_defines (g : γ) (ms : List μ) {s : State μ ε α} (hg : Disjoint s.enabled (G.on g)) :
    preprocess (G.guarded g (ms.map .define)) s =
      some { s with macros := if s.active then G.defineIn s.macros (g, ms) else s.macros } := by
  obtain ⟨s', h', hrun⟩ := preprocess_guarded G (tidy_defines ∅ ms) (Finset.disjoint_empty_right _)
    (Finset.disjoint_empty_right _) hg
  rw [hrun, GuardStyle.defineIn]
  congr 1
  by_cases hfree : g = G.free
  · rw [if_pos hfree] at h'
    obtain rfl := Option.some.inj (h'.run.symm.trans (preprocess_defines ms s))
    simp only [hfree, GuardStyle.holds_free, if_true]
    rfl
  · rw [if_neg hfree] at h'
    obtain rfl := Option.some.inj (h'.run.symm.trans (preprocess_defines ms _))
    rw [left, active_entered, entered]
    dsimp only
    cases s.active with
    | false => rfl
    | true =>
      cases G.holds g s.macros with
      | false => rfl
      | true => rfl

/-- Definitions in guards that are left open: each guard sees what those before have defined. -/
theorem preprocess_emit_defines {pieces : List (γ × List μ)} {s : State μ ε α}
    (h : ∀ p ∈ pieces, Disjoint s.enabled (G.on p.1)) :
    preprocess (G.emit (pieces.map fun p => (p.1, p.2.map .define))) s =
      some { s with macros := if s.active then pieces.foldl G.defineIn s.macros else s.macros } := by
  have htidy : ∀ p ∈ pieces.map fun p => (p.1, p.2.map fun m => (.define m : Line μ ε α)),
      Tidy ∅ p.2 ∧ Disjoint (G.on p.1) ∅ := by
    intro p hp
    obtain ⟨q, -, rfl⟩ := List.mem_map.1 hp
    exact ⟨tidy_defines ∅ q.2, Finset.disjoint_empty_right _⟩
  rw [preprocess_emit G htidy (Finset.disjoint_empty_right _), GuardStyle.emitEach, List.flatMap_map]
  clear htidy
  induction pieces generalizing s with
  | nil => simp
  | cons p pieces ih =>
    obtain ⟨hp, hpieces⟩ := List.forall_mem_cons.1 h
    rw [List.flatMap_cons, preprocess_append, preprocess_guarded_defines G p.1 p.2 hp, Option.bind_some,
      ih (by exact hpieces)]
    change some { s with macros := if s.active then _ else _ } = _
    cases s.active with
    | false => rfl
    | true => rfl

end Defines

/-! ## Text that needs other text -/

section Needs

/-- Each piece with those before it. -/
def EachAfter (P : List α → α → Prop) : List α → List α → Prop
  | _, [] => True
  | earlier, a :: l => P earlier a ∧ EachAfter P (earlier ++ [a]) l

theorem eachAfter_append {P : List α → α → Prop} {earlier l l' : List α} :
    EachAfter P earlier (l ++ l') ↔ EachAfter P earlier l ∧ EachAfter P (earlier ++ l) l' := by
  induction l generalizing earlier with
  | nil => rw [List.nil_append, List.append_nil, EachAfter, true_and]
  | cons a l ih => rw [List.cons_append, EachAfter, EachAfter, ih, and_assoc, List.append_assoc, List.singleton_append]

theorem eachAfter_iff {P : List α → α → Prop} {earlier l : List α} :
    EachAfter P earlier l ↔ ∀ p a q, l = p ++ a :: q → P (earlier ++ p) a := by
  constructor
  · rintro h p a q rfl
    exact (eachAfter_append.1 h).2.1
  · intro h
    induction l generalizing earlier with
    | nil => trivial
    | cons a l ih =>
      refine ⟨by simpa using h [] a l rfl, ih fun p b q hsplit => ?_⟩
      rw [List.append_assoc]
      exact h (a :: p) b q (by rw [hsplit]; rfl)

/-- Every piece comes after those that it needs. -/
def AfterNeeds (needs : α → List α) (l : List α) : Prop := ∀ p a q, l = p ++ a :: q → ∀ b ∈ needs a, b ∈ p

/-- Of the pieces that each test some macros, those that are kept. -/
def keptUnder (macros : Finset μ) (items : List (Finset μ × α)) : List α :=
  (items.filter fun i => decide (i.1 ⊆ macros)).map Prod.snd

theorem keptUnder_split {macros : Finset μ} {items : List (Finset μ × α)} {p q : List α} {a : α}
    (h : keptUnder macros items = p ++ a :: q) : ∃ p' tested q', items = p' ++ (tested, a) :: q' ∧
      keptUnder macros p' = p ∧ tested ⊆ macros := by
  induction items generalizing p with
  | nil => simp [keptUnder] at h
  | cons i items ih =>
    have hskip : ∀ {p₁ : List α}, keptUnder macros items = p₁ ++ a :: q → keptUnder macros [i] ++ p₁ = p →
        ∃ p' tested q', i :: items = p' ++ (tested, a) :: q' ∧ keptUnder macros p' = p ∧ tested ⊆ macros := by
      intro p₁ hitems hp
      obtain ⟨p', tested, q', rfl, hp', htested⟩ := ih hitems
      refine ⟨i :: p', tested, q', rfl, ?_, htested⟩
      rw [← hp, ← hp', ← List.singleton_append, keptUnder, List.filter_append, List.map_append]
      rfl
    by_cases hi : i.1 ⊆ macros
    · have hhead : keptUnder macros (i :: items) = i.2 :: keptUnder macros items := by simp [keptUnder, hi]
      rw [hhead] at h
      cases p with
      | nil =>
        obtain ⟨rfl, -⟩ := List.cons.inj h
        exact ⟨[], i.1, items, rfl, rfl, hi⟩
      | cons b p =>
        obtain ⟨rfl, hitems⟩ := List.cons.inj h
        exact hskip hitems (by simp [keptUnder, hi])
    · have hhead : keptUnder macros (i :: items) = keptUnder macros items := by simp [keptUnder, hi]
      exact hskip (hhead ▸ h) (by simp [keptUnder, hi])

/-- Whatever is defined, every piece that is kept comes after those that it needs: each of these must stand before
it once where nothing is tested that it does not test itself. -/
theorem afterNeeds_iff {needs : α → List α} {items : List (Finset μ × α)} :
    (∀ macros, AfterNeeds needs (keptUnder macros items)) ↔
      ∀ p i q, items = p ++ i :: q → ∀ b ∈ needs i.2, ∃ j ∈ p, j.2 = b ∧ j.1 ⊆ i.1 := by
  constructor
  · rintro h p i q rfl b hb
    -- Define what the piece tests, and no more.
    have hsplit : keptUnder i.1 (p ++ i :: q) = keptUnder i.1 p ++ i.2 :: keptUnder i.1 q := by
      simp [keptUnder, List.filter_append]
    obtain ⟨j, hj, rfl⟩ := List.mem_map.1 (h i.1 _ _ _ hsplit b hb)
    obtain ⟨hj, htested⟩ := List.mem_filter.1 hj
    exact ⟨j, hj, rfl, of_decide_eq_true htested⟩
  · intro h macros p a q hsplit b hb
    obtain ⟨p', tested, q', hitems, rfl, htested⟩ := keptUnder_split hsplit
    obtain ⟨j, hj, rfl, hsubset⟩ := h p' _ q' hitems b hb
    exact List.mem_map.2 ⟨j, List.mem_filter.2 ⟨hj, decide_eq_true (hsubset.trans htested)⟩, rfl⟩

end Needs

end OpenCRun.ConditionalText
