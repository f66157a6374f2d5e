import Mathlib.Logic.Function.Basic
import OpenCRun.Lib.Runs
/-!
# Linearization of operations on one location

Threads call operations on a location. A call takes several steps, each with at
most one access to the location, and the steps of the threads interleave. An
implementation linearizes when each call has one step at which it takes effect,
and says of every place in a call whether that step has been taken.
-/
namespace Lib.Linearization

open Runs Function

variable {ω V π : Type}

/-! ## Effects -/

/-- An operation takes effect, in a step of a thread. -/
structure Effect (ω : Type) where
  time : Nat
  thread : Nat
  op : ω

/-- The values of a location, of which each comes from the one before by an effect or is the same: those of the past, and
the last one. -/
inductive Trace (apply : ω → V → V) (v₀ : V) : List (Effect ω) → List V → V → Prop
  | start : Trace apply v₀ [] [] v₀
  | effect {effects : List (Effect ω)} {past : List V} {v : V} (thread : Nat) (op : ω) (h : Trace apply v₀ effects past v) :
      Trace apply v₀ (effects ++ [⟨past.length, thread, op⟩]) (past ++ [v]) (apply op v)
  | skip {effects : List (Effect ω)} {past : List V} {v : V} (h : Trace apply v₀ effects past v) :
      Trace apply v₀ effects (past ++ [v]) v

/-- Step by step, what the effects do to the values. -/
structure Explains (apply : ω → V → V) (effects : List (Effect ω)) (values : List V) : Prop where
  ordered : effects.Pairwise fun e e' => e.time < e'.time
  effect : ∀ e ∈ effects, ∃ v, values[e.time]? = some v ∧ values[e.time + 1]? = some (apply e.op v)
  other : ∀ k, k + 1 < values.length → (∀ e ∈ effects, e.time ≠ k) → values[k + 1]? = values[k]?

section Trace
variable {apply : ω → V → V} {v₀ v : V} {effects : List (Effect ω)} {past : List V}

theorem Trace.time_lt (h : Trace apply v₀ effects past v) : ∀ e ∈ effects, e.time < past.length := by
  induction h with
  | start => exact nofun
  | effect thread op h ih =>
    intro e he
    rw [List.length_append]
    rcases List.mem_append.1 he with he | he
    · exact Nat.lt_succ_of_lt (ih e he)
    · rw [List.mem_singleton.1 he]
      exact Nat.lt_succ_self _
  | skip h ih =>
    intro e he
    rw [List.length_append]
    exact Nat.lt_succ_of_lt (ih e he)

/-- No update is lost: the last value is the first one with all the effects, one after the other. -/
theorem Trace.foldl (h : Trace apply v₀ effects past v) : effects.foldl (fun v e => apply e.op v) v₀ = v := by
  induction h with
  | start => rfl
  | effect thread op h ih => rw [List.foldl_append, ih]; rfl
  | skip h ih => exact ih

/-- The value before the last step and the one after it. -/
theorem getElem?_last_step (past : List V) (v v' : V) : (past ++ [v] ++ [v'])[past.length]? = some v ∧
    (past ++ [v] ++ [v'])[past.length + 1]? = some v' := by
  constructor
  · rw [List.getElem?_append_left (by simp), List.getElem?_concat_length]
  · rw [← List.getElem?_concat_length (l := past ++ [v]) (a := v')]
    simp

/-- Before the last step the values are the same. -/
theorem getElem?_earlier {past : List V} {v v' : V} {k : Nat} (h : k ≤ past.length) :
    (past ++ [v] ++ [v'])[k]? = (past ++ [v])[k]? :=
  List.getElem?_append_left (by rw [List.length_append]; exact Nat.lt_succ_of_le h)

theorem Trace.explains (h : Trace apply v₀ effects past v) : Explains apply effects (past ++ [v]) := by
  induction h with
  | start => exact ⟨.nil, nofun, fun k hk => by simp at hk⟩
  | @effect effects past v thread op h ih =>
    refine ⟨?_, fun e he => ?_, fun k hk hne => ?_⟩
    · rw [List.pairwise_append]
      refine ⟨ih.ordered, List.pairwise_singleton .., fun e he e' he' => ?_⟩
      rw [List.mem_singleton.1 he']
      exact h.time_lt e he
    · rcases List.mem_append.1 he with he | he
      · obtain ⟨v', h1, h2⟩ := ih.effect e he
        have hlt := h.time_lt e he
        exact ⟨v', by rw [getElem?_earlier (Nat.le_of_lt hlt), h1], by rw [getElem?_earlier hlt, h2]⟩
      · rw [List.mem_singleton.1 he]
        exact ⟨v, getElem?_last_step past v _⟩
    · have hk' : k ≠ past.length := fun heq => hne _ (List.mem_append_right _ (List.mem_singleton_self _)) heq.symm
      simp only [List.length_append, List.length_singleton] at hk
      have hlt : k < past.length := by omega
      rw [getElem?_earlier hlt, getElem?_earlier (Nat.le_of_lt hlt)]
      exact ih.other k (by simpa using hlt) fun e he => hne e (List.mem_append_left _ he)
  | @skip effects past v h ih =>
    refine ⟨ih.ordered, fun e he => ?_, fun k hk hne => ?_⟩
    · obtain ⟨v', h1, h2⟩ := ih.effect e he
      have hlt := h.time_lt e he
      exact ⟨v', by rw [getElem?_earlier (Nat.le_of_lt hlt), h1], by rw [getElem?_earlier hlt, h2]⟩
    · simp only [List.length_append, List.length_singleton] at hk
      rcases Nat.lt_or_ge k past.length with hlt | hge
      · rw [getElem?_earlier hlt, getElem?_earlier (Nat.le_of_lt hlt)]
        exact ih.other k (by simpa using hlt) hne
      · obtain rfl : k = past.length := by omega
        obtain ⟨h1, h2⟩ := getElem?_last_step past v v
        rw [h1, h2]

end Trace

/-! ## Implementations -/

/-- How calls run: where they start, what a step from some place does with the location, and the value with which a call
is about to return, if it is. -/
structure Implementation (ω V π : Type) where
  start : ω → π
  step : ω → π → V → π × V
  returns : π → Option V

/-- A call that has started, and when. -/
structure Pending (ω π : Type) where
  op : ω
  start : Nat
  place : π

/-- A call that has returned. -/
structure Call (ω V : Type) where
  thread : Nat
  op : ω
  start : Nat
  finish : Nat
  result : V

/-- The location, with the values that it had before each step, and the calls of the threads. -/
structure State (ω V π : Type) where
  loc : V
  past : List V := []
  pending : Nat → Option (Pending ω π) := fun _ => none
  completed : List (Call ω V) := []

inductive Label (ω : Type) where
  | call (thread : Nat) (op : ω)
  | step (thread : Nat)

/-- All the values that the location had, up to now. -/
def State.values (s : State ω V π) : List V := s.past ++ [s.loc]

section System
variable (I : Implementation ω V π)

def step (s : State ω V π) : Label ω → Option (State ω V π)
  | .call i op =>
    match s.pending i with
    | some _ => none
    | none => some { s with
        past := s.past ++ [s.loc], pending := update s.pending i (some ⟨op, s.past.length, I.start op⟩) }
  | .step i =>
    match s.pending i with
    | none => none
    | some p =>
      match I.returns p.place with
      | some v => some { s with
          past := s.past ++ [s.loc]
          pending := update s.pending i none
          completed := s.completed ++ [⟨i, p.op, p.start, s.past.length, v⟩] }
      | none =>
        let (place, loc) := I.step p.op p.place s.loc
        -- A step within a call: it alone changes the location.
        some { s with loc, past := s.past ++ [s.loc], pending := update s.pending i (some { p with place }) }

/-- Any number of threads, on a location with some first value. -/
def system (v₀ : V) : System (State ω V π) (Label ω) where
  init s := s = { loc := v₀ }
  step s l s' := step I s l = some s'

/-- From each place a call has taken effect already, returning some value, or has not; a step of one that has not may be
the one at which it does. -/
structure Linearizes (apply : ω → V → V) (taken : ω → π → Option V) : Prop where
  start : ∀ op, taken op (I.start op) = none
  returns : ∀ op p v, I.returns p = some v → taken op p = some v
  kept : ∀ op p v loc, taken op p = some v → I.returns p = none →
    taken op (I.step op p loc).1 = some v ∧ (I.step op p loc).2 = loc
  takes : ∀ op p loc, taken op p = none → I.returns p = none →
    (taken op (I.step op p loc).1 = none ∧ (I.step op p loc).2 = loc) ∨
    (taken op (I.step op p loc).1 = some loc ∧ (I.step op p loc).2 = apply op loc)

end System

/-- A call's effect: within the call, the only one of its thread there, on the value that the call returns. -/
structure EffectOf (effects : List (Effect ω)) (values : List V) (c : Call ω V) (e : Effect ω) : Prop where
  mem : e ∈ effects
  thread : e.thread = c.thread
  op : e.op = c.op
  within : c.start < e.time ∧ e.time < c.finish
  result : values[e.time]? = some c.result
  only : ∀ e' ∈ effects, e'.thread = c.thread → c.start < e'.time → e'.time < c.finish → e' = e

/-- The effects explain all the values of the location; each call that has returned has one of them, and each one is of
a call that has returned or of one that is pending. -/
structure Linearized (apply : ω → V → V) (s : State ω V π) (effects : List (Effect ω)) : Prop where
  explains : Explains apply effects s.values
  calls : ∀ c ∈ s.completed, ∃ e, EffectOf effects s.values c e
  owned : ∀ e ∈ effects, (∃ c ∈ s.completed, EffectOf effects s.values c e) ∨
    ∃ p, s.pending e.thread = some p ∧ p.op = e.op ∧ p.start < e.time

/-! ## The invariant -/

section Invariant
variable {I : Implementation ω V π} {apply : ω → V → V} {taken : ω → π → Option V} {v₀ : V}

/-- What is known of a pending call: it has no effect yet, or one, on the value that it will return. -/
def PendingOk (taken : ω → π → Option V) (effects : List (Effect ω)) (values : List V) (i : Nat) (p : Pending ω π) : Prop :=
  match taken p.op p.place with
  | none => ∀ e ∈ effects, e.thread = i → ¬ p.start < e.time
  | some v => ∃ e ∈ effects, e.thread = i ∧ e.op = p.op ∧ p.start < e.time ∧ values[e.time]? = some v ∧
      ∀ e' ∈ effects, e'.thread = i → p.start < e'.time → e' = e

structure Inv (apply : ω → V → V) (taken : ω → π → Option V) (v₀ : V) (s : State ω V π) (effects : List (Effect ω)) :
    Prop where
  trace : Trace apply v₀ effects s.past s.loc
  finished : ∀ c ∈ s.completed, c.finish < s.past.length
  calls : ∀ c ∈ s.completed, ∃ e, EffectOf effects s.values c e
  pendings : ∀ i p, s.pending i = some p → p.start < s.past.length ∧ PendingOk taken effects s.values i p
  owned : ∀ e ∈ effects, (∃ c ∈ s.completed, EffectOf effects s.values c e) ∨
    ∃ p, s.pending e.thread = some p ∧ p.op = e.op ∧ p.start < e.time

variable {s s' : State ω V π} {effects : List (Effect ω)}

theorem Inv.linearized (h : Inv apply taken v₀ s effects) : Linearized apply s effects := ⟨h.trace.explains, h.calls, h.owned⟩

section Extend
variable {past : List V} {v : V} (v' : V) {extra : List (Effect ω)} (hbefore : ∀ e ∈ effects, e.time < past.length)
include hbefore

/-- A later effect is not within a call that has returned. -/
theorem EffectOf.extend {c : Call ω V} {e : Effect ω} (h : EffectOf effects (past ++ [v]) c e)
    (hextra : ∀ e ∈ extra, e.time = past.length) (hfinish : c.finish < past.length) :
    EffectOf (effects ++ extra) (past ++ [v] ++ [v']) c e := by
  refine ⟨List.mem_append_left _ h.mem, h.thread, h.op, h.within, ?_, fun e' he' hthread hstart hend => ?_⟩
  · rw [getElem?_earlier (Nat.le_of_lt (hbefore e h.mem))]
    exact h.result
  · rcases List.mem_append.1 he' with he' | he'
    · exact h.only e' he' hthread hstart hend
    · have htime := hextra e' he'
      omega

/-- The effect of another thread says nothing of a pending call. -/
theorem PendingOk.extend {j : Nat} {p : Pending ω π} (h : PendingOk taken effects (past ++ [v]) j p)
    (hextra : ∀ e ∈ extra, e.thread ≠ j) : PendingOk taken (effects ++ extra) (past ++ [v] ++ [v']) j p := by
  unfold PendingOk at h ⊢
  split at h
  · intro e he hthread
    rcases List.mem_append.1 he with he | he
    · exact h e he hthread
    · exact absurd hthread (hextra e he)
  · obtain ⟨e, he, hthread, hop, hstart, hvalue, honly⟩ := h
    refine ⟨e, List.mem_append_left _ he, hthread, hop, hstart, ?_, fun e' he' hthread' hstart' => ?_⟩
    · rw [getElem?_earlier (Nat.le_of_lt (hbefore e he))]
      exact hvalue
    · rcases List.mem_append.1 he' with he' | he'
      · exact honly e' he' hthread' hstart'
      · exact absurd hthread' (hextra e' he')

end Extend

theorem Inv.call (h : Inv apply taken v₀ s effects) (hlaw : Linearizes I apply taken) {i : Nat} (hidle : s.pending i = none)
    (op : ω) : Inv apply taken v₀ { s with
      past := s.past ++ [s.loc], pending := update s.pending i (some ⟨op, s.past.length, I.start op⟩) } effects := by
  have hbefore := h.trace.time_lt
  refine ⟨h.trace.skip, fun c hc => ?_, fun c hc => ?_, fun j p hp => ?_, fun e he => ?_⟩
  · rw [List.length_append]
    exact Nat.lt_succ_of_lt (h.finished c hc)
  · obtain ⟨e, he⟩ := h.calls c hc
    rw [← List.append_nil effects]
    exact ⟨e, he.extend s.loc hbefore nofun (h.finished c hc)⟩
  -- The effects that there are come before the start of the new call.
  · by_cases hji : j = i
    · subst hji
      simp only [update_self, Option.some.injEq] at hp
      subst hp
      refine ⟨by simp, ?_⟩
      unfold PendingOk
      rw [hlaw.start op]
      exact fun e he _ => Nat.not_lt_of_lt (hbefore e he)
    · simp only [update_of_ne hji] at hp
      obtain ⟨hstart, hok⟩ := h.pendings j p hp
      refine ⟨?_, ?_⟩
      · rw [List.length_append]
        exact Nat.lt_succ_of_lt hstart
      · rw [← List.append_nil effects]
        exact hok.extend s.loc hbefore nofun
  · rcases h.owned e he with ⟨c, hc, hof⟩ | ⟨p, hp, hop, hstart⟩
    · rw [← List.append_nil effects]
      exact .inl ⟨c, hc, hof.extend s.loc hbefore nofun (h.finished c hc)⟩
    · have hji : e.thread ≠ i := by
        intro heq
        rw [heq, hidle] at hp
        cases hp
      exact .inr ⟨p, (update_of_ne hji ..).trans hp, hop, hstart⟩

/-- A call returns the value that its effect found. -/
theorem Inv.return (h : Inv apply taken v₀ s effects) {i : Nat} {p : Pending ω π} (hp : s.pending i = some p) {v : V}
    (htaken : taken p.op p.place = some v) : Inv apply taken v₀ { s with
      past := s.past ++ [s.loc]
      pending := update s.pending i none
      completed := s.completed ++ [⟨i, p.op, p.start, s.past.length, v⟩] } effects := by
  have hbefore := h.trace.time_lt
  obtain ⟨-, hok⟩ := h.pendings i p hp
  unfold PendingOk at hok
  rw [htaken] at hok
  obtain ⟨e, he, hthread, hop, hstart, hvalue, honly⟩ := hok
  -- The effect that was found while the call was pending is the one of the completed call.
  have hnew : EffectOf effects (s.values ++ [s.loc]) ⟨i, p.op, p.start, s.past.length, v⟩ e :=
    ⟨he, hthread, hop, ⟨hstart, hbefore e he⟩, by
      rw [State.values, getElem?_earlier (Nat.le_of_lt (hbefore e he))]
      exact hvalue, fun e' he' hthread' hstart' _ => honly e' he' hthread' hstart'⟩
  refine ⟨h.trace.skip, fun c hc => ?_, fun c hc => ?_, fun j q hq => ?_, fun e' he' => ?_⟩
  · rw [List.length_append]
    rcases List.mem_append.1 hc with hc | hc
    · exact Nat.lt_succ_of_lt (h.finished c hc)
    · rw [List.mem_singleton.1 hc]
      exact Nat.lt_succ_self _
  · rcases List.mem_append.1 hc with hc | hc
    · obtain ⟨e', he'⟩ := h.calls c hc
      rw [← List.append_nil effects]
      exact ⟨e', he'.extend s.loc hbefore nofun (h.finished c hc)⟩
    · rw [List.mem_singleton.1 hc]
      exact ⟨e, hnew⟩
  · have hji : j ≠ i := by
      rintro rfl
      simp only [update_self, reduceCtorEq] at hq
    simp only [update_of_ne hji] at hq
    obtain ⟨hstart', hok⟩ := h.pendings j q hq
    refine ⟨?_, ?_⟩
    · rw [List.length_append]
      exact Nat.lt_succ_of_lt hstart'
    · rw [← List.append_nil effects]
      exact hok.extend s.loc hbefore nofun
  · rcases h.owned e' he' with ⟨c, hc, hof⟩ | ⟨q, hq, hop', hstart'⟩
    · rw [← List.append_nil effects]
      exact .inl ⟨c, List.mem_append_left _ hc, hof.extend s.loc hbefore nofun (h.finished c hc)⟩
    · by_cases hji : e'.thread = i
      · rw [hji, hp] at hq
        obtain rfl := Option.some.inj hq
        obtain rfl := honly e' he' hji hstart'
        exact .inl ⟨_, List.mem_append_right _ (List.mem_singleton_self _), hnew⟩
      · exact .inr ⟨q, (update_of_ne hji ..).trans hq, hop', hstart'⟩

/-- A call goes on, with its effect or without one. -/
theorem Inv.advance (h : Inv apply taken v₀ s effects) {i : Nat} {p : Pending ω π} (hp : s.pending i = some p) {loc : V}
    {place : π} {extra : List (Effect ω)} (hextra : ∀ e ∈ extra, e = ⟨s.past.length, i, p.op⟩)
    (htrace : Trace apply v₀ (effects ++ extra) (s.past ++ [s.loc]) loc)
    (hok : PendingOk taken (effects ++ extra) (s.past ++ [s.loc] ++ [loc]) i { p with place }) :
    Inv apply taken v₀ { s with
      loc, past := s.past ++ [s.loc], pending := update s.pending i (some { p with place }) } (effects ++ extra) := by
  have hbefore := h.trace.time_lt
  have htime : ∀ e ∈ extra, e.time = s.past.length := fun e he => by rw [hextra e he]
  refine ⟨htrace, fun c hc => ?_, fun c hc => ?_, fun j q hq => ?_, fun e he => ?_⟩
  · rw [List.length_append]
    exact Nat.lt_succ_of_lt (h.finished c hc)
  · obtain ⟨e, he⟩ := h.calls c hc
    exact ⟨e, he.extend loc hbefore htime (h.finished c hc)⟩
  · by_cases hji : j = i
    · subst hji
      simp only [update_self, Option.some.injEq] at hq
      subst hq
      refine ⟨?_, hok⟩
      rw [List.length_append]
      exact Nat.lt_succ_of_lt (h.pendings j p hp).1
    · simp only [update_of_ne hji] at hq
      obtain ⟨hstart, hok'⟩ := h.pendings j q hq
      refine ⟨?_, hok'.extend loc hbefore fun e he => ?_⟩
      · rw [List.length_append]
        exact Nat.lt_succ_of_lt hstart
      · rw [hextra e he]
        exact fun heq => hji heq.symm
  · rcases List.mem_append.1 he with he | he
    · rcases h.owned e he with ⟨c, hc, hof⟩ | ⟨q, hq, hop, hstart⟩
      · exact .inl ⟨c, hc, hof.extend loc hbefore htime (h.finished c hc)⟩
      -- The call is the same, at another place.
      · by_cases hji : e.thread = i
        · rw [hji, hp] at hq
          obtain rfl := Option.some.inj hq
          refine .inr ⟨{ p with place }, ?_, hop, hstart⟩
          rw [hji]
          exact update_self ..
        · exact .inr ⟨q, (update_of_ne hji ..).trans hq, hop, hstart⟩
    · rw [hextra e he]
      exact .inr ⟨{ p with place }, update_self .., rfl, (h.pendings i p hp).1⟩

theorem Inv.step (h : Inv apply taken v₀ s effects) (hlaw : Linearizes I apply taken) {i : Nat} {p : Pending ω π}
    (hp : s.pending i = some p) (hreturns : I.returns p.place = none) : ∃ effects', Inv apply taken v₀ { s with
      loc := (I.step p.op p.place s.loc).2
      past := s.past ++ [s.loc]
      pending := update s.pending i (some { p with place := (I.step p.op p.place s.loc).1 }) } effects' := by
  have hbefore := h.trace.time_lt
  have hok := (h.pendings i p hp).2
  -- After its effect a call leaves the location alone; before, the step may be the one.
  cases htaken : taken p.op p.place with
  | some v =>
    obtain ⟨hplace, hloc⟩ := hlaw.kept p.op p.place v s.loc htaken hreturns
    refine ⟨effects ++ [], h.advance hp nofun ?_ ?_⟩
    · rw [hloc, List.append_nil]
      exact h.trace.skip
    · unfold PendingOk at hok
      rw [htaken] at hok
      have hok' : PendingOk taken effects (s.past ++ [s.loc]) i { p with place := (I.step p.op p.place s.loc).1 } := by
        unfold PendingOk
        rw [hplace]
        exact hok
      exact hok'.extend _ hbefore nofun
  | none =>
    unfold PendingOk at hok
    rw [htaken] at hok
    rcases hlaw.takes p.op p.place s.loc htaken hreturns with ⟨hplace, hloc⟩ | ⟨hplace, hloc⟩
    · refine ⟨effects ++ [], h.advance hp nofun ?_ ?_⟩
      · rw [hloc, List.append_nil]
        exact h.trace.skip
      · unfold PendingOk
        rw [hplace, List.append_nil]
        exact hok
    · refine ⟨effects ++ [⟨s.past.length, i, p.op⟩], h.advance hp (fun e he => List.mem_singleton.1 he) ?_ ?_⟩
      · rw [hloc]
        exact h.trace.effect i p.op
      · unfold PendingOk
        rw [hplace]
        refine ⟨_, List.mem_append_right _ (List.mem_singleton_self _), rfl, rfl, (h.pendings i p hp).1, ?_, ?_⟩
        · exact (getElem?_last_step s.past s.loc _).1
        · intro e he hthread hstart
          rcases List.mem_append.1 he with he | he
          · exact absurd hstart (hok e he hthread)
          · exact List.mem_singleton.1 he

theorem step_inv (hlaw : Linearizes I apply taken) {l : Label ω} (h : Inv apply taken v₀ s effects)
    (hs : Linearization.step I s l = some s') : ∃ effects', Inv apply taken v₀ s' effects' := by
  unfold Linearization.step at hs
  cases l with
  | call i op =>
    cases hp : s.pending i with
    | some p => simp only [hp, reduceCtorEq] at hs
    | none =>
      simp only [hp, Option.some.injEq] at hs
      exact ⟨effects, hs ▸ h.call hlaw hp op⟩
  | step i =>
    cases hp : s.pending i with
    | none => simp only [hp, reduceCtorEq] at hs
    | some p =>
      cases hreturns : I.returns p.place with
      | some v =>
        simp only [hp, hreturns, Option.some.injEq] at hs
        exact ⟨effects, hs ▸ h.return hp (hlaw.returns p.op p.place v hreturns)⟩
      | none =>
        simp only [hp, hreturns, Option.some.injEq] at hs
        exact hs ▸ h.step hlaw hp hreturns

/-- In every reachable state there are effects that linearize it. -/
theorem reachable_inv (hlaw : Linearizes I apply taken) (hr : Reachable (system I v₀) s) :
    ∃ effects, Inv apply taken v₀ s effects := by
  have hinv : Runs.Invariant (system I v₀) fun s => ∃ effects, Inv apply taken v₀ s effects := by
    refine ⟨fun s hs => ?_, fun s l s' ⟨effects, h⟩ hs => step_inv hlaw h hs⟩
    obtain rfl := hs
    exact ⟨[], .start, nofun, nofun, nofun, nofun⟩
  exact hinv.reachable hr

/-- With no call pending, the operations of the effects are those of the calls. -/
theorem Inv.ops_iff (h : Inv apply taken v₀ s effects) (hidle : ∀ i, s.pending i = none) (op : ω) :
    op ∈ effects.map Effect.op ↔ op ∈ s.completed.map Call.op := by
  constructor
  · intro hop
    obtain ⟨e, he, rfl⟩ := List.mem_map.1 hop
    rcases h.owned e he with ⟨c, hc, hof⟩ | ⟨p, hp, -⟩
    · rw [hof.op]
      exact List.mem_map_of_mem hc
    · rw [hidle] at hp
      cases hp
  · intro hop
    obtain ⟨c, hc, rfl⟩ := List.mem_map.1 hop
    obtain ⟨e, hof⟩ := h.calls c hc
    rw [← hof.op]
    exact List.mem_map_of_mem hof.mem

end Invariant

end Lib.Linearization
