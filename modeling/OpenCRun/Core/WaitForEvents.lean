import Mathlib.Logic.Function.Basic
import OpenCRun.Core.EventObject
/-!
# Waiting for events

`clWaitForEvents` of `libOpenCRun/Event.cpp`: it looks at its list, and then
waits for the events one after the other, while other threads go on with them.
A thread that sleeps in an event's monitor tries again when it is woken up.
-/
open Lib.Runs

namespace OpenCRun.WaitForEvents

open EventStatus

inductive ErrCode where
  | success
  | invalidValue
  | invalidEvent
  | invalidContext
  | execStatusErrorForEventsInWaitList
  deriving DecidableEq, Repr

/-- What a caller gives: an array of `numEvents` events, or null. -/
structure Args where
  numEvents : Nat
  eventList : Option (Nat → Option Nat)

/-- The first loop, and the tests before it. -/
def validate (context : Nat → Nat) (args : Args) : Option ErrCode :=
  match args.numEvents, args.eventList with
  | 0, _ => some .invalidValue
  | _ + 1, none => some .invalidValue
  | n + 1, some list =>
    match list 0 with
    | none => some .invalidEvent
    | some fst =>
      (List.range' 1 n).findSome? fun i =>
        match list i with
        | none => some .invalidEvent
        | some cur => if context cur ≠ context fst then some .invalidContext else none

/-- The events of the list, in its order. -/
def Args.events (args : Args) : List Nat := (List.range args.numEvents).filterMap fun i => args.eventList.bind (· i)

/-- All events of a context, and where the second loop is: the events that it still has. -/
structure State (types : Nat → EventType) where
  events : (i : Nat) → Event (types i)
  rest : List Nat
  errDetected : Bool := false
  result : Option ErrCode := none

section Loop
variable {types : Nat → EventType}

/-- A step of the loop. Once an error is detected the other operand of `||` is not evaluated. -/
def turn (thread : Nat) (s : State types) : State types :=
  match s.result, s.rest with
  | some _, _ => s
  | none, [] =>
    { s with result := some (if s.errDetected then .execStatusErrorForEventsInWaitList else .success) }
  | none, i :: rest =>
    if s.errDetected then { s with rest }
    else
      let (e, r) := (s.events i).wait thread
      let events := Function.update s.events i e
      match r with
      -- `CL_SUCCESS` is the status of an event that has completed.
      | .returned status => { s with events, rest, errDetected := status != complete }
      | _ => { s with events }

/-- A call of another thread on an event. -/
def call (i : Nat) (c : Event.Call (types i)) (s : State types) : State types :=
  { s with events := Function.update s.events i (c.perform (s.events i)).1 }

inductive Label (types : Nat → EventType) where
  | turn
  | call (i : Nat) (c : Event.Call (types i))

def Label.run (thread : Nat) : Label types → State types → State types
  | turn => WaitForEvents.turn thread
  | call i c => WaitForEvents.call i c

end Loop

/-- A call with a list that passes the tests. Each event has come from some calls to where it is,
and ends in a status that is known beforehand: which ones fail does not depend on the order. -/
structure Wait where
  types : Nat → EventType
  context : Nat → Nat
  thread : Nat
  args : Args
  valid : validate context args = none
  past : (i : Nat) → List (Event.Call (types i))
  ends : Nat → Int
  ends_terminal : ∀ i, hasCompleted (ends i) = true
  ended : ∀ i, hasCompleted (Event.after (past i)).status = true → (Event.after (past i)).status = ends i

namespace Wait

variable (w : Wait)

def start : State w.types := { events := fun i => Event.after (w.past i), rest := w.args.events }

/-- The events end as they do. -/
def EndsAs (s : State w.types) : Label w.types → Prop
  | .turn => True
  | .call i c => hasCompleted (c.perform (s.events i)).1.status = true → (c.perform (s.events i)).1.status = w.ends i

def system : System (State w.types) (Label w.types) where
  init s := s = w.start
  step s l s' := w.EndsAs s l ∧ s' = l.run w.thread s

/-- When the function returns, all events have ended, and the error says whether one of them failed. -/
structure Right (s : State w.types) : Prop where
  all : s.result ≠ none → ∀ i ∈ w.args.events, hasCompleted (s.events i).status = true
  result : s.result = none ∨
    s.result = some .success ∧ (∀ i ∈ w.args.events, isError (s.events i).status = false) ∨
    s.result = some .execStatusErrorForEventsInWaitList ∧ ∃ i ∈ w.args.events, isError (s.events i).status = true

/-- After the first event that ends in an error there are only events that come before it too, or
have ended when the function is called. -/
def NoneSkipped : Prop :=
  ∀ done i rest, w.args.events = done ++ i :: rest → (∀ j ∈ done, w.ends j = complete) → isError (w.ends i) = true →
    ∀ j ∈ rest, j ∈ done ++ [i] ∨ hasCompleted (w.start.events j).status = true

end Wait

/-! ## Statuses over a step -/

section Steps
variable {types : Nat → EventType} {thread : Nat} {s : State types}

theorem wait_status {ty : EventType} (e : Event ty) (thread : Nat) : (e.wait thread).1.status = e.status := by
  unfold Event.wait
  split <;> rfl

/-- A turn finds the list at its end, passes an event over, waits for one that has ended, or sleeps. -/
theorem turn_cases (thread : Nat) (s : State types) (hresult : s.result = none) :
    (s.rest = [] ∧ turn thread s =
        { s with result := some (if s.errDetected then .execStatusErrorForEventsInWaitList else .success) }) ∨
    ∃ i rest, s.rest = i :: rest ∧
      (s.errDetected = true ∧ turn thread s = { s with rest } ∨
        s.errDetected = false ∧ ∃ events : (i : Nat) → Event (types i), (∀ j, (events j).status = (s.events j).status) ∧
          (hasCompleted (s.events i).status = true ∧
              turn thread s = { s with events, rest, errDetected := (s.events i).status != complete } ∨
            hasCompleted (s.events i).status = false ∧ turn thread s = { s with events })) := by
  obtain ⟨events, rest, err, result⟩ := s
  obtain rfl : result = none := hresult
  cases rest with
  | nil => exact .inl ⟨rfl, rfl⟩
  | cons i rest =>
    refine .inr ⟨i, rest, rfl, ?_⟩
    cases err with
    | true => exact .inl ⟨rfl, rfl⟩
    | false =>
      refine .inr ⟨rfl, Function.update events i ((events i).wait thread).1, fun j => ?_, ?_⟩
      · by_cases hj : j = i
        · subst hj
          rw [Function.update_self, wait_status]
        · rw [Function.update_of_ne hj]
      · cases hc : hasCompleted (events i).status with
        | true => exact .inl ⟨rfl, by simp [turn, Event.wait, hc]⟩
        | false => exact .inr ⟨rfl, by simp [turn, Event.wait, hc]⟩

theorem turn_status (j : Nat) : ((turn thread s).events j).status = (s.events j).status := by
  cases hresult : s.result with
  | some r => simp [turn, hresult]
  | none =>
    rcases turn_cases thread s hresult with ⟨-, h⟩ | ⟨i, rest, -, ⟨-, h⟩ | ⟨-, events, hsame, ⟨-, h⟩ | ⟨-, h⟩⟩⟩ <;> rw [h]
    · exact hsame j
    · exact hsame j

theorem call_self (i : Nat) (c : Event.Call (types i)) : (call i c s).events i = (c.perform (s.events i)).1 :=
  Function.update_self ..

theorem call_other {i j : Nat} (h : j ≠ i) (c : Event.Call (types i)) : (call i c s).events j = s.events j :=
  Function.update_of_ne h ..

/-- An event that has ended has ended after the next step. -/
theorem completed_run {j : Nat} (l : Label types) (h : hasCompleted (s.events j).status = true) :
    hasCompleted ((l.run thread s).events j).status = true := by
  cases l with
  | turn => rwa [Label.run, turn_status]
  | call i c =>
    by_cases hj : j = i
    · subst hj
      rw [Label.run, call_self]
      exact Event.terminal_perform _ c h
    · rwa [Label.run, call_other hj]

end Steps

/-! ## What the loop has seen -/

namespace Wait

variable {w : Wait} {s s' : State w.types}

/-- All events before are complete; or one of them is the first that failed. -/
inductive Seen (w : Wait) (s : State w.types) : List Nat → Bool → Prop
  | succeeded {done : List Nat} (h : ∀ j ∈ done, hasCompleted (s.events j).status = true ∧ w.ends j = complete) :
    Seen w s done false
  | failed {pre post : List Nat} {i : Nat}
    (h : ∀ j ∈ pre, hasCompleted (s.events j).status = true ∧ w.ends j = complete)
    (hcompleted : hasCompleted (s.events i).status = true) (herror : isError (w.ends i) = true) :
    Seen w s (pre ++ i :: post) true

structure Inv (w : Wait) (s : State w.types) : Prop where
  seen : ∃ done, done ++ s.rest = w.args.events ∧ Seen w s done s.errDetected
  ended : ∀ j, hasCompleted (s.events j).status = true → (s.events j).status = w.ends j
  started : ∀ j, hasCompleted (w.start.events j).status = true → hasCompleted (s.events j).status = true
  returned : s.result = none ∨ s.rest = [] ∧
    s.result = some (if s.errDetected then .execStatusErrorForEventsInWaitList else .success)

theorem Seen.mono {done : List Nat} {err : Bool} (h : Seen w s done err)
    (hstay : ∀ j, hasCompleted (s.events j).status = true → hasCompleted (s'.events j).status = true) :
    Seen w s' done err := by
  cases h with
  | succeeded h => exact .succeeded fun j hj => ⟨hstay j (h j hj).1, (h j hj).2⟩
  | failed h hc he => exact .failed (fun j hj => ⟨hstay j (h j hj).1, (h j hj).2⟩) (hstay _ hc) he

/-- The loop passes an event over that it does not wait for. -/
theorem Seen.skip {done : List Nat} (h : Seen w s done true) (i : Nat) : Seen w s (done ++ [i]) true := by
  cases h with
  | @failed pre post k h hc he =>
    have happ : pre ++ k :: post ++ [i] = pre ++ k :: (post ++ [i]) := by simp
    rw [happ]
    exact .failed h hc he

theorem Seen.wait {done : List Nat} {i : Nat} (h : Seen w s done false) (hc : hasCompleted (s.events i).status = true)
    (hends : (s.events i).status = w.ends i) : Seen w s (done ++ [i]) ((s.events i).status != complete) := by
  cases h with
  | succeeded h =>
    have hle := hasCompleted_iff.1 hc
    by_cases hzero : (s.events i).status = complete
    · rw [hzero, bne_self_eq_false]
      refine .succeeded fun j hj => ?_
      rcases List.mem_append.1 hj with hj | hj
      · exact h j hj
      · rw [List.mem_singleton] at hj
        subst hj
        exact ⟨hc, hends.symm.trans hzero⟩
    · rw [bne_iff_ne.2 hzero]
      refine .failed h hc ?_
      rw [← hends, isError, decide_eq_true_eq]
      exact lt_of_le_of_ne hle hzero

/-- A turn of the loop passes the event over at which it stands, or stays there. -/
theorem Inv.seen_turn (h : Inv w s) (hresult : s.result = none) :
    ∃ done, done ++ (turn w.thread s).rest = w.args.events ∧
      Seen w (turn w.thread s) done (turn w.thread s).errDetected := by
  have hstay : ∀ j, hasCompleted (s.events j).status = true → hasCompleted ((turn w.thread s).events j).status = true :=
    fun j hj => completed_run .turn hj
  obtain ⟨done, hdone, hseen⟩ := h.seen
  have hsame := hseen.mono hstay
  rcases turn_cases w.thread s hresult with ⟨-, hturn⟩ | ⟨i, rest, hrest, hturn⟩
  · refine ⟨done, ?_, ?_⟩
    · rw [hturn]
      exact hdone
    · rw [hturn] at hsame ⊢
      exact hsame
  have hnext : done ++ [i] ++ rest = w.args.events := by rw [← hdone, hrest]; simp
  rcases hturn with ⟨herr, hturn⟩ | ⟨herr, events, -, ⟨hcompleted, hturn⟩ | ⟨-, hturn⟩⟩
  · rw [herr] at hseen
    have hskip := (hseen.skip i).mono hstay
    refine ⟨done ++ [i], ?_, ?_⟩
    · rw [hturn]
      exact hnext
    · rw [hturn] at hskip ⊢
      simpa [herr] using hskip
  · rw [herr] at hseen
    have hwait := (hseen.wait hcompleted (h.ended i hcompleted)).mono hstay
    refine ⟨done ++ [i], ?_, ?_⟩
    · rw [hturn]
      exact hnext
    · rw [hturn] at hwait ⊢
      exact hwait
  · refine ⟨done, ?_, ?_⟩
    · rw [hturn]
      exact hdone
    · rw [hturn] at hsame ⊢
      exact hsame

/-- The loop returns at the end of the list only. -/
theorem turn_returned (thread : Nat) (hresult : s.result = none) :
    (turn thread s).result = none ∨ (turn thread s).rest = [] ∧
      (turn thread s).result =
        some (if (turn thread s).errDetected then .execStatusErrorForEventsInWaitList else .success) := by
  rcases turn_cases thread s hresult with
    ⟨hrest, hturn⟩ | ⟨i, rest, hrest, ⟨-, hturn⟩ | ⟨-, events, -, ⟨-, hturn⟩ | ⟨-, hturn⟩⟩⟩
  · rw [hturn]
    exact .inr ⟨hrest, rfl⟩
  · rw [hturn]
    exact .inl hresult
  · rw [hturn]
    exact .inl hresult
  · rw [hturn]
    exact .inl hresult

theorem turn_inv (h : Inv w s) : Inv w (turn w.thread s) := by
  cases hresult : s.result with
  | some r =>
    have hturn : turn w.thread s = s := by simp [turn, hresult]
    rwa [hturn]
  | none =>
    refine ⟨h.seen_turn hresult, fun j hj => ?_, fun j hj => completed_run .turn (h.started j hj),
      turn_returned w.thread hresult⟩
    rw [turn_status] at hj ⊢
    exact h.ended j hj

theorem call_inv (h : Inv w s) {i : Nat} {c : Event.Call (w.types i)} (hends : w.EndsAs s (.call i c)) :
    Inv w (call i c s) := by
  have hstay : ∀ j, hasCompleted (s.events j).status = true → hasCompleted ((call i c s).events j).status = true := by
    intro j hj
    have hrun : hasCompleted (((Label.call i c).run w.thread s).events j).status = true := completed_run _ hj
    exact hrun
  obtain ⟨done, hdone, hseen⟩ := h.seen
  refine ⟨⟨done, hdone, hseen.mono hstay⟩, fun j hj => ?_, fun j hj => hstay j (h.started j hj), h.returned⟩
  by_cases hji : j = i
  · subst hji
    rw [call_self] at hj ⊢
    exact hends hj
  · rw [call_other hji] at hj ⊢
    exact h.ended j hj

theorem inv_invariant (w : Wait) : Invariant w.system (Inv w) where
  init := by
    rintro _ rfl
    exact ⟨⟨[], rfl, .succeeded fun _ => nofun⟩, w.ended, fun _ h => h, .inl rfl⟩
  step := by
    rintro s (_ | ⟨i, c⟩) _ h ⟨hends, rfl⟩
    · exact turn_inv h
    · exact call_inv h hends

/-- What has been seen decides the result, if nothing was skipped. -/
theorem Inv.right (h : Inv w s) (hnone : w.NoneSkipped) : Right w s := by
  rcases h.returned with hresult | ⟨hrest, hresult⟩
  · exact ⟨fun hne => absurd hresult hne, .inl hresult⟩
  obtain ⟨done, hdone, hseen⟩ := h.seen
  rw [hrest, List.append_nil] at hdone
  generalize s.errDetected = err at hseen hresult
  cases hseen with
  | succeeded hall =>
    refine ⟨fun _ i hi => (hall i (hdone ▸ hi)).1, .inr (.inl ⟨hresult, fun i hi => ?_⟩)⟩
    obtain ⟨hc, hends⟩ := hall i (hdone ▸ hi)
    rw [h.ended i hc, hends]
    rfl
  | @failed pre post i hpre hc herror =>
    refine ⟨fun _ j hj => ?_, .inr (.inr ⟨hresult, i, ?_, ?_⟩)⟩
    · rw [← hdone, List.mem_append, List.mem_cons] at hj
      rcases hj with hj | rfl | hj
      · exact (hpre j hj).1
      · exact hc
      · rcases hnone pre i post hdone.symm (fun k hk => (hpre k hk).2) herror j hj with hbefore | hstart
        · rw [List.mem_append, List.mem_singleton] at hbefore
          rcases hbefore with hbefore | rfl
          · exact (hpre j hbefore).1
          · exact hc
        · exact h.started j hstart
    · rw [← hdone]
      simp
    · rw [h.ended i hc]
      exact herror

/-! ## A run that leaves an event behind -/

/-- A user event that has not ended has never been set. -/
def Unset {ty : EventType} (e : Event ty) : Prop :=
  ty = .userEvent → e.status = submitted ∨ hasCompleted e.status = true

theorem unset_perform {ty : EventType} {e : Event ty} (h : Unset e) (c : Event.Call ty) : Unset (c.perform e).1 := by
  rintro rfl
  by_cases hsame : (c.perform e).1.status = e.status
  · rw [hsame]
    exact h rfl
  · obtain ⟨status, rfl, hset, -⟩ := Event.user_changes hsame
    exact .inr (Event.set_success hset).2

theorem unset_after {ty : EventType} (calls : List (Event.Call ty)) : Unset (Event.after calls) := by
  refine foldl_invariant (I := Unset) (fun e c => (c.perform e).1) (fun e c h => unset_perform h c) ?_ calls
  rintro rfl
  exact .inl rfl

theorem unset_invariant (w : Wait) : Invariant w.system fun s => ∀ i, Unset (s.events i) where
  init := by
    rintro _ rfl i
    exact unset_after _
  step := by
    rintro s (_ | ⟨i, c⟩) _ h ⟨-, rfl⟩ j
    · intro huser
      rw [Label.run, turn_status]
      exact h j huser
    · by_cases hj : j = i
      · subst hj
        rw [Label.run, call_self]
        exact unset_perform (h j) c
      · rw [Label.run, call_other hj]
        exact h j

/-- The call that ends an event. -/
def finish : (ty : EventType) → Int → Event.Call ty
  | .internalEvent, status => .markCompleted status
  | .userEvent, status => .setUserEventStatus status

theorem finish_status {ty : EventType} {e : Event ty} {status : Int} (h : Unset e) (hs : hasCompleted status = true)
    (hopen : hasCompleted e.status = false) : ((finish ty status).perform e).1.status = status := by
  have hlt : status ≤ e.status := by
    have hnot : ¬ e.status ≤ 0 := fun hc => Bool.false_ne_true (hopen.symm.trans (hasCompleted_iff.2 hc))
    have hle := hasCompleted_iff.1 hs
    omega
  rw [Event.status_perform]
  cases ty with
  | internalEvent => simp [finish, Event.Call.signals, hs, hlt]
  | userEvent =>
    have hsub : e.status = submitted := (h rfl).resolve_right (by simp [hopen])
    rw [hsub] at hlt
    simp [finish, Event.Call.signals, hs, hsub, hlt]

theorem reachable_turn (hr : Reachable w.system s) : Reachable w.system (turn w.thread s) :=
  hr.step (l := .turn) ⟨trivial, rfl⟩

/-- Some event can end now. -/
theorem finish_one (hr : Reachable w.system s) (i : Nat) :
    ∃ events : (i : Nat) → Event (w.types i), Reachable w.system { s with events } ∧
      hasCompleted (events i).status = true ∧ ∀ j ≠ i, events j = s.events j := by
  cases hc : hasCompleted (s.events i).status with
  | true => exact ⟨s.events, hr, hc, fun _ _ => rfl⟩
  | false =>
    have hstatus := finish_status ((unset_invariant w).reachable hr i) (w.ends_terminal i) hc
    refine ⟨(call i (finish (w.types i) (w.ends i)) s).events, hr.step (l := .call i _) ⟨fun _ => hstatus, rfl⟩, ?_, ?_⟩
    · rw [call_self, hstatus]
      exact w.ends_terminal i
    · exact fun j hj => call_other hj _

theorem finish_all (l : List Nat) (hr : Reachable w.system s) :
    ∃ events : (i : Nat) → Event (w.types i), Reachable w.system { s with events } ∧
      (∀ i ∈ l, hasCompleted (events i).status = true) ∧ ∀ j ∉ l, events j = s.events j := by
  induction l with
  | nil => exact ⟨s.events, hr, fun _ => nofun, fun _ _ => rfl⟩
  | cons i l ih =>
    obtain ⟨events, hreach, hall, hother⟩ := ih
    obtain ⟨events', hreach', hi, hother'⟩ := finish_one hreach i
    refine ⟨events', hreach', fun j hj => ?_, fun j hj => ?_⟩
    · by_cases hji : j = i
      · rw [hji]
        exact hi
      · rw [hother' j hji]
        exact hall j ((List.mem_cons.1 hj).resolve_left hji)
    · rw [List.mem_cons, not_or] at hj
      exact (hother' j hj.1).trans (hother j hj.2)

/-- The loop gets past events that are complete. -/
theorem pass_completed {done rest : List Nat} (hr : Reachable w.system s) (hresult : s.result = none)
    (herr : s.errDetected = false) (hrest : s.rest = done ++ rest) (hdone : ∀ j ∈ done, (s.events j).status = complete) :
    ∃ s', Reachable w.system s' ∧ s'.result = none ∧ s'.errDetected = false ∧ s'.rest = rest ∧
      ∀ j, (s'.events j).status = (s.events j).status := by
  induction done generalizing s with
  | nil => exact ⟨s, hr, hresult, herr, hrest, fun _ => rfl⟩
  | cons i done ih =>
    have hi : (s.events i).status = complete := hdone i List.mem_cons_self
    rcases turn_cases w.thread s hresult with ⟨hnil, -⟩ | ⟨i', rest', hcons, ⟨htrue, -⟩ | ⟨-, events, hsame, hc⟩⟩
    · rw [hnil] at hrest
      cases hrest
    · rw [herr] at htrue
      cases htrue
    · obtain ⟨rfl, rfl⟩ : i' = i ∧ rest' = done ++ rest := List.cons.inj (hcons.symm.trans hrest)
      rcases hc with ⟨-, hturn⟩ | ⟨hopen, -⟩
      · have hnext : Reachable w.system (turn w.thread s) := reachable_turn hr
        rw [hturn, hi, bne_self_eq_false] at hnext
        obtain ⟨s', hr', h₁, h₂, h₃, h₄⟩ := ih hnext hresult rfl rfl fun j hj => by
          rw [hsame j]
          exact hdone j (List.mem_cons_of_mem _ hj)
        exact ⟨s', hr', h₁, h₂, h₃, fun j => (h₄ j).trans (hsame j)⟩
      · rw [hi] at hopen
        cases hopen

/-- With an error it returns whatever the other events do. -/
theorem return_error {rest : List Nat} (hr : Reachable w.system s) (hresult : s.result = none)
    (herr : s.errDetected = true) (hrest : s.rest = rest) :
    ∃ s', Reachable w.system s' ∧ s'.result ≠ none ∧ ∀ j, (s'.events j).status = (s.events j).status := by
  have hnext : Reachable w.system (turn w.thread s) := reachable_turn hr
  induction rest generalizing s with
  | nil =>
    refine ⟨turn w.thread s, hnext, ?_, fun j => turn_status j⟩
    simp [turn, hresult, hrest]
  | cons i rest ih =>
    have hturn : turn w.thread s = { s with rest } := by simp [turn, hresult, hrest, herr]
    rw [hturn] at hnext
    obtain ⟨s', hr', hne, hsame⟩ := ih hnext hresult herr rfl (reachable_turn hnext)
    exact ⟨s', hr', hne, hsame⟩

/-- An event that is skipped is not waited for: the function returns as soon as the events up to the
first one that fails have ended. -/
theorem returns_early {done rest : List Nat} {i : Nat} (hevents : w.args.events = done ++ i :: rest)
    (hdone : ∀ j ∈ done, w.ends j = complete) (herror : isError (w.ends i) = true) :
    ∃ s, Reachable w.system s ∧ s.result ≠ none ∧
      ∀ j ∉ done ++ [i], (s.events j).status = (w.start.events j).status := by
  obtain ⟨events, hr, hall, hother⟩ := finish_all (done ++ [i]) (.init rfl : Reachable w.system w.start)
  have hended : ∀ j ∈ done ++ [i], (events j).status = w.ends j := fun j hj =>
    ((inv_invariant w).reachable hr).ended j (hall j hj)
  obtain ⟨s, hs, hresult, herr, hrest, hsame⟩ := pass_completed hr rfl rfl hevents fun j hj => by
    rw [hended j (List.mem_append_left _ hj)]
    exact hdone j hj
  have hi : (s.events i).status = w.ends i := (hsame i).trans (hended i (by simp))
  have hneg : w.ends i < 0 := of_decide_eq_true herror
  have hcompleted : hasCompleted (s.events i).status = true := by
    rw [hi]
    exact w.ends_terminal i
  rcases turn_cases w.thread s hresult with ⟨hnil, -⟩ | ⟨i', rest', hcons, ⟨htrue, -⟩ | ⟨-, events', hsame', hc⟩⟩
  · rw [hnil] at hrest
    cases hrest
  · rw [herr] at htrue
    cases htrue
  obtain ⟨rfl, rfl⟩ : i' = i ∧ rest' = rest := List.cons.inj (hcons.symm.trans hrest)
  rcases hc with ⟨-, hturn⟩ | ⟨hopen, -⟩
  · have hnext : Reachable w.system (turn w.thread s) := reachable_turn hs
    have hdetected : ((s.events i').status != complete) = true := by
      rw [hi, bne_iff_ne]
      exact hneg.ne
    rw [hturn, hdetected] at hnext
    obtain ⟨s', hs', hne, hsame''⟩ := return_error hnext hresult rfl rfl
    refine ⟨s', hs', hne, fun j hj => ?_⟩
    rw [hsame'' j, hsame' j, hsame j]
    exact congrArg Event.status (hother j hj)
  · rw [hcompleted] at hopen
    cases hopen

/-- The function waits for all events and says whether one failed, in whatever order they end, exactly
when none of them is skipped. -/
theorem waits_for_all_iff (w : Wait) : (∀ s, Reachable w.system s → w.Right s) ↔ w.NoneSkipped := by
  constructor
  · intro h done i rest hevents hdone herror j hj
    by_contra hskipped
    rw [not_or] at hskipped
    obtain ⟨s, hs, hne, hsame⟩ := returns_early hevents hdone herror
    have hcompleted := (h s hs).all hne j (by rw [hevents]; simp [hj])
    rw [hsame j hskipped.1] at hcompleted
    exact hskipped.2 hcompleted
  · exact fun hnone s hs => ((inv_invariant w).reachable hs).right hnone

/-- Two user events, of which the first one fails. -/
def firstFails : Wait where
  types _ := .userEvent
  context _ := 0
  thread := 0
  args := { numEvents := 2, eventList := some some }
  valid := by decide
  past _ := []
  ends i := if i = 0 then -1 else complete
  ends_terminal i := by split <;> rfl
  ended i h := by cases h

/-- The function returns while nobody has set the second event. -/
theorem first_fails_second_open : ¬ ∀ (w : Wait) (s : State w.types), Reachable w.system s → w.Right s := by
  intro hall
  let failed : State firstFails.types := call 0 (.setUserEventStatus (-1)) firstFails.start
  have hfailed : Reachable firstFails.system failed :=
    (Reachable.init rfl).step (l := .call 0 (.setUserEventStatus (-1))) ⟨fun _ => rfl, rfl⟩
  have hfirst : Reachable firstFails.system (turn 0 failed) := reachable_turn hfailed
  have hsecond : Reachable firstFails.system (turn 0 (turn 0 failed)) := reachable_turn hfirst
  have hreturned : Reachable firstFails.system (turn 0 (turn 0 (turn 0 failed))) := reachable_turn hsecond
  have hcompleted := (hall _ _ hreturned).all (by decide) 1 (by decide)
  revert hcompleted
  decide

end Wait

end OpenCRun.WaitForEvents
