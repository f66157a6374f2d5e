import Mathlib.Data.Finset.Basic
import Mathlib.Data.Finset.Insert
import OpenCRun.Core.Event
import OpenCRun.Lib.Runs
/-!
# Event objects

`Event.cpp` and the entry points of `libOpenCRun/Event.cpp` that reach it. Each
member function holds the event's monitor for its whole body, so a run of an
event is a list of calls, whatever threads they come from. The monitor is
recursive: `SetStatus` signals while it holds it.
-/
namespace OpenCRun

open EventStatus

inductive EventType where
  | internalEvent
  | userEvent
  deriving DecidableEq, Repr

/-- The function is not null: `clSetEventCallback` refuses it. -/
structure EventCallbackClojure where
  callback : Nat
  userData : Nat
  deriving DecidableEq, Repr

/-- An event, the threads asleep in its monitor, and two logs that the code has no use for: the
registrations accepted and the calls of the user's functions, each with the status it is for. -/
structure Event (ty : EventType) where
  status : Int
  callbacks : Int → List EventCallbackClojure := fun _ => []
  asleep : Finset Nat := ∅
  registered : List (EventCallbackClojure × Int) := []
  notified : List (EventCallbackClojure × Int) := []

namespace Event

/-- The constructors of `InternalEvent` and `UserEvent`. -/
def create : (ty : EventType) → Event ty
  | .internalEvent => { status := queued }
  | .userEvent => { status := submitted }

/-- What a call gives back to its caller. -/
inductive Result where
  | done
  | returned (status : Int)
  | blocked
  | diagnostic (message : String)
  | success
  | invalidValue
  | invalidEvent
  | invalidOperation
  deriving DecidableEq, Repr

section Calls
variable {ty : EventType} (e : Event ty)

/-- `Event::Wait`, from its start or from a wakeup: a thread finds the status terminal, or sleeps. -/
def wait (thread : Nat) : Event ty × Result :=
  if hasCompleted e.status then ({ e with asleep := e.asleep.erase thread }, .returned e.status)
  else ({ e with asleep := insert thread e.asleep }, .blocked)

def addEventCallback (callbackType : Int) (callback : EventCallbackClojure) : Event ty :=
  if e.status ≤ callbackType then
    { e with
      registered := e.registered ++ [(callback, callbackType)]
      notified := e.notified ++ [(callback, callbackType)] }
  else
    { e with
      registered := e.registered ++ [(callback, callbackType)]
      callbacks := fun key =>
        if key = callbackType then e.callbacks key ++ [callback] else e.callbacks key }

def signal (status : Int) : Event ty :=
  { e with
    status := EventStatus.signal e.status status
    notified := e.notified ++ (e.callbacks status).map (fun callback => (callback, status))
    -- the broadcast goes by the status signalled, not by the one that results
    asleep := if hasCompleted status then ∅ else e.asleep }

/-- `clSetEventCallback`. -/
def setEventCallback (callbackType : Int) (notify : Option Nat) (userData : Nat) : Event ty × Result :=
  match notify with
  | none => (e, .invalidValue)
  | some callback =>
    if callbackType != complete && callbackType != running && callbackType != submitted then (e, .invalidValue)
    else (addEventCallback e callbackType ⟨callback, userData⟩, .success)

end Calls

def markSubmitted (e : Event .internalEvent) : Event .internalEvent := signal e submitted

def markRunning (e : Event .internalEvent) : Event .internalEvent := signal e running

def markCompleted (e : Event .internalEvent) (status : Int) : Event .internalEvent × Result :=
  if status != complete && decide (status ≥ 0) then (e, .diagnostic "invalid event status")
  else (signal e status, .done)

/-- `UserEvent::SetStatus`. -/
def setStatus (e : Event .userEvent) (status : Int) : Event .userEvent × Bool :=
  -- Status already changed
  if e.status != submitted then (e, false)
  else (signal e status, true)

/-- `clSetUserEventStatus`. -/
def setUserEventStatus (status : Int) : {ty : EventType} → Event ty → Event ty × Result
  | ty, e =>
    if status != complete && decide (status ≥ 0) then (e, .invalidValue)
    else
      match ty, e with
      | .internalEvent, e => (e, .invalidEvent)
      | .userEvent, e =>
        let (e, changed) := setStatus e status
        (e, if changed then .success else .invalidOperation)

/-- The calls an event can get. Only an internal event is marked. -/
inductive Call : EventType → Type where
  | wait {ty : EventType} (thread : Nat) : Call ty
  | setEventCallback {ty : EventType} (callbackType : Int) (notify : Option Nat) (userData : Nat) : Call ty
  | setUserEventStatus {ty : EventType} (status : Int) : Call ty
  | markSubmitted : Call .internalEvent
  | markRunning : Call .internalEvent
  | markCompleted (status : Int) : Call .internalEvent

def Call.perform {ty : EventType} (e : Event ty) : Call ty → Event ty × Result
  | .wait thread => Event.wait e thread
  | .setEventCallback callbackType notify userData => Event.setEventCallback e callbackType notify userData
  | .setUserEventStatus status => Event.setUserEventStatus status e
  | .markSubmitted => (Event.markSubmitted e, .done)
  | .markRunning => (Event.markRunning e, .done)
  | .markCompleted status => Event.markCompleted e status

/-- The event after a run of calls. -/
def after {ty : EventType} (calls : List (Call ty)) : Event ty :=
  calls.foldl (fun e c => (c.perform e).1) (create ty)

/-! ## What a call signals -/

section Calls
variable {ty : EventType} (e : Event ty)

/-- The status that a call signals, if it signals one. -/
def Call.signals : {ty : EventType} → Event ty → Call ty → Option Int
  | _, _, .wait _ => none
  | _, _, .setEventCallback _ _ _ => none
  | .internalEvent, _, .setUserEventStatus _ => none
  | .userEvent, e, .setUserEventStatus status =>
    if hasCompleted status && e.status == submitted then some status else none
  | _, _, .markSubmitted => some submitted
  | _, _, .markRunning => some running
  | _, _, .markCompleted status => if hasCompleted status then some status else none

theorem invalid_iff (status : Int) :
    (status != complete && decide (status ≥ 0)) = true ↔ hasCompleted status = false := by
  rw [← Bool.not_eq_true (hasCompleted status), hasCompleted_iff]
  simp only [complete, Bool.and_eq_true, bne_iff_ne, decide_eq_true_eq]
  omega

theorem perform_of_signals {c : Call ty} {status : Int} (h : c.signals e = some status) :
    (c.perform e).1 = e.signal status := by
  cases c with
  | wait => cases h
  | setEventCallback => cases h
  | markSubmitted => cases h; rfl
  | markRunning => cases h; rfl
  | markCompleted s =>
    simp only [Call.signals, Option.ite_none_right_eq_some, Option.some.injEq] at h
    obtain ⟨hc, rfl⟩ := h
    have hv : ¬ (s != complete && decide (s ≥ 0)) = true := by rw [invalid_iff, hc]; exact Bool.noConfusion
    simp only [Call.perform, markCompleted, if_neg hv]
  | setUserEventStatus s =>
    cases ty with
    | internalEvent => cases h
    | userEvent =>
      simp only [Call.signals, Option.ite_none_right_eq_some, Option.some.injEq, Bool.and_eq_true, beq_iff_eq] at h
      obtain ⟨⟨hc, hs⟩, rfl⟩ := h
      have hv : ¬ (s != complete && decide (s ≥ 0)) = true := by rw [invalid_iff, hc]; exact Bool.noConfusion
      simp only [Call.perform, setUserEventStatus, if_neg hv, setStatus, hs, bne_self_eq_false,
        Bool.false_eq_true, if_false]

/-- A call that signals nothing is a wait, a registration, or has no effect. -/
theorem perform_of_silent {c : Call ty} (h : c.signals e = none) :
    (c.perform e).1 = e ∨ (∃ thread, (c.perform e).1 = (e.wait thread).1) ∨
      ∃ callbackType callback, (c.perform e).1 = e.addEventCallback callbackType callback := by
  cases c with
  | wait thread => exact .inr (.inl ⟨thread, rfl⟩)
  | setEventCallback callbackType notify userData =>
    cases notify with
    | none => exact .inl rfl
    | some callback =>
      simp only [Call.perform, setEventCallback]
      split
      · exact .inl rfl
      · exact .inr (.inr ⟨callbackType, ⟨callback, userData⟩, rfl⟩)
  | markSubmitted => cases h
  | markRunning => cases h
  | markCompleted s =>
    simp only [Call.signals, ite_eq_right_iff, reduceCtorEq, imp_false, Bool.not_eq_true] at h
    left
    simp only [Call.perform, markCompleted, if_pos ((invalid_iff s).2 h)]
  | setUserEventStatus s =>
    simp only [Call.perform, setUserEventStatus]
    split
    · exact .inl rfl
    · rename_i hv
      rw [invalid_iff, Bool.not_eq_false] at hv
      cases ty with
      | internalEvent => exact .inl rfl
      | userEvent =>
        simp only [Call.signals, hv, Bool.true_and, beq_iff_eq, ite_eq_right_iff, reduceCtorEq, imp_false] at h
        left
        simp only [setStatus, bne_iff_ne, ne_eq, h, not_false_eq_true, if_true]

theorem status_perform (c : Call ty) :
    (c.perform e).1.status = match c.signals e with
      | some status => min e.status status
      | none => e.status := by
  cases h : c.signals e with
  | some status =>
    rw [perform_of_signals e h]
    exact signal_eq_min e.status status
  | none =>
    rcases perform_of_silent e h with he | ⟨thread, he⟩ | ⟨callbackType, callback, he⟩ <;> rw [he]
    · unfold wait
      split <;> rfl
    · unfold addEventCallback
      split <;> rfl

theorem perform_le (c : Call ty) : (c.perform e).1.status ≤ e.status := by
  rw [status_perform]
  cases c.signals e with
  | some status => exact min_le_left _ _
  | none => exact le_rfl

theorem terminal_perform (c : Call ty) (h : hasCompleted e.status = true) :
    hasCompleted (c.perform e).1.status = true := by
  rw [hasCompleted_iff] at h ⊢
  exact (perform_le e c).trans h

/-- Nobody sleeps past the terminal status: each signal of one wakes all. -/
def Woken (e : Event ty) : Prop := hasCompleted e.status = true → e.asleep = ∅

theorem woken_perform (c : Call ty) (h : Woken e) : Woken (c.perform e).1 := by
  intro hc
  cases hs : c.signals e with
  | some status =>
    rw [perform_of_signals e hs] at hc ⊢
    simp only [signal, signal_eq_min, hasCompleted_iff] at hc ⊢
    split
    · rfl
    · rename_i hn
      exact h (hasCompleted_iff.2 (by omega))
  | none =>
    rcases perform_of_silent e hs with he | ⟨thread, he⟩ | ⟨callbackType, callback, he⟩ <;> rw [he] at hc ⊢
    · exact h hc
    · unfold wait at hc ⊢
      split at hc
      · rename_i hst
        simp only [hst, if_true, h hst, Finset.erase_empty]
      · rename_i hst
        exact absurd hc hst
    · unfold addEventCallback at hc ⊢
      split at hc
      · rename_i hle
        simp only [hle, if_true, h hc]
      · rename_i hle
        simp only [hle, if_false, h hc]

end Calls

/-! ## Runs -/

section Machine
variable {ty : EventType}

theorem after_append (calls more : List (Call ty)) :
    after (calls ++ more) = more.foldl (fun e c => (c.perform e).1) (after calls) :=
  List.foldl_append

theorem after_concat (calls : List (Call ty)) (c : Call ty) : after (calls ++ [c]) = (c.perform (after calls)).1 :=
  after_append calls [c]

theorem woken_after (calls : List (Call ty)) : Woken (after calls) := by
  refine Lib.Runs.foldl_invariant _ (fun e c => woken_perform e c) ?_ calls
  cases ty <;> exact fun _ => rfl

theorem after_le {done more : List (Call ty)} (h : done <+: more) : (after more).status ≤ (after done).status := by
  obtain ⟨rest, rfl⟩ := h
  rw [after_append]
  exact Lib.Runs.foldl_invariant (I := fun e => e.status ≤ (after done).status) _
    (fun e c he => (perform_le e c).trans he) le_rfl rest

/-- What the queue and the wait lists rely on, over the whole of a run. -/
structure StatusMachine (calls : List (Call ty)) : Prop where
  never_increases : ∀ done more, done <+: more → more <+: calls → (after more).status ≤ (after done).status
  terminal_final : ∀ done more, done <+: more → more <+: calls → hasCompleted (after done).status = true →
    (after more).status = (after done).status
  wait_returns : ∀ done thread, done <+: calls → hasCompleted (after done).status = true →
    (after done).asleep = ∅ ∧ ((Call.wait thread).perform (after done)).2 = .returned (after done).status
  returned_final : ∀ done thread status, done ++ [.wait thread] <+: calls →
    ((Call.wait thread).perform (after done)).2 = .returned status →
    hasCompleted status = true ∧ ∀ more, done <+: more → more <+: calls → (after more).status = status
  set_once : ∀ done more status status', done ++ [.setUserEventStatus status] <+: more →
    more ++ [.setUserEventStatus status'] <+: calls →
    (Call.perform (after done) (.setUserEventStatus status)).2 = .success →
    (Call.perform (after more) (.setUserEventStatus status')).2 ≠ .success
  only_set : ty = .userEvent → ∀ done c, done ++ [c] <+: calls →
    (after (done ++ [c])).status ≠ (after done).status →
    ∃ status, c = .setUserEventStatus status ∧ (c.perform (after done)).2 = .success ∧
      (after (done ++ [c])).status = status

/-- A call that signals a status below a terminal one. Only `MarkCompleted` can: `SetStatus` looks first. -/
def LowersTerminal (e : Event ty) (c : Call ty) : Prop :=
  hasCompleted e.status = true ∧ ∃ status, c.signals e = some status ∧ status < e.status

theorem status_perform_eq_iff {e : Event ty} (h : hasCompleted e.status = true) (c : Call ty) :
    (c.perform e).1.status = e.status ↔ ¬ LowersTerminal e c := by
  rw [status_perform]
  cases hs : c.signals e with
  | none => simp [LowersTerminal, hs]
  | some status => simp [LowersTerminal, hs, h]

theorem wait_result (e : Event ty) (thread : Nat) :
    ((Call.wait thread).perform e).2 = if hasCompleted e.status then .returned e.status else .blocked := by
  simp only [Call.perform, wait]
  split <;> rfl

theorem final_of_not_lowers {calls : List (Call ty)}
    (h : ∀ done c, done ++ [c] <+: calls → ¬ LowersTerminal (after done) c) {done more : List (Call ty)}
    (hdm : done <+: more) (hmc : more <+: calls) (ht : hasCompleted (after done).status = true) :
    (after more).status = (after done).status := by
  obtain ⟨rest, rfl⟩ := hdm
  have hrun := (Lib.Runs.prefixes_iff (fun e c => (c.perform e).1)
    (I := fun e => hasCompleted e.status = true) (P := fun e => e.status = (after done).status) ht rfl
    (fun e c he => terminal_perform e c he)
    (fun e c he hs => by rw [← hs]; exact status_perform_eq_iff he c) rest).2 ?_ rest (List.prefix_refl _)
  · rw [after_append]
    exact hrun
  · intro some c hp
    rw [← after_append]
    refine h (done ++ some) c (List.IsPrefix.trans ?_ hmc)
    rw [List.append_assoc]
    exact List.prefix_append_right_inj done |>.2 hp

theorem set_success {e : Event ty} {status : Int} (h : ((Call.setUserEventStatus status).perform e).2 = .success) :
    e.status = submitted ∧ hasCompleted ((Call.setUserEventStatus status).perform e).1.status = true := by
  simp only [Call.perform, setUserEventStatus] at h ⊢
  split at h
  · cases h
  · rename_i hv
    have hc : hasCompleted status = true := by
      rw [invalid_iff, Bool.not_eq_false] at hv
      exact hv
    cases ty with
    | internalEvent => cases h
    | userEvent =>
      simp only [setStatus] at h ⊢
      split at h
      · cases h
      · rename_i hs
        simp only [if_neg hv, if_neg hs, signal]
        refine ⟨by simpa using hs, ?_⟩
        rw [signal_eq_min, hasCompleted_iff]
        exact (min_le_right _ _).trans (hasCompleted_iff.1 hc)

/-- `SetStatus` signals where it finds the first status, and says so. -/
theorem signals_set {e : Event .userEvent} {status s : Int} (h : (Call.setUserEventStatus status).signals e = some s) :
    s = status ∧ hasCompleted status = true ∧ e.status = submitted ∧
      ((Call.setUserEventStatus status).perform e).2 = .success := by
  simp only [Call.signals, Option.ite_none_right_eq_some, Option.some.injEq, Bool.and_eq_true, beq_iff_eq] at h
  obtain ⟨⟨hc, hs⟩, rfl⟩ := h
  have hv : ¬ (status != complete && decide (status ≥ 0)) = true := by
    rw [invalid_iff, hc]
    exact Bool.noConfusion
  refine ⟨rfl, hc, hs, ?_⟩
  simp only [Call.perform, setUserEventStatus, if_neg hv, setStatus, hs, bne_self_eq_false, Bool.false_eq_true,
    if_false, if_true]

theorem user_changes {e : Event .userEvent} {c : Call .userEvent} (h : (c.perform e).1.status ≠ e.status) :
    ∃ status, c = .setUserEventStatus status ∧ (c.perform e).2 = .success ∧ (c.perform e).1.status = status := by
  rw [status_perform] at h ⊢
  cases hs : c.signals e with
  | none => simp only [hs, ne_eq, not_true_eq_false] at h
  | some s =>
    cases c with
    | wait => cases hs
    | setEventCallback => cases hs
    | setUserEventStatus status =>
      obtain ⟨rfl, hc, hsub, hr⟩ := signals_set hs
      refine ⟨s, rfl, hr, ?_⟩
      rw [hasCompleted_iff] at hc
      simp only [hsub, submitted]
      omega

/-- The event goes through its statuses as it should, in each run but those where a terminal status is
lowered once more. -/
theorem status_machine_iff (calls : List (Call ty)) :
    StatusMachine calls ↔ ∀ done c, done ++ [c] <+: calls → ¬ LowersTerminal (after done) c := by
  constructor
  · intro h done c hp hl
    have hs := h.terminal_final done (done ++ [c]) (List.prefix_append _ _) hp hl.1
    rw [after_concat] at hs
    exact (status_perform_eq_iff hl.1 c).1 hs hl
  · intro h
    have answered : ∀ (done : List (Call ty)) thread, hasCompleted (after done).status = true →
        ((Call.wait thread).perform (after done)).2 = .returned (after done).status := by
      intro done thread ht
      rw [wait_result, if_pos ht]
    refine ⟨fun done more hdm _ => after_le hdm, fun done more hdm hmc ht => final_of_not_lowers h hdm hmc ht,
      fun done thread _ ht => ⟨woken_after done ht, answered done thread ht⟩, ?_, ?_, ?_⟩
    · intro done thread status hp hr
      rw [wait_result] at hr
      split at hr
      · rename_i ht
        cases hr
        exact ⟨ht, fun more hdm hmc => final_of_not_lowers h hdm hmc ht⟩
      · cases hr
    · intro done more status status' hdm _ hr hr'
      have hlow := hasCompleted_iff.1 (set_success hr).2
      rw [← after_concat] at hlow
      have hsub := (set_success hr').1
      have := after_le hdm
      simp only [submitted] at hsub
      omega
    · rintro rfl done c _ hne
      rw [after_concat] at hne ⊢
      exact user_changes hne

/-- A user event is never at fault. -/
theorem user_not_lowers (e : Event .userEvent) (c : Call .userEvent) : ¬ LowersTerminal e c := by
  rintro ⟨ht, status, hs, -⟩
  cases c with
  | wait => cases hs
  | setEventCallback => cases hs
  | setUserEventStatus =>
    obtain ⟨-, -, hsub, -⟩ := signals_set hs
    rw [hsub] at ht
    exact absurd ht (by decide)

end Machine

/-- A command that has completed is marked failed by a second report. -/
theorem completed_then_failed :
    ¬ StatusMachine [Call.markCompleted complete, Call.markCompleted (-5)] := by
  intro h
  have hs := h.terminal_final [.markCompleted complete] _ (List.prefix_append _ [.markCompleted (-5)])
    (List.prefix_refl _) rfl
  exact absurd hs (by decide)

end OpenCRun.Event
