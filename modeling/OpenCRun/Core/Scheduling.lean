import Mathlib.Logic.Function.Basic
import OpenCRun.Core.InOrderQueue
/-!
# When queues are scheduled

Several queues and their events. A thread inside an API call, or a command that
the device works on, is a task with the steps it still has to take. A queue is
stalled when it could submit a command and has nothing on the fly; while a call
of its scheduler is pending that is no harm. The invariant is that every stalled
queue has such a call, and the conditions are about the steps that break it.
-/
open Lib.Runs

namespace OpenCRun.Scheduling

open Queue EventStatus
open InOrderQueue (device)

/-- What does not change: the queues' types, and the events. -/
structure Setup where
  type : Nat → QueueType
  eventContext : Nat → Nat
  isUserEvent : Nat → Bool

/-- What a thread still has to do. -/
inductive Task where
  /-- `Enqueue` has added a command and will call the scheduler. -/
  | schedule (i : Nat)
  /-- `Flush` will call the scheduler again. -/
  | flush (i : Nat)
  /-- The device works on the command. -/
  | execute (i : Nat) (cmd : Queue.Command)
  /-- The command's event is complete, and the device will call `CommandDone`. -/
  | commandDone (i : Nat) (cmd : Queue.Command)
  /-- `CommandDone` will call the scheduler. -/
  | scheduleDone (i : Nat) (cmd : Queue.Command)
  /-- `CommandDone` will erase the command. -/
  | erase (i : Nat) (cmd : Queue.Command)
  deriving DecidableEq

/-- The queue whose scheduler the task calls next. -/
def Task.calls : Task → Option Nat
  | schedule i => some i
  | flush i => some i
  | scheduleDone i _ => some i
  | _ => none

/-- What the task goes on with after a call of the scheduler that returned `again`. -/
def Task.next (again : Bool) : Task → List Task
  | flush i => if again then [flush i] else []
  | scheduleDone i cmd => [erase i cmd]
  | _ => []

structure State where
  queues : Nat → CommandQueue
  status : Nat → Int
  tasks : List Task := []

/-- `RunScheduler` of a queue: the queue, the commands that the device took, and the result. -/
def schedulerCall (ty : QueueType) (status : Nat → Int) (accepts : Bool) (q : CommandQueue) :
    CommandQueue × List Queue.Command × Bool :=
  match ty with
  | .inOrder => runScheduler status (device accepts) q []
  | .outOfOrder => ((runSchedulerOutOfOrder q).1, [], (runSchedulerOutOfOrder q).2)

inductive Label where
  | enqueue (i : Nat) (cmd : Queue.Command)
  | flush (i : Nat)
  | runScheduler (t : Task) (i : Nat) (accepts : Bool)
  | complete (i : Nat) (cmd : Queue.Command) (status : Int)
  | commandDone (i : Nat) (cmd : Queue.Command)
  | erase (i : Nat) (cmd : Queue.Command)
  | setStatus (event : Nat) (status : Int)

/-- An update of one event. -/
def setEvent (status : Nat → Int) (event : Nat) (value : Int) : Nat → Int := Function.update status event value

/-- A finished call has no task; `Finish` flushes and then only waits. The statuses with which commands
and user events are completed are those of completed events. -/
inductive Step (su : Setup) : State → Label → State → Prop
  | enqueue (s : State) (i : Nat) (cmd : Queue.Command) (q : CommandQueue)
      (h : Queue.enqueue su.eventContext (s.queues i) cmd = .ok q) :
      Step su s (.enqueue i cmd)
        { s with queues := Function.update s.queues i q, tasks := .schedule i :: s.tasks }
  | flush (s : State) (i : Nat) : Step su s (.flush i) { s with tasks := .flush i :: s.tasks }
  | runScheduler (s : State) (t : Task) (i : Nat) (accepts : Bool) (h : t ∈ s.tasks) (hc : t.calls = some i) :
      Step su s (.runScheduler t i accepts)
        { s with
          queues := Function.update s.queues i (schedulerCall (su.type i) s.status accepts (s.queues i)).1
          tasks := t.next (schedulerCall (su.type i) s.status accepts (s.queues i)).2.2 ++
            (schedulerCall (su.type i) s.status accepts (s.queues i)).2.1.map (.execute i) ++ s.tasks.erase t }
  | complete (s : State) (i : Nat) (cmd : Queue.Command) (status : Int) (h : .execute i cmd ∈ s.tasks)
      (hs : hasCompleted status = true) :
      Step su s (.complete i cmd status)
        { s with
          status := setEvent s.status cmd.notifyEvent (markCompleted (s.status cmd.notifyEvent) status)
          tasks := .commandDone i cmd :: s.tasks.erase (.execute i cmd) }
  | commandDone (s : State) (i : Nat) (cmd : Queue.Command) (h : .commandDone i cmd ∈ s.tasks) (hi : su.type i = .inOrder) :
      Step su s (.commandDone i cmd)
        { s with
          queues := Function.update s.queues i (Queue.commandDone (s.queues i))
          tasks := .scheduleDone i cmd :: s.tasks.erase (.commandDone i cmd) }
  | commandDoneOutOfOrder (s : State) (i : Nat) (cmd : Queue.Command) (h : .commandDone i cmd ∈ s.tasks)
      (hi : su.type i = .outOfOrder) :
      Step su s (.commandDone i cmd)
        { s with
          queues := Function.update s.queues i (Queue.commandDoneOutOfOrder (s.queues i))
          tasks := s.tasks.erase (.commandDone i cmd) }
  | erase (s : State) (i : Nat) (cmd : Queue.Command) (h : .erase i cmd ∈ s.tasks) :
      Step su s (.erase i cmd)
        { s with
          queues := Function.update s.queues i (erasePending (s.queues i) cmd)
          tasks := s.tasks.erase (.erase i cmd) }
  | setStatus (s : State) (event : Nat) (status : Int) (hu : su.isUserEvent event = true)
      (hs : hasCompleted status = true) :
      Step su s (.setStatus event status)
        { s with status := setEvent s.status event (EventStatus.setStatus (s.status event) status).1 }

/-- New queues and events. -/
def system (su : Setup) : System State Label where
  init s := (∀ i, (s.queues i).commands = [] ∧ (s.queues i).commandOnFly = false) ∧ s.tasks = [] ∧
    ∀ e, s.status e = if su.isUserEvent e then submitted else queued
  step := Step su

/-! ## Stalled queues -/

/-- The queue could submit a command: its head, or any command of an out-of-order queue. -/
def Ready (ty : QueueType) (status : Nat → Int) (q : CommandQueue) : Prop :=
  match ty with
  | .inOrder => ∃ cmd rest, q.commands = cmd :: rest ∧ cmd.canRun status = true
  | .outOfOrder => ∃ cmd ∈ q.commands, cmd.canRun status = true

/-- Nothing is on the fly, and the queue could submit a command. -/
def Stalled (su : Setup) (s : State) (i : Nat) : Prop :=
  (s.queues i).commandOnFly = false ∧ Ready (su.type i) s.status (s.queues i)

/-- A call of the queue's scheduler is pending. -/
def Pending (tasks : List Task) (i : Nat) : Prop := ∃ t ∈ tasks, t.calls = some i

/-- Every stalled queue is in-order and will be scheduled. -/
def Inv (su : Setup) (s : State) : Prop := ∀ i, Stalled su s i → su.type i = .inOrder ∧ Pending s.tasks i

/-- An event may complete if each queue with nothing on the fly that it makes ready is in-order and has
a call of its scheduler pending. -/
def Wakes (su : Setup) (s : State) (event : Nat) : Prop :=
  ∀ i, Stalled su { s with status := setEvent s.status event complete } i →
    su.type i = .inOrder ∧ Pending s.tasks i

/-- A command that is ready goes to no out-of-order queue, the device refuses a command only in `Flush`
or with another call of the scheduler pending, and each event that completes is awaited so. -/
def Meets (su : Setup) (s : State) : Label → Prop
  | .enqueue i cmd => su.type i = .outOfOrder → cmd.canRun s.status = false
  | .runScheduler t i accepts => accepts = false → Stalled su s i → t = .flush i ∨ Pending (s.tasks.erase t) i
  | .complete _ cmd _ => Wakes su s cmd.notifyEvent
  | .setStatus event _ => Wakes su s event
  | _ => True

/-! ## The steps -/

theorem Pending.mono {ts ts' : List Task} {i : Nat} (h : Pending ts i) (hs : ∀ t, t.calls = some i → t ∈ ts → t ∈ ts') :
    Pending ts' i := by
  obtain ⟨t, ht, hc⟩ := h
  exact ⟨t, hs t hc ht, hc⟩

theorem Ready.mono {ty : QueueType} {status status' : Nat → Int} {q : CommandQueue} (h : Ready ty status q)
    (hs : ∀ e, hasCompleted (status e) = true → hasCompleted (status' e) = true) : Ready ty status' q := by
  have hrun : ∀ cmd : Queue.Command, cmd.canRun status = true → cmd.canRun status' = true := fun cmd hc =>
    List.all_eq_true.2 fun e he => hs e (List.all_eq_true.1 hc e he)
  cases ty with
  | inOrder =>
    obtain ⟨cmd, rest, hc, hr⟩ := h
    exact ⟨cmd, rest, hc, hrun cmd hr⟩
  | outOfOrder =>
    obtain ⟨cmd, hc, hr⟩ := h
    exact ⟨cmd, hc, hrun cmd hr⟩

/-- An event that takes a new status makes at most the queues ready that its completion would. -/
theorem stalled_of_setEvent {su : Setup} {s : State} {event i : Nat} {value : Int}
    (h : Stalled su { s with status := setEvent s.status event value } i) :
    Stalled su { s with status := setEvent s.status event complete } i := by
  refine ⟨h.1, h.2.mono fun e he => ?_⟩
  simp only [setEvent] at he ⊢
  by_cases hev : e = event
  · subst hev; simp [hasCompleted]
  · simpa [hev] using he

/-- A call of the scheduler leaves its queue stalled only when it submits nothing and returns true. -/
theorem schedulerCall_stalled {ty : QueueType} {status : Nat → Int} {accepts : Bool} {q : CommandQueue}
    (hf : (schedulerCall ty status accepts q).1.commandOnFly = false)
    (hr : Ready ty status (schedulerCall ty status accepts q).1) :
    (schedulerCall ty status accepts q).1 = q ∧
      (ty = .inOrder → accepts = false ∧ (schedulerCall ty status accepts q).2.2 = true) := by
  cases ty with
  | outOfOrder => exact ⟨rfl, fun h => nomatch h⟩
  | inOrder =>
    simp only [schedulerCall] at hf hr ⊢
    rcases runScheduler_cases status (device accepts) q [] with
      ⟨h, hn⟩ | ⟨cmd, rest, hc, hfly, ⟨h, hrun⟩ | ⟨h, -, ha⟩ | ⟨h, -, ha⟩⟩
    · -- no command, or one on the fly
      rw [h] at hf hr
      obtain ⟨cmd, rest, hc, -⟩ := hr
      rcases hn with hn | hn
      · rw [hn] at hc; cases hc
      · rw [hn] at hf; cases hf
    · -- the head cannot run
      rw [h] at hr
      obtain ⟨cmd', rest', hc', hrun'⟩ := hr
      rw [hc] at hc'
      cases hc'
      rw [hrun] at hrun'
      cases hrun'
    · rw [h]
      exact ⟨rfl, fun _ => ⟨ha, rfl⟩⟩
    · rw [h] at hf
      cases hf

section StepInv
variable {su : Setup} {s s' : State} {i j : Nat}

/-- What a step leaves of a queue, and of the calls of its scheduler, keeps the invariant there. -/
theorem Inv.keep (h : Inv su s) (hst : Stalled su s' j) (hs : s'.status = s.status)
    (hc : (s'.queues j).commands = (s.queues j).commands)
    (hf : (s'.queues j).commandOnFly = (s.queues j).commandOnFly)
    (ht : ∀ t, t.calls = some j → t ∈ s.tasks → t ∈ s'.tasks) :
    su.type j = .inOrder ∧ Pending s'.tasks j := by
  obtain ⟨hfly, hr⟩ := hst
  have hready : Ready (su.type j) s.status (s.queues j) := by
    unfold Ready at hr ⊢
    rwa [hc, hs] at hr
  obtain ⟨h1, h2⟩ := h j ⟨hf ▸ hfly, hready⟩
  exact ⟨h1, h2.mono ht⟩

/-- A task that calls no scheduler of the queue may go. -/
theorem mem_erase_of_calls {t t' : Task} {ts : List Task} (ht : t.calls ≠ some j) (hc : t'.calls = some j)
    (hm : t' ∈ ts) : t' ∈ ts.erase t := by
  apply (List.mem_erase_of_ne ?_).2 hm
  rintro rfl
  exact ht hc

/-- The queue that a command is enqueued into: `Enqueue` goes on to call the scheduler. -/
theorem Inv.enqueue (h : Inv su s) {cmd : Queue.Command}
    (hm : su.type i = .outOfOrder → cmd.canRun s.status = false)
    (hst : Stalled su
      { s with
        queues := Function.update s.queues i { s.queues i with commands := (s.queues i).commands ++ [cmd] }
        tasks := .schedule i :: s.tasks } i) :
    su.type i = .inOrder ∧ Pending (.schedule i :: s.tasks) i := by
  cases hty : su.type i with
  | inOrder => exact ⟨rfl, .schedule i, List.mem_cons_self .., rfl⟩
  | outOfOrder =>
    -- the new command is not ready, and no other was
    obtain ⟨hf, hr⟩ := hst
    simp only [Function.update_self, hty, Ready] at hf hr
    obtain ⟨c, hc, hrun⟩ := hr
    rcases List.mem_append.1 hc with hc | hc
    · have hin := (h i ⟨hf, by rw [hty]; exact ⟨c, hc, hrun⟩⟩).1
      rw [hty] at hin
      cases hin
    · rw [List.mem_singleton.1 hc, hm hty] at hrun
      cases hrun

/-- The queue whose scheduler is called: if it stays stalled it is `Flush` that called, and calls again,
or another call is pending. -/
theorem Inv.runScheduler (h : Inv su s) {t : Task} {accepts : Bool}
    (hm : accepts = false → Stalled su s i → t = .flush i ∨ Pending (s.tasks.erase t) i)
    (hf : (schedulerCall (su.type i) s.status accepts (s.queues i)).1.commandOnFly = false)
    (hr : Ready (su.type i) s.status (schedulerCall (su.type i) s.status accepts (s.queues i)).1) :
    su.type i = .inOrder ∧
      Pending (t.next (schedulerCall (su.type i) s.status accepts (s.queues i)).2.2 ++
        (schedulerCall (su.type i) s.status accepts (s.queues i)).2.1.map (.execute i) ++ s.tasks.erase t) i := by
  obtain ⟨hq, hin⟩ := schedulerCall_stalled hf hr
  rw [hq] at hf hr
  obtain ⟨hty, -⟩ := h i ⟨hf, hr⟩
  obtain ⟨ha, hagain⟩ := hin hty
  refine ⟨hty, ?_⟩
  rcases hm ha ⟨hf, hr⟩ with rfl | hp
  · exact ⟨.flush i, by simp [Task.next, hagain], rfl⟩
  · exact hp.mono fun t' _ ht' => by simp [ht']

theorem step_inv {l : Label} (h : Inv su s) (hm : Meets su s l) (hs : Step su s l s') : Inv su s' := by
  intro j hst
  cases hs with
  | enqueue i cmd q hq =>
    obtain rfl := InOrderQueue.enqueue_ok hq
    by_cases hij : j = i
    · subst hij
      exact h.enqueue hm hst
    · exact h.keep hst rfl (by simp [hij]) (by simp [hij]) fun t _ ht => List.mem_cons_of_mem _ ht
  | flush i => exact h.keep hst rfl rfl rfl fun t _ ht => List.mem_cons_of_mem _ ht
  | runScheduler t i accepts ht hc =>
    by_cases hij : j = i
    · subst hij
      obtain ⟨hf, hr⟩ := hst
      simp only [Function.update_self] at hf hr
      exact h.runScheduler hm hf hr
    -- Another queue keeps the task that will run its scheduler.
    · apply h.keep hst rfl (by simp [hij]) (by simp [hij])
      intro t' hc' ht'
      have hne : t.calls ≠ some j := by
        rw [hc]
        exact fun he => hij (Option.some.inj he).symm
      exact List.mem_append_right _ (mem_erase_of_calls hne hc' ht')
  | complete i cmd st ht hcs =>
    obtain ⟨h1, h2⟩ := hm j (stalled_of_setEvent hst)
    refine ⟨h1, h2.mono fun t' hc' ht' => ?_⟩
    exact List.mem_cons_of_mem _ (mem_erase_of_calls (by simp [Task.calls]) hc' ht')
  | commandDone i cmd ht hi =>
    by_cases hij : j = i
    · subst hij
      exact ⟨hi, .scheduleDone j cmd, List.mem_cons_self .., rfl⟩
    · apply h.keep hst rfl (by simp [hij]) (by simp [hij])
      intro t' hc' ht'
      exact List.mem_cons_of_mem _ (mem_erase_of_calls (by simp [Task.calls]) hc' ht')
  | commandDoneOutOfOrder i cmd ht hi =>
    refine h.keep hst rfl ?_ ?_ fun t' hc' ht' => mem_erase_of_calls (by simp [Task.calls]) hc' ht'
    all_goals
      simp only [Queue.commandDoneOutOfOrder, Function.update_eq_self]
  | erase i cmd ht =>
    refine h.keep hst rfl ?_ ?_ fun t' hc' ht' => mem_erase_of_calls (by simp [Task.calls]) hc' ht'
    all_goals
      by_cases hij : j = i
      · subst hij
        simp [erasePending]
      · simp [hij]
  | setStatus event st hu hcs => exact hm j (stalled_of_setEvent hst)

end StepInv

theorem inv_invariant (su : Setup) : Invariant ((system su).meeting (Meets su)) (Inv su) where
  init s hi := by
    intro i hst
    have hc := (hi.1 i).1
    obtain ⟨-, hr⟩ := hst
    cases hty : su.type i with
    | inOrder =>
      rw [hty] at hr
      obtain ⟨cmd, rest, he, -⟩ := hr
      rw [hc] at he
      cases he
    | outOfOrder =>
      rw [hty] at hr
      obtain ⟨cmd, he, -⟩ := hr
      rw [hc] at he
      cases he
  step _ _ _ h hs := step_inv h hs.1 hs.2

/-- In every run whose steps meet the conditions, a stalled queue is in-order and has a call of its
scheduler pending; so with no call, callback or device work in progress no queue is stalled. -/
theorem no_stalled_queue (su : Setup) (s : State) (hr : Reachable ((system su).meeting (Meets su)) s) :
    (∀ i, Stalled su s i → su.type i = .inOrder ∧ Pending s.tasks i) ∧
    (s.tasks = [] → ∀ i, ¬ Stalled su s i) := by
  have h := (inv_invariant su).reachable hr
  refine ⟨h, fun ht i hst => ?_⟩
  obtain ⟨t, hm, -⟩ := (h i hst).2
  rw [ht] at hm
  cases hm

/-! ## Two queues and a user event -/

/-- An in-order queue 0, an out-of-order queue 1 and a user event 0. -/
def twoQueues : Setup where
  type i := if i = 0 then .inOrder else .outOfOrder
  eventContext _ := 0
  isUserEvent e := e == 0

def newState : State where
  queues _ := { context := 0, supportsNativeKernels := false }
  status e := if e = 0 then submitted else queued

def command (event : Nat) (waitList : List Nat) : Queue.Command := { notifyEvent := event, waitList }

theorem newState_init : (system twoQueues).init newState :=
  ⟨fun _ => ⟨rfl, rfl⟩, rfl, fun e => by by_cases he : e = 0 <;> simp [newState, twoQueues, he]⟩

/-- A command that waits for nothing, enqueued into the in-order queue, waits for its scheduler. -/
theorem no_stalled_queue_enqueued :
    ∃ s, Reachable ((system twoQueues).meeting (Meets twoQueues)) s ∧ Stalled twoQueues s 0 ∧ Pending s.tasks 0 := by
  have h₀ : Reachable ((system twoQueues).meeting (Meets twoQueues)) newState := .init newState_init
  have hm : Meets twoQueues newState (.enqueue 0 (command 1 [])) := fun h => nomatch (h : QueueType.inOrder = .outOfOrder)
  have h₁ := h₀.step ⟨hm, Step.enqueue _ 0 (command 1 []) _ rfl⟩
  refine ⟨_, h₁, ?stalled, ((no_stalled_queue twoQueues _ h₁).1 0 ?stalled).2⟩
  exact ⟨rfl, command 1 [], [], rfl, rfl⟩

/-- A command awaits the user event in the in-order queue, and a ready one is in the other queue; when
the user event has completed and all calls have returned, both queues are stalled. -/
theorem queues_stalled :
    ∃ s, Reachable (system twoQueues) s ∧ s.tasks = [] ∧ Stalled twoQueues s 0 ∧ Stalled twoQueues s 1 := by
  have h₀ : Reachable (system twoQueues) newState := .init newState_init
  have h₁ := h₀.step (.enqueue _ 0 (command 1 [0]) _ rfl)
  have h₂ := h₁.step (.runScheduler _ (.schedule 0) 0 true (List.mem_cons_self ..) rfl)
  have h₃ := h₂.step (.enqueue _ 1 (command 2 []) _ rfl)
  have h₄ := h₃.step (.runScheduler _ (.schedule 1) 1 true (List.mem_cons_self ..) rfl)
  have h₅ := h₄.step (.setStatus _ 0 complete rfl rfl)
  exact ⟨_, h₅, rfl, ⟨rfl, command 1 [0], [], rfl, rfl⟩, ⟨rfl, command 2 [], List.mem_cons_self .., rfl⟩⟩

end OpenCRun.Scheduling
