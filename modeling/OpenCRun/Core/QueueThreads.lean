import Mathlib.Algebra.Group.Nat.Defs
import Mathlib.Logic.Function.Basic
import OpenCRun.Core.CommandQueue
import OpenCRun.Lib.Runs
/-!
# Threads around an in-order queue

The same queue as in `InOrderQueue.lean`, seen by the threads that use it. Here
a step is one critical section or one access that no lock covers, so that a
command can be executed, reported and erased between any two statements of the
thread that enqueued it. `RunScheduler` is two steps: while the device is given
the command it holds `ThisLock`, but the command may already be running.
-/
open Lib.Runs

namespace OpenCRun.QueueThreads

open Queue EventStatus

/-! ## `RunScheduler` in two steps -/

/-- Up to the submission: the command at the front, if it can be submitted, or else the result. -/
def front (status : Nat → Int) (q : CommandQueue) : Except Bool Queue.Command :=
  match q.commands with
  | [] => .error false
  | cmd :: _ =>
    if q.commandOnFly then .error false
    else if !cmd.canRun status then .error true
    else .ok cmd

/-- From the submission on: the queue, and the result. -/
def submitted (q : CommandQueue) (accepted : Bool) : CommandQueue × Bool :=
  match q.commands with
  | [] => (q, false)
  | cmd :: rest =>
    if !accepted then (q, true)
    else
      ({ q with
          commands := rest
          pendingCommands := insert cmd q.pendingCommands
          commandOnFly := true },
        rest.length != 0)

theorem runScheduler_eq {σ : Type} (status : Nat → Int) (submit : Queue.Command → σ → Bool × σ) (q : CommandQueue)
    (dev : σ) :
    runScheduler status submit q dev =
      match front status q with
      | .error result => (q, dev, result)
      | .ok cmd => ((submitted q (submit cmd dev).1).1, (submit cmd dev).2, (submitted q (submit cmd dev).1).2) := by
  obtain ⟨ctx, nat, commands, pending, fly⟩ := q
  unfold runScheduler front
  cases commands with
  | nil => rfl
  | cons cmd rest =>
    cases fly with
    | true => rfl
    | false =>
      simp only [Bool.false_eq_true, if_false]
      split
      · rfl
      · simp only [submitted]
        split <;> rfl

theorem front_ok {status : Nat → Int} {q : CommandQueue} {cmd : Queue.Command} (h : front status q = .ok cmd) :
    ∃ rest, q.commands = cmd :: rest := by
  unfold front at h
  split at h
  · cases h
  · rename_i c rest hc
    split at h
    · cases h
    split at h
    · cases h
    · cases h
      exact ⟨rest, hc⟩

theorem submitted_cons {q : CommandQueue} {cmd : Queue.Command} {rest : List Queue.Command}
    (h : q.commands = cmd :: rest) :
    (submitted q true).1 =
      { q with commands := rest, pendingCommands := insert cmd q.pendingCommands, commandOnFly := true } := by
  simp only [submitted, h, Bool.not_true, Bool.false_eq_true, if_false]

theorem submitted_refused (q : CommandQueue) : (submitted q false).1 = q := by
  unfold submitted
  split <;> rfl

/-! ## Where a thread is -/

/-- What a thread runs the scheduler for. -/
inductive Caller where
  | enqueue (cmd : Queue.Command)
  | commandDone (cmd : Queue.Command)
  | flush
  /-- The flush in `Finish`, with what was enqueued when `Finish` was called. -/
  | finish (before : List Queue.Command)

inductive Pc where
  | idle
  /-- Before the lock of `RunScheduler`. -/
  | runScheduler (caller : Caller)
  /-- In `RunScheduler`, holding the lock: the device is given the command, and takes it or not. -/
  | submit (caller : Caller) (cmd : Queue.Command) (accepted : Bool)
  /-- In `Enqueue`, before `Cmd.IsBlocking()`. -/
  | isBlocking (cmd : Queue.Command)
  | wait (event : Nat)
  /-- In `notifyCompletion`, before `MarkCompleted`. -/
  | markCompleted (cmd : Queue.Command) (error : Bool)
  /-- In `notifyCompletion`, before `CommandDone`. -/
  | commandDone (cmd : Queue.Command)
  /-- In `CommandDone`, before its last section. -/
  | erase (cmd : Queue.Command)
  /-- In `Finish`, before it copies the events to wait for. -/
  | snapshot (before : List Queue.Command)
  | waitAll (events : List Nat) (before : List Queue.Command)

/-- Where `RunScheduler` returns to. `Flush` is a loop. -/
def Caller.next : Caller → Bool → Pc
  | .enqueue cmd, _ => .isBlocking cmd
  | .commandDone cmd, _ => .erase cmd
  | .flush, more => if more then .runScheduler .flush else .idle
  | .finish before, more => if more then .runScheduler (.finish before) else .snapshot before

structure State where
  queue : CommandQueue
  status : Nat → Int
  /-- The thread that holds `ThisLock` from one step to the next. -/
  lock : Option Nat := none
  pc : Nat → Pc := fun _ => .idle
  /-- The parts of a command that the device has still to run, one for a single command. -/
  parts : Queue.Command → Nat := fun _ => 0
  /-- The `WaitCount` that the parts share. -/
  waitCount : Queue.Command → Nat := fun _ => 0
  enqueued : List Queue.Command := []

/-- Threads are numbered; those of the device and those that use the queue are not told apart. -/
inductive Label where
  | enqueue (thread : Nat) (cmd : Queue.Command)
  | flush (thread : Nat)
  | finish (thread : Nat)
  | runScheduler (thread : Nat) (parts waitCount : Nat)
  | submitted (thread : Nat)
  | isBlocking (thread : Nat) (blocking : Bool)
  | waited (thread : Nat)
  | notifyStart (cmd : Queue.Command)
  | notifyCompletion (thread : Nat) (cmd : Queue.Command) (error : Bool)
  | markCompleted (thread : Nat)
  | commandDone (thread : Nat)
  | erasePending (thread : Nat)
  | snapshot (thread : Nat) (order : List Queue.Command)
  | finished (thread : Nat)
  | signal (event : Nat) (status : Int)

/-- `--WaitCount`, on a 64-bit counter. -/
def decrement (count : Nat) : Nat := (count + 2 ^ 64 - 1) % 2 ^ 64

section Moves
variable (s : State) (thread : Nat)

def State.goto (pc : Pc) : State := { s with pc := Function.update s.pc thread pc }

def State.setStatus (event : Nat) (status : Int) : State :=
  { s with status := Function.update s.status event status }

end Moves

/-- A command object is enqueued once, and its event is a new one. A step that needs `ThisLock` needs
it free. -/
inductive Step (eventContext : Nat → Nat) : State → Label → State → Prop
  | enqueue (s : State) (t : Nat) (cmd : Queue.Command) (q : CommandQueue) (hpc : s.pc t = .idle)
      (hlock : s.lock = none) (hnew : ∀ c ∈ s.enqueued, c.notifyEvent ≠ cmd.notifyEvent)
      (h : enqueue eventContext s.queue cmd = .ok q) :
      Step eventContext s (.enqueue t cmd)
        (({ s with queue := q, enqueued := s.enqueued ++ [cmd] }.setStatus cmd.notifyEvent queued).goto t
          (.runScheduler (.enqueue cmd)))
  | rejected (s : State) (t : Nat) (cmd : Queue.Command) (e : EnqueueError) (hpc : s.pc t = .idle)
      (h : enqueue eventContext s.queue cmd = .error e) : Step eventContext s (.enqueue t cmd) s
  | flush (s : State) (t : Nat) (hpc : s.pc t = .idle) :
      Step eventContext s (.flush t) (s.goto t (.runScheduler .flush))
  | finish (s : State) (t : Nat) (hpc : s.pc t = .idle) :
      Step eventContext s (.finish t) (s.goto t (.runScheduler (.finish s.enqueued)))
  | nothing (s : State) (t : Nat) (caller : Caller) (parts waitCount : Nat) (result : Bool)
      (hpc : s.pc t = .runScheduler caller) (hlock : s.lock = none) (h : front s.status s.queue = .error result) :
      Step eventContext s (.runScheduler t parts waitCount) (s.goto t (caller.next result))
  | submit (s : State) (t : Nat) (caller : Caller) (cmd : Queue.Command) (parts waitCount : Nat)
      (hpc : s.pc t = .runScheduler caller) (hlock : s.lock = none) (h : front s.status s.queue = .ok cmd)
      (hcount : waitCount < 2 ^ 64) :
      -- the device takes the command in some parts, or in none and refuses it
      Step eventContext s (.runScheduler t parts waitCount)
        ({ s with
            lock := some t
            parts := Function.update s.parts cmd parts
            waitCount := Function.update s.waitCount cmd waitCount }.goto t (.submit caller cmd (parts != 0)))
  | submitted (s : State) (t : Nat) (caller : Caller) (cmd : Queue.Command) (accepted : Bool)
      (hpc : s.pc t = .submit caller cmd accepted) :
      Step eventContext s (.submitted t)
        (({ s with lock := none, queue := (submitted s.queue accepted).1 }.setStatus cmd.notifyEvent
            (if accepted then markSubmitted (s.status cmd.notifyEvent) else s.status cmd.notifyEvent)).goto t
          (caller.next (submitted s.queue accepted).2))
  | isBlocking (s : State) (t : Nat) (cmd : Queue.Command) (blocking : Bool) (hpc : s.pc t = .isBlocking cmd) :
      Step eventContext s (.isBlocking t blocking) (s.goto t (if blocking then .wait cmd.notifyEvent else .idle))
  | waited (s : State) (t event : Nat) (hpc : s.pc t = .wait event) (h : hasCompleted (s.status event) = true) :
      Step eventContext s (.waited t) (s.goto t .idle)
  | notifyStart (s : State) (cmd : Queue.Command) (h : s.parts cmd ≠ 0) :
      Step eventContext s (.notifyStart cmd) (s.setStatus cmd.notifyEvent (markRunning (s.status cmd.notifyEvent)))
  -- Another block of the command is done, and not the last one.
  | part (s : State) (t : Nat) (cmd : Queue.Command) (error : Bool) (h : s.parts cmd ≠ 0)
      (hw : decrement (s.waitCount cmd) ≠ 0) :
      Step eventContext s (.notifyCompletion t cmd error)
        { s with
          parts := Function.update s.parts cmd (s.parts cmd - 1)
          waitCount := Function.update s.waitCount cmd (decrement (s.waitCount cmd)) }
  -- The thread that finds the wait count at zero goes on to the event and to the queue.
  | lastPart (s : State) (t : Nat) (cmd : Queue.Command) (error : Bool) (hpc : s.pc t = .idle) (h : s.parts cmd ≠ 0)
      (hw : decrement (s.waitCount cmd) = 0) :
      Step eventContext s (.notifyCompletion t cmd error)
        ({ s with
            parts := Function.update s.parts cmd (s.parts cmd - 1)
            waitCount := Function.update s.waitCount cmd (decrement (s.waitCount cmd)) }.goto t
          (.markCompleted cmd error))
  | markCompleted (s : State) (t : Nat) (cmd : Queue.Command) (error : Bool) (hpc : s.pc t = .markCompleted cmd error) :
      Step eventContext s (.markCompleted t)
        ((s.setStatus cmd.notifyEvent (markCompleted (s.status cmd.notifyEvent) (if error then -1 else 0))).goto t
          (.commandDone cmd))
  | commandDone (s : State) (t : Nat) (cmd : Queue.Command) (hpc : s.pc t = .commandDone cmd) (hlock : s.lock = none) :
      Step eventContext s (.commandDone t)
        ({ s with queue := commandDone s.queue }.goto t (.runScheduler (.commandDone cmd)))
  | erasePending (s : State) (t : Nat) (cmd : Queue.Command) (hpc : s.pc t = .erase cmd) (hlock : s.lock = none) :
      Step eventContext s (.erasePending t) ({ s with queue := erasePending s.queue cmd }.goto t .idle)
  | snapshot (s : State) (t : Nat) (before order : List Queue.Command) (hpc : s.pc t = .snapshot before)
      (hlock : s.lock = none) (horder : ∀ c, c ∈ order ↔ c ∈ s.queue.pendingCommands) :
      Step eventContext s (.snapshot t order)
        (s.goto t (.waitAll ((order ++ s.queue.commands).map (·.notifyEvent)) before))
  -- `Finish` waits for the events that it has copied, one after the other.
  | waitedOne (s : State) (t event : Nat) (events : List Nat) (before : List Queue.Command)
      (hpc : s.pc t = .waitAll (event :: events) before) (h : hasCompleted (s.status event) = true) :
      Step eventContext s (.waited t) (s.goto t (.waitAll events before))
  | finished (s : State) (t : Nat) (before : List Queue.Command) (hpc : s.pc t = .waitAll [] before) :
      Step eventContext s (.finished t) (s.goto t .idle)
  | signal (s : State) (event : Nat) (status : Int) :
      Step eventContext s (.signal event status) (s.setStatus event (signal (s.status event) status))

/-- An empty queue, and nobody at it. -/
def system (eventContext : Nat → Nat) : System State Label where
  init s := s.queue.commands = [] ∧ s.queue.pendingCommands = ∅ ∧ s.queue.commandOnFly = false ∧
    s.lock = none ∧ (∀ t, s.pc t = .idle) ∧ (∀ cmd, s.parts cmd = 0) ∧ s.enqueued = []
  step := Step eventContext

/-! ## The lock -/

section Lock
variable {s : State}

@[simp] theorem goto_pc (t : Nat) (pc : Pc) : (s.goto t pc).pc = Function.update s.pc t pc := rfl
@[simp] theorem goto_queue (t : Nat) (pc : Pc) : (s.goto t pc).queue = s.queue := rfl
@[simp] theorem goto_status (t : Nat) (pc : Pc) : (s.goto t pc).status = s.status := rfl
@[simp] theorem goto_lock (t : Nat) (pc : Pc) : (s.goto t pc).lock = s.lock := rfl
@[simp] theorem goto_parts (t : Nat) (pc : Pc) : (s.goto t pc).parts = s.parts := rfl
@[simp] theorem goto_waitCount (t : Nat) (pc : Pc) : (s.goto t pc).waitCount = s.waitCount := rfl
@[simp] theorem goto_enqueued (t : Nat) (pc : Pc) : (s.goto t pc).enqueued = s.enqueued := rfl
@[simp] theorem setStatus_pc (e : Nat) (v : Int) : (s.setStatus e v).pc = s.pc := rfl
@[simp] theorem setStatus_queue (e : Nat) (v : Int) : (s.setStatus e v).queue = s.queue := rfl
@[simp] theorem setStatus_status (e : Nat) (v : Int) : (s.setStatus e v).status = Function.update s.status e v := rfl
@[simp] theorem setStatus_lock (e : Nat) (v : Int) : (s.setStatus e v).lock = s.lock := rfl
@[simp] theorem setStatus_parts (e : Nat) (v : Int) : (s.setStatus e v).parts = s.parts := rfl
@[simp] theorem setStatus_waitCount (e : Nat) (v : Int) : (s.setStatus e v).waitCount = s.waitCount := rfl
@[simp] theorem setStatus_enqueued (e : Nat) (v : Int) : (s.setStatus e v).enqueued = s.enqueued := rfl

theorem decrement_eq {count : Nat} (h0 : count ≠ 0) (h : count < 2 ^ 64) : decrement count = count - 1 := by
  unfold decrement
  omega

/-- What holds of every thread still holds after one of them moved. -/
theorem forall_goto {P : Pc → Prop} {f : Nat → Pc} (h : ∀ t, P (f t)) {pc : Pc} (hpc : P pc) (t u : Nat) :
    P (Function.update f t pc u) := by
  rw [Function.update_apply]
  split
  · exact hpc
  · exact h u

/-- What a thread has after one of them moved, some thread had before. -/
theorem exists_of_goto {P : Pc → Prop} {f : Nat → Pc} {t u : Nat} {pc : Pc} (h : P (Function.update f t pc u))
    (hpc : P pc → P (f t)) : ∃ v, P (f v) := by
  rw [Function.update_apply] at h
  split at h
  · exact ⟨t, hpc h⟩
  · exact ⟨u, h⟩

end Lock

/-- A queue nobody has used, and a command without a wait list. -/
def idleQueue : State := { queue := { context := 0, supportsNativeKernels := false }, status := fun _ => queued }

def marker : Queue.Command := { notifyEvent := 7, waitList := [] }

end OpenCRun.QueueThreads
