import Mathlib.Data.Finset.Basic
import Mathlib.Data.Finset.Insert
import Mathlib.Data.Finset.Erase
import OpenCRun.Core.Event
/-!
# Command queues

The critical sections of `CommandQueue.cpp`, each a function of the queue's
state: what `ThisLock` is held for happens at once. The device is a parameter;
it takes a command or refuses it.
-/
namespace OpenCRun.Queue

open EventStatus

/-- What a queue looks at in a command. Events are numbered. -/
structure Command where
  notifyEvent : Nat
  waitList : List Nat
  isNativeKernel : Bool := false
  deriving DecidableEq, Repr

/-- `CanRun`: the events of the wait list have all completed. -/
def Command.canRun (status : Nat → Int) (cmd : Command) : Bool :=
  cmd.waitList.all (fun e => hasCompleted (status e))

inductive QueueType where
  | outOfOrder
  | inOrder
  deriving DecidableEq, Repr

structure CommandQueue where
  context : Nat
  supportsNativeKernels : Bool
  commands : List Command := []
  pendingCommands : Finset Command := ∅
  commandOnFly : Bool := false

inductive EnqueueError where
  | invalidContext
  | invalidOperation
  deriving DecidableEq, Repr

/-- `Enqueue`, before it runs the scheduler. -/
def enqueue (eventContext : Nat → Nat) (q : CommandQueue) (cmd : Command) : Except EnqueueError CommandQueue :=
  if cmd.waitList.any (fun e => eventContext e != q.context) then .error .invalidContext
  else if cmd.isNativeKernel && !q.supportsNativeKernels then .error .invalidOperation
  else .ok { q with commands := q.commands ++ [cmd] }

section Scheduler
variable {σ : Type} (status : Nat → Int) (submit : Command → σ → Bool × σ)

/-- `InOrderQueue::RunScheduler`: the queue and the device after it, and its result. -/
def runScheduler (q : CommandQueue) (dev : σ) : CommandQueue × σ × Bool :=
  match q.commands with
  | [] => (q, dev, false)
  | cmd :: rest =>
    if q.commandOnFly then (q, dev, false)
    else if !cmd.canRun status then (q, dev, true)
    else
      let (accepted, dev) := submit cmd dev
      -- the front was moved out for the submission, and is moved back
      if !accepted then ({ q with commands := cmd :: rest }, dev, true)
      else
        ({ q with
            commands := rest
            pendingCommands := insert cmd q.pendingCommands
            commandOnFly := true },
          dev, rest.length != 0)

/-- A call of the scheduler finds nothing to do, is refused by the device, or submits the head. -/
theorem runScheduler_cases (q : CommandQueue) (dev : σ) :
    (runScheduler status submit q dev = (q, dev, false) ∧ (q.commands = [] ∨ q.commandOnFly = true)) ∨
    (∃ cmd rest, q.commands = cmd :: rest ∧ q.commandOnFly = false ∧
      ((runScheduler status submit q dev = (q, dev, true) ∧ cmd.canRun status = false) ∨
       (runScheduler status submit q dev = (q, (submit cmd dev).2, true) ∧ cmd.canRun status = true ∧
          (submit cmd dev).1 = false) ∨
       (runScheduler status submit q dev =
          ({ q with
              commands := rest
              pendingCommands := insert cmd q.pendingCommands
              commandOnFly := true }, (submit cmd dev).2, rest.length != 0) ∧
          cmd.canRun status = true ∧ (submit cmd dev).1 = true))) := by
  obtain ⟨ctx, nat, commands, pending, fly⟩ := q
  unfold runScheduler
  cases commands with
  | nil => exact .inl ⟨rfl, .inl rfl⟩
  | cons cmd rest =>
    cases fly with
    | true => exact .inl ⟨rfl, .inr rfl⟩
    | false =>
      refine .inr ⟨cmd, rest, rfl, rfl, ?_⟩
      by_cases hr : cmd.canRun status = true
      · by_cases hs : (submit cmd dev).1 = true
        · exact .inr (.inr ⟨by simp [hr, hs], hr, hs⟩)
        · exact .inr (.inl ⟨by simp [hr, hs], hr, by simpa using hs⟩)
      · exact .inl ⟨by simp [hr], by simpa using hr⟩

end Scheduler

/-- The first critical section of `InOrderQueue::CommandDone`; then the scheduler runs. -/
def commandDone (q : CommandQueue) : CommandQueue := { q with commandOnFly := false }

/-- The last critical section of `CommandQueue::CommandDone`. -/
def erasePending (q : CommandQueue) (cmd : Command) : CommandQueue :=
  { q with pendingCommands := q.pendingCommands.erase cmd }

/-! ## The out-of-order queue -/

/-- `OutOfOrderQueue::RunScheduler`. -/
def runSchedulerOutOfOrder (q : CommandQueue) : CommandQueue × Bool := (q, false)

/-- `OutOfOrderQueue::CommandDone`. -/
def commandDoneOutOfOrder (q : CommandQueue) : CommandQueue := q

end OpenCRun.Queue
