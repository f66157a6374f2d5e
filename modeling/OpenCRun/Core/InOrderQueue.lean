import OpenCRun.Core.CommandQueue
import OpenCRun.Lib.Runs
/-!
# Safety of the in-order queue

Threads enqueue, run the scheduler and report commands done; events complete;
the device takes or refuses what it is given. Each critical section is one
step, in any order. The state also records the history of the commands, and
the invariant ties the queue's two containers and its flag to it.
-/
open Lib.Runs

namespace OpenCRun.InOrderQueue

open Queue EventStatus

structure State where
  queue : CommandQueue
  status : Nat → Int
  enqueued : List Queue.Command := []
  /-- Taken by the device. -/
  submitted : List Queue.Command := []
  /-- Reported by the device: the first section of `CommandDone` has run. -/
  reported : List Queue.Command := []
  /-- The last section of `CommandDone` has run. -/
  done : List Queue.Command := []

inductive Label where
  | enqueue (cmd : Queue.Command)
  | runScheduler (accepts : Bool)
  | commandDone (cmd : Queue.Command)
  | erasePending (cmd : Queue.Command)
  | signal (event : Nat) (status : Int)

/-- A device that takes what it is given, or refuses it. -/
def device (accepts : Bool) (cmd : Queue.Command) (taken : List Queue.Command) : Bool × List Queue.Command :=
  (accepts, if accepts then taken ++ [cmd] else taken)

/-- A command object is enqueued once, and the device reports once each command that it took. -/
inductive Step (eventContext : Nat → Nat) : State → Label → State → Prop
  | enqueue (s : State) (cmd : Queue.Command) (q : CommandQueue) (hnew : cmd ∉ s.enqueued)
      (h : enqueue eventContext s.queue cmd = .ok q) :
      Step eventContext s (.enqueue cmd) { s with queue := q, enqueued := s.enqueued ++ [cmd] }
  | refused (s : State) (cmd : Queue.Command) (e : EnqueueError) (h : enqueue eventContext s.queue cmd = .error e) :
      Step eventContext s (.enqueue cmd) s
  | runScheduler (s : State) (accepts : Bool) :
      Step eventContext s (.runScheduler accepts)
        { s with
          queue := (runScheduler s.status (device accepts) s.queue s.submitted).1
          submitted := (runScheduler s.status (device accepts) s.queue s.submitted).2.1 }
  | commandDone (s : State) (cmd : Queue.Command) (h : cmd ∈ s.submitted) (hn : cmd ∉ s.reported) :
      Step eventContext s (.commandDone cmd)
        { s with queue := commandDone s.queue, reported := s.reported ++ [cmd] }
  | erasePending (s : State) (cmd : Queue.Command) (h : cmd ∈ s.reported) (hn : cmd ∉ s.done) :
      Step eventContext s (.erasePending cmd)
        { s with queue := erasePending s.queue cmd, done := s.done ++ [cmd] }
  | signal (s : State) (event : Nat) (status : Int) :
      Step eventContext s (.signal event status)
        { s with status := fun e => if e = event then signal (s.status e) status else s.status e }

/-- An empty queue. -/
def system (eventContext : Nat → Nat) : System State Label where
  init s := s.queue.commands = [] ∧ s.queue.pendingCommands = ∅ ∧ s.queue.commandOnFly = false ∧
    s.enqueued = [] ∧ s.submitted = [] ∧ s.reported = [] ∧ s.done = []
  step := Step eventContext

/-! ## The invariant -/

structure Inv (s : State) : Prop where
  order : s.submitted ++ s.queue.commands = s.enqueued
  nodup : s.enqueued.Nodup
  flying : s.queue.commandOnFly = true → ∃ cmd, s.submitted = s.reported ++ [cmd]
  landed : s.queue.commandOnFly = false → s.submitted = s.reported
  pending : ∀ cmd, cmd ∈ s.queue.pendingCommands ↔ cmd ∈ s.submitted ∧ cmd ∉ s.done
  done : ∀ cmd ∈ s.done, cmd ∈ s.submitted

theorem Inv.reported_sub {s : State} (h : Inv s) {cmd : Queue.Command} (hc : cmd ∈ s.reported) : cmd ∈ s.submitted := by
  cases hf : s.queue.commandOnFly with
  | true => obtain ⟨c, hs⟩ := h.flying hf; simp [hs, hc]
  | false => rwa [h.landed hf]

theorem enqueue_ok {eventContext : Nat → Nat} {q q' : CommandQueue} {cmd : Queue.Command}
    (h : enqueue eventContext q cmd = .ok q') : q' = { q with commands := q.commands ++ [cmd] } := by
  unfold enqueue at h
  split at h
  · cases h
  split at h
  · cases h
  · exact (Except.ok.inj h).symm

/-- A call of the scheduler changes nothing, or the device takes the head. -/
theorem schedule_cases (s : State) (accepts : Bool) :
    (runScheduler s.status (device accepts) s.queue s.submitted).1 = s.queue ∧
      (runScheduler s.status (device accepts) s.queue s.submitted).2.1 = s.submitted ∨
    ∃ cmd rest, s.queue.commands = cmd :: rest ∧ s.queue.commandOnFly = false ∧ cmd.canRun s.status = true ∧
      accepts = true ∧
      (runScheduler s.status (device accepts) s.queue s.submitted).1 =
        { s.queue with
          commands := rest
          pendingCommands := insert cmd s.queue.pendingCommands
          commandOnFly := true } ∧
      (runScheduler s.status (device accepts) s.queue s.submitted).2.1 = s.submitted ++ [cmd] := by
  rcases runScheduler_cases s.status (device accepts) s.queue s.submitted with
    ⟨h, -⟩ | ⟨cmd, rest, hc, hf, ⟨h, -⟩ | ⟨h, -, ha⟩ | ⟨h, hr, ha⟩⟩
  · exact .inl ⟨by rw [h], by rw [h]⟩
  · exact .inl ⟨by rw [h], by rw [h]⟩
  · have ha : accepts = false := ha
    exact .inl ⟨by rw [h], by rw [h]; simp [device, ha]⟩
  · have ha : accepts = true := ha
    exact .inr ⟨cmd, rest, hc, hf, hr, ha, by rw [h], by rw [h]; simp [device, ha]⟩

section StepInv
variable {s : State} {cmd : Queue.Command}

/-- A new command goes to the end of the queue. -/
theorem Inv.enqueue (h : Inv s) (hnew : cmd ∉ s.enqueued) :
    Inv { s with
      queue := { s.queue with commands := s.queue.commands ++ [cmd] }
      enqueued := s.enqueued ++ [cmd] } := by
  refine ⟨?_, ?_, h.flying, h.landed, h.pending, h.done⟩
  · simp [← h.order]
  · rw [List.nodup_append]
    refine ⟨h.nodup, by simp, fun a ha b hb => ?_⟩
    rintro rfl
    exact hnew (List.mem_singleton.1 hb ▸ ha)

/-- The device takes the head, with nothing on the fly. -/
theorem Inv.submit (h : Inv s) {rest : List Queue.Command} (hc : s.queue.commands = cmd :: rest)
    (hf : s.queue.commandOnFly = false) :
    Inv { s with
      queue := { s.queue with
        commands := rest
        pendingCommands := insert cmd s.queue.pendingCommands
        commandOnFly := true }
      submitted := s.submitted ++ [cmd] } := by
  have hnew : cmd ∉ s.submitted := by
    have hn := h.nodup
    rw [← h.order, hc, List.nodup_append] at hn
    exact fun hm => hn.2.2 cmd hm cmd (by simp) rfl
  refine ⟨?_, h.nodup, fun _ => ⟨cmd, ?_⟩, ?_, fun c => ?_, fun c hcd => ?_⟩
  · simp [← h.order, hc]
  · rw [h.landed hf]
  · simp
  · simp only [Finset.mem_insert, h.pending, List.mem_append, List.mem_singleton]
    -- the new pending command is not done, for what is done was submitted before
    constructor
    · rintro (rfl | ⟨h1, h2⟩)
      · exact ⟨.inr rfl, fun hcd => hnew (h.done c hcd)⟩
      · exact ⟨.inl h1, h2⟩
    · rintro ⟨h1 | h1, h2⟩
      · exact .inr ⟨h1, h2⟩
      · exact .inl h1
  · exact List.mem_append_left _ (h.done c hcd)

/-- The device reports a command; it is the one on the fly. -/
theorem Inv.report (h : Inv s) (hm : cmd ∈ s.submitted) (hn : cmd ∉ s.reported) :
    Inv { s with queue := commandDone s.queue, reported := s.reported ++ [cmd] } := by
  refine ⟨h.order, h.nodup, by simp [commandDone], fun _ => ?_, h.pending, h.done⟩
  -- only the command on the fly is submitted and not reported
  cases hf : s.queue.commandOnFly with
  | true =>
    obtain ⟨c, hs⟩ := h.flying hf
    rw [hs] at hm ⊢
    obtain rfl : cmd = c := by simpa [hn] using hm
    rfl
  | false => exact absurd (h.landed hf ▸ hm) hn

theorem Inv.erase (h : Inv s) (hm : cmd ∈ s.reported) :
    Inv { s with queue := erasePending s.queue cmd, done := s.done ++ [cmd] } := by
  refine ⟨h.order, h.nodup, h.flying, h.landed, fun c => ?_, fun c hcd => ?_⟩
  · simp only [erasePending, Finset.mem_erase, h.pending, List.mem_append, List.mem_singleton]
    tauto
  · rcases List.mem_append.1 hcd with hcd | hcd
    · exact h.done c hcd
    · rw [List.mem_singleton.1 hcd]
      exact h.reported_sub hm

end StepInv

theorem step_inv {eventContext : Nat → Nat} {s s' : State} {l : Label} (h : Inv s) (hs : Step eventContext s l s') :
    Inv s' := by
  cases hs with
  | enqueue cmd q hnew hq =>
    obtain rfl := enqueue_ok hq
    exact h.enqueue hnew
  | refused cmd e he => exact h
  | runScheduler accepts =>
    rcases schedule_cases s accepts with ⟨hq, hd⟩ | ⟨cmd, rest, hc, hf, -, -, hq, hd⟩
    · rw [hq, hd]
      exact h
    · rw [hq, hd]
      exact h.submit hc hf
  | commandDone cmd hm hn => exact h.report hm hn
  | erasePending cmd hm hn => exact h.erase hm
  | signal event st => exact ⟨h.order, h.nodup, h.flying, h.landed, h.pending, h.done⟩

theorem inv_invariant (eventContext : Nat → Nat) : Invariant (system eventContext) Inv where
  init s hi := by
    obtain ⟨h1, h2, h3, h4, h5, h6, h7⟩ := hi
    exact ⟨by simp [h1, h4, h5], by simp [h4], by simp [h3], by simp [h5, h6], by simp [h2, h5], by simp [h7]⟩
  step _ _ _ h hs := step_inv h hs

/-- Exactly one of three. -/
def ExactlyOne (a b c : Prop) : Prop := (a ∧ ¬ b ∧ ¬ c) ∨ (¬ a ∧ b ∧ ¬ c) ∨ (¬ a ∧ ¬ b ∧ c)

/-- In every reachable state the commands are submitted in the order they were enqueued, none twice, and
each is in exactly one place; and every step submits only a ready command with none on the fly. -/
theorem in_order_queue_safe (eventContext : Nat → Nat) (s : State) (hr : Reachable (system eventContext) s) :
    s.submitted <+: s.enqueued ∧ s.submitted.Nodup ∧ s.queue.commands.Nodup ∧
    (∀ cmd, cmd ∈ s.enqueued ↔ cmd ∈ s.queue.commands ∨ cmd ∈ s.queue.pendingCommands ∨ cmd ∈ s.done) ∧
    (∀ cmd ∈ s.enqueued,
      ExactlyOne (cmd ∈ s.queue.commands) (cmd ∈ s.queue.pendingCommands) (cmd ∈ s.done)) ∧
    (∀ l s', Step eventContext s l s' → ∀ cmd, cmd ∈ s'.submitted → cmd ∉ s.submitted →
      (∀ e ∈ cmd.waitList, hasCompleted (s.status e) = true) ∧ (∀ c ∈ s.submitted, c ∈ s.reported) ∧
      s'.submitted = s.submitted ++ [cmd]) ∧
    (∀ s', Step eventContext s (.runScheduler false) s' →
      s'.queue.commands = s.queue.commands ∧ s'.queue.pendingCommands = s.queue.pendingCommands ∧
      s'.queue.commandOnFly = s.queue.commandOnFly ∧ s'.submitted = s.submitted) := by
  have h := (inv_invariant eventContext).reachable hr
  have hn := h.nodup
  rw [← h.order, List.nodup_append] at hn
  refine ⟨⟨_, h.order⟩, hn.1, hn.2.1, fun cmd => ?_, fun cmd hc => ?_, fun l s' hs cmd hm hnew => ?_, fun s' hs => ?_⟩
  · have hd := h.done cmd
    rw [← h.order, List.mem_append, h.pending]
    tauto
  · have hd := h.done cmd
    rw [← h.order, List.mem_append] at hc
    have hdisj : cmd ∈ s.submitted → cmd ∉ s.queue.commands := fun h1 h2 => hn.2.2 cmd h1 cmd h2 rfl
    unfold ExactlyOne
    rw [h.pending]
    tauto
  -- Only the scheduler submits.
  · cases hs with
    | runScheduler accepts =>
      rcases schedule_cases s accepts with ⟨-, hd⟩ | ⟨c, rest, hc, hf, hrun, -, -, hd⟩
      · exact absurd (hd ▸ hm) hnew
      · obtain rfl : cmd = c := by simpa [hd, hnew] using hm
        refine ⟨fun e he => ?_, fun c hcs => h.landed hf ▸ hcs, hd⟩
        exact List.all_eq_true.1 hrun e he
    | enqueue | refused | commandDone | erasePending | signal => exact absurd hm hnew
  · cases hs with
    | runScheduler =>
      rcases schedule_cases s false with ⟨hq, hd⟩ | ⟨c, rest, hc, hf, hrun, ha, -, -⟩
      · simp only [hq, hd, and_self]
      · cases ha

/-- The device takes a first command, and the second one must wait for it. -/
theorem in_order_queue_safe_second :
    ∃ s, Reachable (system fun _ => 0) s ∧ s.submitted.length = 1 ∧ s.queue.commands.length = 1 ∧
      s.submitted <+: s.enqueued := by
  let new : State := { queue := { context := 0, supportsNativeKernels := false }, status := fun _ => queued }
  have h₀ : Reachable (system fun _ => 0) new := .init ⟨rfl, rfl, rfl, rfl, rfl, rfl, rfl⟩
  have h₁ := h₀.step (.enqueue _ { notifyEvent := 0, waitList := [] } _ (by decide) rfl)
  have h₂ := h₁.step (.enqueue _ { notifyEvent := 1, waitList := [] } _ (by decide) rfl)
  have h₃ := (h₂.step (.runScheduler _ true)).step (.runScheduler _ true)
  exact ⟨_, h₃, rfl, rfl, (in_order_queue_safe _ _ h₃).1⟩

end OpenCRun.InOrderQueue
