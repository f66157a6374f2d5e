import OpenCRun.Core.InOrderQueue
/-!
# The loop of `Flush`

It calls the scheduler until that returns false. The loop is looked at on its
own, while no other thread takes a step; the device answers as it likes.
-/
open Lib.Runs

namespace OpenCRun.Flush

open Queue InOrderQueue EventStatus

variable {eventContext : Nat → Nat} {s : State}

/-- The state after a call of the scheduler, and what the call returned. -/
def call (accepts : Bool) (s : State) : State × Bool :=
  let r := runScheduler s.status (device accepts) s.queue s.submitted
  ({ s with queue := r.1, submitted := r.2.1 }, r.2.2)

/-- `Flush`, from the device's `n`-th answer on. -/
def flush (answers : Nat → Bool) : Nat → Nat → State → Option State
  | 0, _, _ => none
  | fuel + 1, n, s =>
    match call (answers n) s with
    | (s, true) => flush answers fuel (n + 1) s
    | (s, false) => some s

/-- A call is the scheduler's step of the queue. -/
theorem call_step (accepts : Bool) (s : State) : Step eventContext s (.runScheduler accepts) (call accepts s).1 :=
  .runScheduler s accepts

theorem flush_reachable {answers : Nat → Bool} {fuel n : Nat} {s' : State} (hr : Reachable (system eventContext) s)
    (h : flush answers fuel n s = some s') : Reachable (system eventContext) s' := by
  induction fuel generalizing n s with
  | zero => cases h
  | succ fuel ih =>
    have hstep : Reachable (system eventContext) (call (answers n) s).1 := hr.step (call_step (answers n) s)
    unfold flush at h
    split at h
    · next hcall =>
      rw [hcall] at hstep
      exact ih hstep h
    · next hcall =>
      rw [hcall] at hstep
      exact Option.some.inj h ▸ hstep

/-- The first of the commands is pending now, and was not before. -/
def Moved (q q' : CommandQueue) : Prop :=
  ∃ cmd, q.commands = cmd :: q'.commands ∧ cmd ∉ q'.commands ∧ cmd ∉ q.pendingCommands ∧
    q'.pendingCommands = insert cmd q.pendingCommands

/-- The loop ends, and a call that returns true has moved a command. -/
structure EndsByItself (answers : Nat → Bool) (s : State) : Prop where
  ends : ∃ fuel s', flush answers fuel 0 s = some s'
  progress : (call (answers 0) s).2 = true → Moved s.queue (call (answers 0) s).1.queue

/-- The head of the queue can run, and the device takes it. -/
def HeadTaken (answers : Nat → Bool) (s : State) : Prop :=
  ∃ cmd ∈ s.queue.commands.head?, cmd.canRun s.status = true ∧ answers 0 = true

/-! ## One call -/

/-- The queue when the device has taken its head. -/
def taken (s : State) (cmd : Queue.Command) (rest : List Queue.Command) : State :=
  { s with
    queue := { s.queue with
      commands := rest
      pendingCommands := insert cmd s.queue.pendingCommands
      commandOnFly := true }
    submitted := s.submitted ++ [cmd] }

/-- A call has nothing to do, or leaves the head where it is and returns true, or moves it. -/
theorem call_cases (accepts : Bool) (s : State) :
    (s.queue.commands = [] ∨ s.queue.commandOnFly = true) ∧ call accepts s = (s, false) ∨
    ∃ cmd rest, s.queue.commands = cmd :: rest ∧ s.queue.commandOnFly = false ∧
      (¬ (cmd.canRun s.status = true ∧ accepts = true) ∧ call accepts s = (s, true) ∨
        (cmd.canRun s.status = true ∧ accepts = true) ∧ call accepts s = (taken s cmd rest, rest.length != 0)) := by
  rcases runScheduler_cases s.status (device accepts) s.queue s.submitted with
    ⟨h, hidle⟩ | ⟨cmd, rest, hc, hf, ⟨h, hr⟩ | ⟨h, hr, ha⟩ | ⟨h, hr, ha⟩⟩
  · exact .inl ⟨hidle, by rw [call, h]⟩
  · refine .inr ⟨cmd, rest, hc, hf, .inl ⟨fun hrun => ?_, by rw [call, h]⟩⟩
    rw [hr] at hrun
    exact Bool.false_ne_true hrun.1
  · have ha : accepts = false := ha
    refine .inr ⟨cmd, rest, hc, hf, .inl ⟨fun hrun => ?_, ?_⟩⟩
    · rw [ha] at hrun
      exact Bool.false_ne_true hrun.2
    · rw [call, h]
      simp [device, ha]
  · have ha : accepts = true := ha
    refine .inr ⟨cmd, rest, hc, hf, .inr ⟨⟨hr, ha⟩, ?_⟩⟩
    rw [call, h]
    simp [device, ha, taken]

theorem not_moved (q : CommandQueue) : ¬ Moved q q := by
  rintro ⟨cmd, hc, -⟩
  have hlen := congrArg List.length hc
  rw [List.length_cons] at hlen
  omega

/-- What the device takes was not pending. -/
theorem moved_taken {cmd : Queue.Command} {rest : List Queue.Command} (h : Inv s) (hc : s.queue.commands = cmd :: rest) :
    Moved s.queue (taken s cmd rest).queue := by
  have hn := h.nodup
  rw [← h.order, hc, List.nodup_append, List.nodup_cons] at hn
  refine ⟨cmd, hc, hn.2.1.1, fun hp => ?_, rfl⟩
  have hsub : cmd ∈ s.submitted := ((h.pending cmd).1 hp).1
  exact hn.2.2 cmd hsub cmd List.mem_cons_self rfl

/-! ## The loop -/

theorem flush_idle {answers : Nat → Bool} {n fuel : Nat} (h : s.queue.commands = [] ∨ s.queue.commandOnFly = true) :
    flush answers (fuel + 1) n s = some s := by
  unfold flush
  rcases call_cases (answers n) s with ⟨-, hcall⟩ | ⟨cmd, rest, hc, hf, -⟩
  · rw [hcall]
  · rcases h with h | h
    · rw [h] at hc
      cases hc
    · rw [h] at hf
      cases hf

/-- After a command was taken, the next call returns false. -/
theorem flush_taken {answers : Nat → Bool} {n : Nat} {cmd : Queue.Command} {rest : List Queue.Command}
    (hcall : call (answers n) s = (taken s cmd rest, rest.length != 0)) :
    flush answers 2 n s = some (taken s cmd rest) := by
  unfold flush
  rw [hcall]
  cases rest with
  | nil => rfl
  | cons next rest => exact flush_idle (.inr rfl)

/-- A head that is not ready is asked for ever. -/
theorem flush_waiting {answers : Nat → Bool} {cmd : Queue.Command} {rest : List Queue.Command}
    (hc : s.queue.commands = cmd :: rest) (hf : s.queue.commandOnFly = false) (hr : cmd.canRun s.status = false)
    (fuel n : Nat) : flush answers fuel n s = none := by
  induction fuel generalizing n with
  | zero => rfl
  | succ fuel ih =>
    have hcall : call (answers n) s = (s, true) := by
      unfold call runScheduler
      rw [hc]
      simp [hf, hr]
    unfold flush
    rw [hcall]
    exact ih (n + 1)

/-- In a reachable state, the loop comes to its end by its own calls where the queue has nothing to submit, or the device
takes its head. -/
theorem ends_by_itself_iff (answers : Nat → Bool) (hr : Reachable (system eventContext) s) :
    EndsByItself answers s ↔ s.queue.commands = [] ∨ s.queue.commandOnFly = true ∨ HeadTaken answers s := by
  have hinv := (inv_invariant eventContext).reachable hr
  rcases call_cases (answers 0) s with ⟨hidle, hcall⟩ | ⟨cmd, rest, hc, hf, ⟨hstay, hcall⟩ | ⟨htaken, hcall⟩⟩
  · refine iff_of_true ⟨⟨1, s, flush_idle hidle⟩, fun htrue => ?_⟩ (or_assoc.1 (.inl hidle))
    rw [hcall] at htrue
    cases htrue
  -- The call returns true and leaves the queue as it was.
  · refine iff_of_false (fun h => ?_) ?_
    · have hmoved := h.progress (by rw [hcall])
      rw [hcall] at hmoved
      exact not_moved _ hmoved
    · rintro (h | h | ⟨c, hmem, hrun⟩)
      · rw [h] at hc
        cases hc
      · rw [h] at hf
        cases hf
      · rw [hc] at hmem
        obtain rfl : cmd = c := Option.some.inj hmem
        exact hstay hrun
  -- The command is on the fly now, so the next call returns false.
  · refine iff_of_true ⟨⟨2, _, flush_taken hcall⟩, fun _ => ?_⟩ (.inr (.inr ⟨cmd, ?_, htaken⟩))
    · rw [hcall]
      exact moved_taken hinv hc
    · rw [hc]
      rfl

/-- A queue with a command that waits for the events given. -/
def waitingFor (waitList : List Nat) : State :=
  let q : CommandQueue := { context := 0, supportsNativeKernels := false }
  let cmd : Queue.Command := { notifyEvent := 0, waitList }
  { queue := { q with commands := [cmd] }, status := fun _ => queued, enqueued := [cmd] }

theorem waitingFor_reachable (waitList : List Nat) : Reachable (system fun _ => 0) (waitingFor waitList) := by
  have hinit : Reachable (system fun _ => 0)
      { queue := { context := 0, supportsNativeKernels := false }, status := fun _ => queued } :=
    .init ⟨rfl, rfl, rfl, rfl, rfl, rfl, rfl⟩
  refine hinit.step (.enqueue _ { notifyEvent := 0, waitList } _ List.not_mem_nil ?_)
  simp [enqueue]

theorem ends_by_itself_ready : EndsByItself (fun _ => true) (waitingFor []) :=
  (ends_by_itself_iff _ (waitingFor_reachable [])).2 (.inr (.inr ⟨_, rfl, rfl, rfl⟩))

/-- A command waits for the event 7, which is not complete: the loop never ends, whatever the device answers. -/
theorem flush_of_waiting_head : Reachable (system fun _ => 0) (waitingFor [7]) ∧
    ∀ answers, (∀ fuel n, flush answers fuel n (waitingFor [7]) = none) ∧ ¬ EndsByItself answers (waitingFor [7]) := by
  refine ⟨waitingFor_reachable [7], fun answers => ?_⟩
  have hnone : ∀ fuel n, flush answers fuel n (waitingFor [7]) = none :=
    flush_waiting rfl rfl (by decide)
  refine ⟨hnone, fun h => ?_⟩
  obtain ⟨fuel, s', hsome⟩ := h.ends
  rw [hnone] at hsome
  cases hsome

end OpenCRun.Flush
