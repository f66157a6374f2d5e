import OpenCRun.Core.InOrderQueue
import OpenCRun.Core.QueueThreads
/-!
# What `Finish` waits for

A command that has been enqueued is in one of the queue's containers, or its
event is terminal: a command leaves the containers only after it was marked
completed, and the snapshot is taken while nobody moves a command.
-/
open Lib.Runs

namespace OpenCRun.QueueThreads

open Queue EventStatus

section Finish
variable {s s' : State}

def Terminal (s : State) (cmd : Queue.Command) : Prop := hasCompleted (s.status cmd.notifyEvent) = true

/-- `notifyCompletion` marks with a terminal status. -/
theorem markCompleted_terminal (current : Int) (error : Bool) :
    hasCompleted (markCompleted current (if error then -1 else 0)) = true := by
  rw [hasCompleted_iff]
  have hle : signal current (if error then -1 else 0) ≤ 0 := by
    rw [signal_eq_min]
    cases error <;> omega
  unfold markCompleted
  cases error <;> exact hle

/-- What a thread about to return from `RunScheduler` to its caller knows. -/
def Caller.Knows (s : State) : Caller → Prop
  | .commandDone cmd => cmd ∈ s.enqueued ∧ Terminal s cmd
  | .finish before => ∀ c ∈ before, c ∈ s.enqueued
  | _ => True

/-- What a thread knows of the commands it deals with. -/
def Pc.Knows (s : State) : Pc → Prop
  | .runScheduler caller => caller.Knows s
  | .submit caller _ _ => caller.Knows s
  | .markCompleted cmd _ => cmd ∈ s.enqueued
  | .commandDone cmd => cmd ∈ s.enqueued ∧ Terminal s cmd
  | .erase cmd => cmd ∈ s.enqueued ∧ Terminal s cmd
  | .snapshot before => ∀ c ∈ before, c ∈ s.enqueued
  | .waitAll events before => ∀ c ∈ before, c ∈ s.enqueued ∧ (Terminal s c ∨ c.notifyEvent ∈ events)
  | _ => True

structure Waiting (s : State) : Prop where
  /-- No command slips out. -/
  tracked : ∀ c ∈ s.enqueued, c ∈ s.queue.commands ∨ c ∈ s.queue.pendingCommands ∨ Terminal s c
  commands : ∀ c ∈ s.queue.commands, c ∈ s.enqueued
  parts : ∀ c, s.parts c ≠ 0 → c ∈ s.enqueued
  knows : ∀ t, (s.pc t).Knows s

theorem Waiting.knows_at (h : Waiting s) {t : Nat} {pc : Pc} (hpc : s.pc t = pc) : pc.Knows s := by
  rw [← hpc]
  exact h.knows t

/-- A command that is in the history may have parts. -/
theorem Waiting.parts_update (h : Waiting s) {cmd : Queue.Command} (hm : cmd ∈ s.enqueued) (n : Nat) (c : Queue.Command)
    (hc : Function.update s.parts cmd n c ≠ 0) : c ∈ s.enqueued := by
  rw [Function.update_apply] at hc
  split at hc
  · rename_i he
    rw [he]
    exact hm
  · exact h.parts c hc

/-- What only ever grows: the history, and the commands whose events are terminal. -/
structure Grows (s s' : State) : Prop where
  enqueued : ∀ c ∈ s.enqueued, c ∈ s'.enqueued
  terminal : ∀ c ∈ s.enqueued, Terminal s c → Terminal s' c

theorem Grows.of_eq (hq : s'.enqueued = s.enqueued) (hs : s'.status = s.status) : Grows s s' := by
  refine ⟨fun c hc => ?_, fun c _ ht => ?_⟩
  · rw [hq]
    exact hc
  · unfold Terminal at ht ⊢
    rw [hs]
    exact ht

/-- A signal leaves what is terminal terminal. -/
theorem Grows.of_update {event : Nat} {value : Int} (hq : s'.enqueued = s.enqueued)
    (hs : s'.status = Function.update s.status event value)
    (hv : hasCompleted (s.status event) = true → hasCompleted value = true) : Grows s s' := by
  refine ⟨fun c hc => ?_, fun c _ ht => ?_⟩
  · rw [hq]
    exact hc
  · unfold Terminal at ht ⊢
    rw [hs, Function.update_apply]
    split
    · rename_i he
      rw [he] at ht
      exact hv ht
    · exact ht

theorem Caller.Knows.grows {caller : Caller} (h : caller.Knows s) (hg : Grows s s') : caller.Knows s' := by
  cases caller with
  | commandDone cmd => exact ⟨hg.enqueued _ h.1, hg.terminal _ h.1 h.2⟩
  | finish before => exact fun c hc => hg.enqueued c (h c hc)
  | enqueue | flush => trivial

theorem Pc.Knows.grows {pc : Pc} (h : pc.Knows s) (hg : Grows s s') : pc.Knows s' := by
  cases pc with
  | runScheduler caller => exact Caller.Knows.grows h hg
  | submit caller _ _ => exact Caller.Knows.grows h hg
  | markCompleted cmd _ => exact hg.enqueued _ h
  | commandDone cmd => exact ⟨hg.enqueued _ h.1, hg.terminal _ h.1 h.2⟩
  | erase cmd => exact ⟨hg.enqueued _ h.1, hg.terminal _ h.1 h.2⟩
  | snapshot before => exact fun c hc => hg.enqueued c (h c hc)
  | waitAll events before =>
    intro c hc
    obtain ⟨he, ht⟩ := h c hc
    exact ⟨hg.enqueued c he, ht.imp_left (hg.terminal c he)⟩
  | idle | isBlocking | wait => trivial

/-- A caller that returns from `RunScheduler` knows what it knew. -/
theorem Caller.Knows.next {caller : Caller} (h : caller.Knows s) (more : Bool) : (caller.next more).Knows s := by
  cases caller with
  | enqueue => trivial
  | commandDone => exact h
  | flush => cases more <;> trivial
  | finish => cases more <;> exact h

/-- A step that grows, and moves no command out of the containers. -/
theorem Waiting.of_grows (h : Waiting s) (hg : Grows s s') (hc : s'.queue.commands = s.queue.commands)
    (hp : s'.queue.pendingCommands = s.queue.pendingCommands) (hq : s'.enqueued = s.enqueued)
    (hparts : ∀ c, s'.parts c ≠ 0 → c ∈ s.enqueued) (hk : ∀ t, (s'.pc t).Knows s') : Waiting s' where
  tracked c hm := by
    rw [hq] at hm
    rw [hc, hp]
    exact (h.tracked c hm).imp_right (Or.imp_right (hg.terminal c hm))
  commands c hm := by
    rw [hc] at hm
    rw [hq]
    exact h.commands c hm
  parts c hm := by
    rw [hq]
    exact hparts c hm
  knows := hk

/-- A thread that only moves. -/
theorem Waiting.goto (h : Waiting s) (t : Nat) {pc : Pc} (hpc : pc.Knows s) : Waiting (s.goto t pc) := by
  have hg : Grows s (s.goto t pc) := .of_eq rfl rfl
  refine h.of_grows hg rfl rfl rfl h.parts ?_
  exact forall_goto (P := fun p => p.Knows (s.goto t pc)) (fun u => (h.knows u).grows hg) (hpc.grows hg) t

theorem Waiting.setStatus (h : Waiting s) {event : Nat} {value : Int}
    (hv : hasCompleted (s.status event) = true → hasCompleted value = true) : Waiting (s.setStatus event value) := by
  have hg : Grows s (s.setStatus event value) := .of_update rfl rfl hv
  exact h.of_grows hg rfl rfl rfl h.parts (fun t => (h.knows t).grows hg)

/-- Of the state, only the lock, the parts of commands and their counts change. -/
theorem Waiting.device (h : Waiting s) {lock : Option Nat} {parts waitCount : Queue.Command → Nat}
    (hparts : ∀ c, parts c ≠ 0 → c ∈ s.enqueued) :
    Waiting { s with lock := lock, parts := parts, waitCount := waitCount } := by
  have hg : Grows s { s with lock := lock, parts := parts, waitCount := waitCount } := .of_eq rfl rfl
  exact h.of_grows hg rfl rfl rfl hparts (fun t => (h.knows t).grows hg)

theorem Waiting.enqueue (h : Waiting s) {cmd : Queue.Command}
    (hnew : ∀ c ∈ s.enqueued, c.notifyEvent ≠ cmd.notifyEvent) :
    Waiting ({ s with
      queue := { s.queue with commands := s.queue.commands ++ [cmd] }
      enqueued := s.enqueued ++ [cmd] }.setStatus cmd.notifyEvent queued) := by
  set s' := { s with
    queue := { s.queue with commands := s.queue.commands ++ [cmd] }
    enqueued := s.enqueued ++ [cmd] }.setStatus cmd.notifyEvent queued with hs'
  have hg : Grows s s' := by
    refine ⟨fun c hc => List.mem_append_left _ hc, fun c hc ht => ?_⟩
    unfold Terminal at ht ⊢
    rw [hs', setStatus_status, Function.update_of_ne (hnew c hc)]
    exact ht
  constructor
  · intro c hc
    rcases List.mem_append.1 hc with hc | hc
    · rcases h.tracked c hc with hm | hm | hm
      · exact .inl (List.mem_append_left _ hm)
      · exact .inr (.inl hm)
      · exact .inr (.inr (hg.terminal c hc hm))
    · exact .inl (List.mem_append_right _ hc)
  · intro c hc
    rcases List.mem_append.1 hc with hc | hc
    · exact List.mem_append_left _ (h.commands c hc)
    · exact List.mem_append_right _ hc
  · exact fun c hc => List.mem_append_left _ (h.parts c hc)
  · exact fun t => (h.knows t).grows hg

/-- The command that the device took goes from one container to the other. -/
theorem Waiting.submitted (h : Waiting s) (accepted : Bool) :
    Waiting { s with lock := none, queue := (submitted s.queue accepted).1 } := by
  have hg : Grows s { s with lock := none, queue := (QueueThreads.submitted s.queue accepted).1 } := .of_eq rfl rfl
  cases accepted with
  | false =>
    have hq := submitted_refused s.queue
    exact h.of_grows hg (by simp only [hq]) (by simp only [hq]) rfl h.parts (fun t => (h.knows t).grows hg)
  | true =>
    cases hc : s.queue.commands with
    | nil =>
      have hq : (QueueThreads.submitted s.queue true).1 = s.queue := by simp only [QueueThreads.submitted, hc]
      exact h.of_grows hg (by simp only [hq]) (by simp only [hq]) rfl h.parts (fun t => (h.knows t).grows hg)
    | cons cmd rest =>
      have hq := submitted_cons hc
      refine ⟨fun c hm => ?_, fun c hm => ?_, h.parts, fun t => (h.knows t).grows hg⟩
      · simp only [hq, Finset.mem_insert]
        rcases h.tracked c hm with hm | hm | hm
        · rw [hc] at hm
          rcases List.mem_cons.1 hm with hm | hm
          · exact .inr (.inl (.inl hm))
          · exact .inl hm
        · exact .inr (.inl (.inr hm))
        · exact .inr (.inr hm)
      · simp only [hq] at hm
        apply h.commands
        rw [hc]
        exact List.mem_cons_of_mem _ hm

/-- A command that is erased is done with: its event is terminal. -/
theorem Waiting.erasePending (h : Waiting s) {cmd : Queue.Command} (ht : Terminal s cmd) :
    Waiting { s with queue := erasePending s.queue cmd } := by
  have hg : Grows s { s with queue := Queue.erasePending s.queue cmd } := .of_eq rfl rfl
  refine ⟨fun c hc => ?_, h.commands, h.parts, fun t => (h.knows t).grows hg⟩
  by_cases he : c = cmd
  · rw [he]
    exact .inr (.inr ht)
  · rcases h.tracked c hc with hm | hm | hm
    · exact .inl hm
    · exact .inr (.inl (Finset.mem_erase.2 ⟨he, hm⟩))
    · exact .inr (.inr hm)

/-! ## Runs -/

theorem waiting_step {eventContext : Nat → Nat} {l : Label} (h : Waiting s) (hs : Step eventContext s l s') :
    Waiting s' := by
  cases hs with
  | enqueue t cmd q hpc hlock hnew hq =>
    rw [InOrderQueue.enqueue_ok hq]
    exact (h.enqueue hnew).goto t trivial
  | rejected => exact h
  | flush t => exact h.goto t trivial
  | finish t => exact h.goto t fun c hc => hc
  | nothing t caller _ _ result hpc =>
    have hk : caller.Knows s := h.knows_at hpc
    exact h.goto t (hk.next result)
  | submit t caller cmd parts waitCount hpc hlock hf =>
    have hk : caller.Knows s := h.knows_at hpc
    obtain ⟨rest, hc⟩ := front_ok hf
    have hm : cmd ∈ s.enqueued := by
      apply h.commands
      rw [hc]
      exact List.mem_cons_self
    exact (h.device (h.parts_update hm parts)).goto t (hk.grows (.of_eq rfl rfl))
  | submitted t caller cmd accepted hpc =>
    have hk : caller.Knows s := h.knows_at hpc
    have hsig : hasCompleted (s.status cmd.notifyEvent) = true →
        hasCompleted (if accepted then markSubmitted (s.status cmd.notifyEvent) else s.status cmd.notifyEvent) = true := by
      intro ht
      split
      · exact hasCompleted_signal _ ht
      · exact ht
    have hg : Grows s (({ s with lock := none, queue := (QueueThreads.submitted s.queue accepted).1 } : State).setStatus
        cmd.notifyEvent _) := .of_update rfl rfl hsig
    exact ((h.submitted accepted).setStatus hsig).goto t (Caller.Knows.next (hk.grows hg) _)
  | isBlocking t cmd blocking =>
    refine h.goto t ?_
    cases blocking <;> trivial
  | waited t => exact h.goto t trivial
  | notifyStart cmd => exact h.setStatus (hasCompleted_signal _)
  | part t cmd error hp => exact h.device (h.parts_update (h.parts cmd hp) _)
  | lastPart t cmd error hpc hp =>
    have hm := h.parts cmd hp
    exact (h.device (h.parts_update hm _)).goto t hm
  | markCompleted t cmd error hpc =>
    have hm : cmd ∈ s.enqueued := h.knows_at hpc
    have ht := markCompleted_terminal (s.status cmd.notifyEvent) error
    refine (h.setStatus fun _ => ht).goto t ⟨hm, ?_⟩
    unfold Terminal
    rw [setStatus_status, Function.update_self]
    exact ht
  | commandDone t cmd hpc =>
    have hk : cmd ∈ s.enqueued ∧ Terminal s cmd := h.knows_at hpc
    have hd : Waiting { s with queue := Queue.commandDone s.queue } :=
      h.of_grows (.of_eq rfl rfl) rfl rfl rfl h.parts (fun u => (h.knows u).grows (.of_eq rfl rfl))
    exact hd.goto t hk
  | erasePending t cmd hpc =>
    have hk : cmd ∈ s.enqueued ∧ Terminal s cmd := h.knows_at hpc
    exact (h.erasePending hk.2).goto t trivial
  | snapshot t before order hpc hlock horder =>
    have hk : ∀ c ∈ before, c ∈ s.enqueued := h.knows_at hpc
    refine h.goto t fun c hc => ⟨hk c hc, ?_⟩
    rw [List.mem_map]
    rcases h.tracked c (hk c hc) with hm | hm | hm
    · exact .inr ⟨c, List.mem_append_right _ hm, rfl⟩
    · exact .inr ⟨c, List.mem_append_left _ ((horder c).2 hm), rfl⟩
    · exact .inl hm
  | waitedOne t event events before hpc ht =>
    have hk : ∀ c ∈ before, c ∈ s.enqueued ∧ (Terminal s c ∨ c.notifyEvent ∈ event :: events) := h.knows_at hpc
    refine h.goto t fun c hc => ⟨(hk c hc).1, ?_⟩
    rcases (hk c hc).2 with hm | hm
    · exact .inl hm
    · rcases List.mem_cons.1 hm with he | hm
      · exact .inl (by rw [Terminal, he]; exact ht)
      · exact .inr hm
  | finished t => exact h.goto t trivial
  | signal event status => exact h.setStatus (hasCompleted_signal _)

theorem waiting_invariant (eventContext : Nat → Nat) : Invariant (system eventContext) Waiting where
  init s hi := by
    obtain ⟨hc, hp, -, -, hpc, hparts, hq⟩ := hi
    refine ⟨fun c hm => ?_, fun c hm => ?_, fun c hm => absurd (hparts c) hm, fun t => ?_⟩
    · rw [hq] at hm
      cases hm
    · rw [hc] at hm
      cases hm
    · rw [hpc t]
      trivial
  step _ _ _ h hs := waiting_step h hs

/-- The thread is in a `Finish` that began with this history. -/
def Pc.InFinish (before : List Queue.Command) (pc : Pc) : Prop :=
  pc = .runScheduler (.finish before) ∨ (∃ cmd accepted, pc = .submit (.finish before) cmd accepted) ∨
    pc = .snapshot before ∨ ∃ events, pc = .waitAll events before

theorem inFinish_next (before : List Queue.Command) (more : Bool) :
    ((Caller.finish before).next more).InFinish before := by
  cases more with
  | true => exact .inl rfl
  | false => exact .inr (.inr (.inl rfl))

theorem runScheduler_inFinish {before : List Queue.Command} {caller : Caller}
    (h : (Pc.runScheduler caller).InFinish before) : caller = .finish before := by
  rcases h with h | ⟨_, _, h⟩ | h | ⟨_, h⟩ <;> cases h
  rfl

theorem submit_inFinish {before : List Queue.Command} {caller : Caller} {cmd : Queue.Command} {accepted : Bool}
    (h : (Pc.submit caller cmd accepted).InFinish before) : caller = .finish before := by
  rcases h with h | ⟨_, _, h⟩ | h | ⟨_, h⟩ <;> cases h
  rfl

/-- A thread moves, and the others stay where they are. -/
theorem inFinish_goto {before : List Queue.Command} {t u : Nat} {p pc : Pc} (h : (s.pc t).InFinish before)
    (hpc : s.pc u = p) (hto : p.InFinish before → pc.InFinish before) :
    (Function.update s.pc u pc t).InFinish before := by
  rw [Function.update_apply]
  split
  · rename_i he
    rw [he, hpc] at h
    exact hto h
  · exact h

/-- A thread stays in its call of `Finish` until the call returns. -/
theorem inFinish_step {eventContext : Nat → Nat} {l : Label} {t : Nat} {before : List Queue.Command}
    (h : (s.pc t).InFinish before) (hl : l ≠ .finished t) (hs : Step eventContext s l s') :
    (s'.pc t).InFinish before := by
  cases hs with
  | rejected | notifyStart | part | signal => exact h
  | enqueue u _ _ hpc | flush u hpc | finish u hpc | isBlocking u _ _ hpc | waited u _ hpc
  | lastPart u _ _ hpc | markCompleted u _ _ hpc | commandDone u _ hpc | erasePending u _ hpc =>
    apply inFinish_goto h hpc
    rintro (hf | ⟨_, _, hf⟩ | hf | ⟨_, hf⟩) <;> cases hf
  | nothing u caller _ _ result hpc =>
    apply inFinish_goto h hpc
    intro hf
    obtain rfl := runScheduler_inFinish hf
    exact inFinish_next before result
  | submit u caller cmd parts _ hpc =>
    apply inFinish_goto h hpc
    intro hf
    obtain rfl := runScheduler_inFinish hf
    exact .inr (.inl ⟨cmd, _, rfl⟩)
  | submitted u caller _ accepted hpc =>
    apply inFinish_goto h hpc
    intro hf
    obtain rfl := submit_inFinish hf
    exact inFinish_next before _
  | snapshot u _ order hpc =>
    apply inFinish_goto h hpc
    rintro (hf | ⟨_, _, hf⟩ | hf | ⟨_, hf⟩) <;> cases hf
    exact .inr (.inr (.inr ⟨_, rfl⟩))
  | waitedOne u _ events _ hpc =>
    apply inFinish_goto h hpc
    rintro (hf | ⟨_, _, hf⟩ | hf | ⟨_, hf⟩) <;> cases hf
    exact .inr (.inr (.inr ⟨events, rfl⟩))
  | finished u =>
    have hne : t ≠ u := by
      rintro rfl
      exact hl rfl
    rwa [goto_pc, Function.update_of_ne hne]

/-- From a call of `Finish` to its return, with whatever steps of other threads in between: the events of
all commands enqueued before the call are terminal by then. -/
theorem finish_waits {eventContext : Nat → Nat} {s₀ s₁ : State} {t : Nat}
    (hr : Reachable (system eventContext) s₀) (call : Step eventContext s₀ (.finish t) s₁)
    (run : Steps (system eventContext) (· ≠ .finished t) s₁ s) (ret : Step eventContext s (.finished t) s') :
    ∀ cmd ∈ s₀.enqueued, hasCompleted (s'.status cmd.notifyEvent) = true := by
  intro cmd hc
  have hstart : (s₁.pc t).InFinish s₀.enqueued := by
    cases call
    exact .inl (Function.update_self ..)
  have hend := run.keeps (P := fun s => (s.pc t).InFinish s₀.enqueued) (fun _ _ _ h hl hs => inFinish_step h hl hs) hstart
  have hreach : Reachable (system eventContext) s := run.reachable (.step hr call)
  cases ret with
  | finished _ before hpc =>
    have hk := ((waiting_invariant eventContext).reachable hreach).knows_at hpc
    rw [hpc] at hend
    rcases hend with h | ⟨_, _, h⟩ | h | ⟨_, h⟩ <;> cases h
    exact (hk cmd hc).2.resolve_right List.not_mem_nil

end Finish

/-- One thread has enqueued the command, and another has called `Finish`. -/
def called : State :=
  let enqueued := ({ idleQueue with
    queue := { idleQueue.queue with commands := [marker] }
    enqueued := [marker] }.setStatus marker.notifyEvent queued).goto 0 (.runScheduler (.enqueue marker))
  enqueued.goto 1 (.runScheduler (.finish [marker]))

/-- A third thread completes the command before `Finish` returns. -/
theorem finish_waits_marker :
    ∃ s₀ s' : State, Reachable (system fun _ => 0) s₀ ∧ marker ∈ s₀.enqueued ∧
      hasCompleted (s'.status marker.notifyEvent) = true := by
  have r₀ : Reachable (system fun _ => 0) idleQueue := .init ⟨rfl, rfl, rfl, rfl, fun _ => rfl, fun _ => rfl, rfl⟩
  have r₁ := r₀.step (.enqueue _ 0 marker _ rfl rfl (fun _ h => nomatch h) rfl)
  have n₀ : Steps (system fun _ => 0) (· ≠ .finished 1) called called := .refl _
  have n₁ := n₀.step (by rintro ⟨⟩) (.submit _ 1 (.finish [marker]) marker 1 1 rfl rfl rfl (by decide))
  have n₂ := n₁.step (by rintro ⟨⟩) (.submitted _ 1 (.finish [marker]) marker true rfl)
  have n₃ := n₂.step (by rintro ⟨⟩) (.snapshot _ 1 [marker] [marker] rfl rfl fun c => by simp [submitted, called, idleQueue])
  have n₄ := n₃.step (by rintro ⟨⟩) (.lastPart _ 2 marker false rfl Nat.one_ne_zero rfl)
  have n₅ := n₄.step (by rintro ⟨⟩) (.markCompleted _ 2 marker false rfl)
  have n₆ := n₅.step (by rintro ⟨⟩) (.waitedOne _ 1 7 [] [marker] rfl rfl)
  exact ⟨_, _, r₁, List.mem_cons_self,
    finish_waits r₁ (.finish _ 1 rfl) n₆ (.finished _ 1 [marker] rfl) marker List.mem_cons_self⟩

end OpenCRun.QueueThreads
