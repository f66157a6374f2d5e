import OpenCRun.Core.InOrderQueue
import OpenCRun.Core.QueueThreads
/-!
# Who reads a command, and when

`CommandDone` destroys the command it erases. The scheduler and `Finish` read
commands under the lock, and the device reads one until its last part reports;
`Enqueue` reads its command once more, without the lock, after all of that may
be over.
-/
open Lib.Runs

namespace OpenCRun.QueueThreads

open Queue EventStatus

section Lifetime
variable {s s' : State}

/-- The queue still owns the command. -/
def Owned (s : State) (cmd : Queue.Command) : Prop := cmd ∈ s.queue.commands ∨ cmd ∈ s.queue.pendingCommands

/-- The commands that a step reads. -/
def Reads (s : State) : Label → Queue.Command → Prop
  -- `CanRun`, and the submission
  | .runScheduler _ _ _, cmd => s.queue.commands.head? = some cmd
  -- `MarkSubmitted`
  | .submitted t, cmd => ∃ caller accepted, s.pc t = .submit caller cmd accepted
  | .isBlocking t _, cmd => s.pc t = .isBlocking cmd
  | .notifyStart c, cmd => cmd = c
  | .notifyCompletion _ c _, cmd => cmd = c
  | .snapshot _ _, cmd => cmd ∈ s.queue.commands ∨ cmd ∈ s.queue.pendingCommands
  | _, _ => False

/-- An `Enqueue` that has not come to `IsBlocking` yet. -/
def Caller.BeforeTest (cmd : Queue.Command) : Caller → Prop
  | .enqueue c => c = cmd
  | _ => False

def Pc.BeforeTest (cmd : Queue.Command) : Pc → Prop
  | .runScheduler caller => caller.BeforeTest cmd
  | .submit caller _ _ => caller.BeforeTest cmd
  | .isBlocking c => c = cmd
  | _ => False

/-- The report of a command, from its last part to the end of `CommandDone`. -/
def Caller.Reports (cmd : Queue.Command) : Caller → Prop
  | .commandDone c => c = cmd
  | _ => False

def Pc.Reports (cmd : Queue.Command) : Pc → Prop
  | .runScheduler caller => caller.Reports cmd
  | .submit caller _ _ => caller.Reports cmd
  | .markCompleted c _ => c = cmd
  | .commandDone c => c = cmd
  | .erase c => c = cmd
  | _ => False

/-- A command is erased only when no `Enqueue` of it is before its test, and a command taken in parts has
as many of them as its `WaitCount` says. -/
def Timely (s : State) : Label → Prop
  | .erasePending t => ∀ cmd, s.pc t = .erase cmd → ∀ u, ¬ (s.pc u).BeforeTest cmd
  | .runScheduler _ parts waitCount => parts = 0 ∨ parts = waitCount
  | _ => True

/-- The device is being given a command and takes it. -/
def Submitting (s : State) (cmd : Queue.Command) : Prop := ∃ t caller, s.pc t = .submit caller cmd true

/-- The device is done with the command, and the queue will not submit it again. -/
def Reported (s : State) (cmd : Queue.Command) : Prop :=
  s.parts cmd = 0 ∧ cmd ∈ s.enqueued ∧ (cmd ∉ s.queue.commands ∨ Submitting s cmd)

structure Owning (s : State) : Prop where
  locked : ∀ t caller cmd accepted, s.pc t = .submit caller cmd accepted →
    s.lock = some t ∧ ∃ rest, s.queue.commands = cmd :: rest
  nodup : s.queue.commands.Nodup
  apart : ∀ c ∈ s.queue.commands, c ∉ s.queue.pendingCommands
  known : ∀ c, Owned s c → c ∈ s.enqueued
  counted : ∀ c, s.parts c ≠ 0 → s.parts c = s.waitCount c ∧ s.waitCount c < 2 ^ 64
  running : ∀ c, s.parts c ≠ 0 → c ∈ s.queue.pendingCommands ∨ Submitting s c
  reported : ∀ t c, (s.pc t).Reports c → Reported s c
  tested : ∀ t c, (s.pc t).BeforeTest c → Owned s c

theorem Owning.submitting_owned (h : Owning s) {cmd : Queue.Command} (hc : Submitting s cmd) : Owned s cmd := by
  obtain ⟨t, caller, hpc⟩ := hc
  obtain ⟨-, rest, hq⟩ := h.locked t caller cmd true hpc
  left
  rw [hq]
  exact List.mem_cons_self

theorem Owning.running_owned (h : Owning s) {cmd : Queue.Command} (hc : s.parts cmd ≠ 0) : Owned s cmd := by
  rcases h.running cmd hc with hp | hsub
  · exact .inr hp
  · exact h.submitting_owned hsub

/-- While the lock is free, no command is being submitted. -/
theorem Owning.not_submitting (h : Owning s) (hlock : s.lock = none) (cmd : Queue.Command) : ¬ Submitting s cmd := by
  rintro ⟨t, caller, hpc⟩
  have hl := (h.locked t caller cmd true hpc).1
  rw [hlock] at hl
  cases hl

/-! ## The steps -/

/-- Not between the two steps of `RunScheduler`. -/
def Pc.Outside (pc : Pc) : Prop := ∀ caller cmd accepted, pc ≠ .submit caller cmd accepted

theorem Submitting.move {cmd : Queue.Command} (h : Submitting s cmd) {t : Nat} {pc : Pc} (hfrom : (s.pc t).Outside)
    (hmove : s'.pc = Function.update s.pc t pc) : Submitting s' cmd := by
  obtain ⟨u, caller, hpc⟩ := h
  have hne : u ≠ t := by
    rintro rfl
    exact hfrom _ _ _ hpc
  exact ⟨u, caller, by rw [hmove, Function.update_of_ne hne, hpc]⟩

/-- A thread is in a submission after a step that moves into none only when it was before. -/
theorem submit_of_goto {t u : Nat} {pc : Pc} {caller : Caller} {cmd : Queue.Command} {accepted : Bool} (hto : pc.Outside)
    (h : Function.update s.pc t pc u = .submit caller cmd accepted) : u ≠ t ∧ s.pc u = .submit caller cmd accepted := by
  rw [Function.update_apply] at h
  split at h
  · exact absurd h (hto _ _ _)
  · rename_i hne
    exact ⟨hne, h⟩

/-- A thread moves on, to report what is done and to test what is owned. -/
theorem Owning.goto (h : Owning s) {t : Nat} {pc : Pc} (hfrom : (s.pc t).Outside) (hto : pc.Outside)
    (hr : ∀ c, pc.Reports c → Reported s c) (hb : ∀ c, pc.BeforeTest c → Owned s c) : Owning (s.goto t pc) where
  locked u caller cmd accepted hu := h.locked u caller cmd accepted (submit_of_goto hto hu).2
  nodup := h.nodup
  apart := h.apart
  known := h.known
  counted := h.counted
  running c hc := (h.running c hc).imp_right fun hs => hs.move hfrom rfl
  reported u c hu := by
    obtain ⟨h0, hen, hcmd⟩ := forall_goto (P := fun p => p.Reports c → Reported s c) (fun v => h.reported v c) (hr c) t u hu
    exact ⟨h0, hen, hcmd.imp_right fun hs => hs.move hfrom rfl⟩
  tested u c hu := forall_goto (P := fun p => p.BeforeTest c → Owned s c) (fun v => h.tested v c) (hb c) t u hu

/-- A thread moves on, to report and to test no more than it did. -/
theorem Owning.move (h : Owning s) {t : Nat} {p pc : Pc} (hpc : s.pc t = p) (hfrom : p.Outside) (hto : pc.Outside)
    (hr : ∀ c, pc.Reports c → p.Reports c) (hb : ∀ c, pc.BeforeTest c → p.BeforeTest c) : Owning (s.goto t pc) := by
  subst hpc
  exact h.goto hfrom hto (fun c hc => h.reported t c (hr c hc)) (fun c hc => h.tested t c (hb c hc))

theorem Owning.setStatus (h : Owning s) (event : Nat) (value : Int) : Owning (s.setStatus event value) :=
  ⟨h.locked, h.nodup, h.apart, h.known, h.counted, h.running, h.reported, h.tested⟩

theorem Owning.enqueue (h : Owning s) {cmd : Queue.Command} (hnew : cmd ∉ s.enqueued) {t : Nat} (hpc : s.pc t = .idle) :
    Owning ({ s with
      queue := { s.queue with commands := s.queue.commands ++ [cmd] }
      enqueued := s.enqueued ++ [cmd] }.goto t (.runScheduler (.enqueue cmd))) := by
  have hfrom : (s.pc t).Outside := by
    rw [hpc]
    rintro _ _ _ ⟨⟩
  have hnot : ¬ Owned s cmd := fun ho => hnew (h.known cmd ho)
  constructor
  · intro u caller c accepted hu
    obtain ⟨-, hu⟩ := submit_of_goto (by rintro _ _ _ ⟨⟩) hu
    obtain ⟨hl, rest, hq⟩ := h.locked u caller c accepted hu
    exact ⟨hl, rest ++ [cmd], by simp only [goto_queue, hq, List.cons_append]⟩
  · apply List.nodup_append.2
    refine ⟨h.nodup, List.nodup_singleton _, ?_⟩
    rintro a ha b hb rfl
    obtain rfl := List.mem_singleton.1 hb
    exact hnot (.inl ha)
  · intro c hc
    rcases List.mem_append.1 hc with hc | hc
    · exact h.apart c hc
    · obtain rfl := List.mem_singleton.1 hc
      exact fun hp => hnot (.inr hp)
  · intro c hc
    apply List.mem_append.2
    rcases hc with hc | hc
    · exact (List.mem_append.1 hc).imp_left fun hc => h.known c (.inl hc)
    · exact .inl (h.known c (.inr hc))
  · exact h.counted
  · exact fun c hc => (h.running c hc).imp_right fun hs => hs.move hfrom rfl
  · intro u c hu
    rw [goto_pc, Function.update_apply] at hu
    split at hu
    · cases hu
    · obtain ⟨h0, hq, hcmd⟩ := h.reported u c hu
      refine ⟨h0, List.mem_append_left _ hq, hcmd.imp (fun hc hm => ?_) fun hs => hs.move hfrom rfl⟩
      rcases List.mem_append.1 hm with hm | hm
      · exact hc hm
      · obtain rfl := List.mem_singleton.1 hm
        exact hnew hq
  · intro u c hu
    rw [goto_pc, Function.update_apply] at hu
    split at hu
    · obtain rfl : cmd = c := hu
      exact .inl (List.mem_append_right _ List.mem_cons_self)
    · exact (h.tested u c hu).imp_left fun hc => List.mem_append_left _ hc

/-- The thread takes the lock, and the device begins with the front. -/
theorem Owning.submit (h : Owning s) {t : Nat} {caller : Caller} {cmd : Queue.Command} {parts waitCount : Nat}
    (hpc : s.pc t = .runScheduler caller) (hlock : s.lock = none) {rest : List Queue.Command}
    (hq : s.queue.commands = cmd :: rest) (hcount : waitCount < 2 ^ 64) (hparts : parts = 0 ∨ parts = waitCount) :
    Owning ({ s with
      lock := some t
      parts := Function.update s.parts cmd parts
      waitCount := Function.update s.waitCount cmd waitCount }.goto t (.submit caller cmd (parts != 0))) := by
  have hmem : cmd ∈ s.queue.commands := by
    rw [hq]
    exact List.mem_cons_self
  refine ⟨?_, h.nodup, h.apart, h.known, ?_, ?_, ?_, ?_⟩
  · intro u caller' c accepted hu
    rw [goto_pc, Function.update_apply] at hu
    split at hu
    · rename_i he
      cases hu
      exact ⟨by rw [he]; rfl, rest, hq⟩
    · have hl := (h.locked u caller' c accepted hu).1
      rw [hlock] at hl
      cases hl
  · intro c hc
    simp only [goto_parts, goto_waitCount, Function.update_apply] at hc ⊢
    split at hc
    · rename_i he
      simp only [he, if_true]
      have heq := hparts.resolve_left hc
      exact ⟨heq, hcount⟩
    · rename_i he
      simp only [he, if_false]
      exact h.counted c hc
  · intro c hc
    simp only [goto_parts, Function.update_apply] at hc
    split at hc
    · rename_i he
      right
      refine ⟨t, caller, ?_⟩
      rw [goto_pc, Function.update_self, he, bne_iff_ne.2 hc]
    · left
      exact (h.running c hc).resolve_right (h.not_submitting hlock c)
  · intro u c hu
    obtain ⟨v, hv⟩ := exists_of_goto (P := Pc.Reports c) hu (by rw [hpc]; exact id)
    obtain ⟨h0, hen, hcmd⟩ := h.reported v c hv
    have hnot : c ∉ s.queue.commands := hcmd.resolve_right (h.not_submitting hlock c)
    have hne : c ≠ cmd := by
      rintro rfl
      exact hnot hmem
    exact ⟨(Function.update_of_ne hne ..).trans h0, hen, .inl hnot⟩
  · intro u c hu
    obtain ⟨v, hv⟩ := exists_of_goto (P := Pc.BeforeTest c) hu (by rw [hpc]; exact id)
    exact h.tested v c hv

theorem next_outside (caller : Caller) (more : Bool) : (caller.next more).Outside := by
  rintro _ _ _ he
  cases caller <;> cases more <;> cases he

theorem next_reports {caller : Caller} {more : Bool} {cmd : Queue.Command} (h : (caller.next more).Reports cmd) :
    caller.Reports cmd := by
  cases caller <;> cases more <;> exact h

theorem next_beforeTest {caller : Caller} {more : Bool} {cmd : Queue.Command}
    (h : (caller.next more).BeforeTest cmd) : caller.BeforeTest cmd := by
  cases caller <;> cases more <;> exact h

/-- Only the thread with the lock is submitting. -/
theorem Owning.only (h : Owning s) {t u : Nat} {caller caller' : Caller} {cmd c : Queue.Command} {accepted a : Bool}
    (ht : s.pc t = .submit caller cmd accepted) (hu : s.pc u = .submit caller' c a) :
    u = t ∧ c = cmd ∧ a = accepted := by
  have hl := (h.locked t caller cmd accepted ht).1
  rw [(h.locked u caller' c a hu).1] at hl
  obtain rfl := Option.some.inj hl
  rw [ht] at hu
  cases hu
  exact ⟨rfl, rfl, rfl⟩

section Submitted
variable {t : Nat} {caller : Caller} {cmd : Queue.Command}

/-- The thread gives the lock back, and the front is where it was. -/
theorem Owning.refused (h : Owning s) (hpc : s.pc t = .submit caller cmd false) (more : Bool) :
    Owning ({ s with lock := none }.goto t (caller.next more)) := by
  have hnone : ∀ c, ¬ Submitting s c := by
    rintro c ⟨u, caller', hu⟩
    exact Bool.noConfusion (h.only hpc hu).2.2
  refine ⟨?_, h.nodup, h.apart, h.known, h.counted, ?_, ?_, ?_⟩
  · intro u caller' c a hu
    obtain ⟨hne, hu⟩ := submit_of_goto (next_outside caller more) hu
    exact absurd (h.only hpc hu).1 hne
  · exact fun c hc => .inl ((h.running c hc).resolve_right (hnone c))
  · intro u c hu
    obtain ⟨v, hv⟩ := exists_of_goto (P := Pc.Reports c) hu (by rw [hpc]; exact next_reports)
    obtain ⟨h0, hen, hcmd⟩ := h.reported v c hv
    exact ⟨h0, hen, .inl (hcmd.resolve_right (hnone c))⟩
  · intro u c hu
    obtain ⟨v, hv⟩ := exists_of_goto (P := Pc.BeforeTest c) hu (by rw [hpc]; exact next_beforeTest)
    exact h.tested v c hv

/-- The thread gives the lock back, and the command has gone to the other container. -/
theorem Owning.taken (h : Owning s) (hpc : s.pc t = .submit caller cmd true) (more : Bool)
    {rest : List Queue.Command} (hq : s.queue.commands = cmd :: rest) :
    Owning ({ s with
      lock := none
      queue := { s.queue with
        commands := rest
        pendingCommands := insert cmd s.queue.pendingCommands
        commandOnFly := true } }.goto t (caller.next more)) := by
  have hnodup := h.nodup
  rw [hq, List.nodup_cons] at hnodup
  have hsub : ∀ c ∈ rest, c ∈ s.queue.commands := by
    intro c hc
    rw [hq]
    exact List.mem_cons_of_mem _ hc
  have honly : ∀ c, Submitting s c → c = cmd := by
    rintro c ⟨u, caller', hu⟩
    exact (h.only hpc hu).2.1
  constructor
  · intro u caller' c a hu
    obtain ⟨hne, hu⟩ := submit_of_goto (next_outside caller more) hu
    exact absurd (h.only hpc hu).1 hne
  · exact hnodup.2
  · intro c hc
    simp only [goto_queue, Finset.mem_insert, not_or]
    refine ⟨?_, h.apart c (hsub c hc)⟩
    rintro rfl
    exact hnodup.1 hc
  · rintro c (hc | hc)
    · exact h.known c (.inl (hsub c hc))
    · apply h.known c
      rcases Finset.mem_insert.1 hc with rfl | hc
      · left
        rw [hq]
        exact List.mem_cons_self
      · exact .inr hc
  · exact h.counted
  · intro c hc
    left
    apply Finset.mem_insert.2
    exact (h.running c hc).symm.imp_left (honly c)
  · intro u c hu
    obtain ⟨v, hv⟩ := exists_of_goto (P := Pc.Reports c) hu (by rw [hpc]; exact next_reports)
    obtain ⟨h0, hen, hcmd⟩ := h.reported v c hv
    refine ⟨h0, hen, .inl ?_⟩
    rcases hcmd with hn | hs
    · exact fun hm => hn (hsub c hm)
    · rw [honly c hs]
      exact hnodup.1
  · intro u c hu
    obtain ⟨v, hv⟩ := exists_of_goto (P := Pc.BeforeTest c) hu (by rw [hpc]; exact next_beforeTest)
    rcases h.tested v c hv with hc | hc
    · rw [hq] at hc
      rcases List.mem_cons.1 hc with rfl | hc
      · exact .inr (Finset.mem_insert_self ..)
      · exact .inl hc
    · exact .inr (Finset.mem_insert_of_mem hc)

end Submitted

/-- A part of a command is over. -/
theorem Owning.part (h : Owning s) {cmd : Queue.Command} (hp : s.parts cmd ≠ 0) :
    Owning { s with
      parts := Function.update s.parts cmd (s.parts cmd - 1)
      waitCount := Function.update s.waitCount cmd (decrement (s.waitCount cmd)) } := by
  obtain ⟨heq, hlt⟩ := h.counted cmd hp
  have hdec : decrement (s.waitCount cmd) = s.parts cmd - 1 := by
    rw [heq] at hp ⊢
    exact decrement_eq hp hlt
  have hle : ∀ c, Function.update s.parts cmd (s.parts cmd - 1) c ≠ 0 → s.parts c ≠ 0 := by
    intro c hc
    rw [Function.update_apply] at hc
    split at hc
    · rename_i he
      rwa [he]
    · exact hc
  refine ⟨h.locked, h.nodup, h.apart, h.known, ?_, fun c hc => h.running c (hle c hc), ?_, h.tested⟩
  · intro c hc
    have hc' := h.counted c (hle c hc)
    simp only [Function.update_apply] at hc ⊢
    split
    · exact ⟨hdec.symm, by omega⟩
    · exact hc'
  · intro u c hu
    obtain ⟨h0, hen, hcmd⟩ := h.reported u c hu
    refine ⟨?_, hen, hcmd⟩
    by_contra hc
    exact hle c hc h0

/-- A command is erased once it has been reported, and when nobody is to test it. -/
theorem Owning.erasePending (h : Owning s) {cmd : Queue.Command} (h0 : s.parts cmd = 0)
    (hfree : ∀ u, ¬ (s.pc u).BeforeTest cmd) : Owning { s with queue := erasePending s.queue cmd } := by
  refine ⟨h.locked, h.nodup, fun c hc hm => h.apart c hc (Finset.mem_of_mem_erase hm), ?_, h.counted, ?_, h.reported, ?_⟩
  · exact fun c hc => h.known c (hc.imp_right Finset.mem_of_mem_erase)
  · intro c hc
    refine (h.running c hc).imp_left fun hm => Finset.mem_erase.2 ⟨?_, hm⟩
    rintro rfl
    exact hc h0
  · intro u c hu
    refine (h.tested u c hu).imp_right fun hm => Finset.mem_erase.2 ⟨?_, hm⟩
    rintro rfl
    exact hfree u hu

/-! ## Runs -/

theorem owning_step {eventContext : Nat → Nat} {l : Label} (h : Owning s) (ht : Timely s l)
    (hs : Step eventContext s l s') : Owning s' := by
  cases hs with
  | enqueue t cmd q hpc hlock hnew hq =>
    rw [InOrderQueue.enqueue_ok hq]
    have hn : cmd ∉ s.enqueued := fun hm => hnew cmd hm rfl
    exact (h.enqueue hn hpc).setStatus _ _
  | rejected => exact h
  | flush t hpc | finish t hpc | waited t _ hpc | snapshot t _ _ hpc | waitedOne t _ _ _ hpc | finished t _ hpc =>
    exact h.move hpc (by rintro _ _ _ ⟨⟩) (by rintro _ _ _ ⟨⟩) (fun _ => False.elim) (fun _ => False.elim)
  | nothing t caller _ _ result hpc =>
    exact h.move hpc (by rintro _ _ _ ⟨⟩) (next_outside caller result) (fun _ => next_reports) (fun _ => next_beforeTest)
  | submit t caller cmd parts waitCount hpc hlock hf hcount =>
    obtain ⟨rest, hq⟩ := front_ok hf
    exact h.submit hpc hlock hq hcount ht
  | submitted t caller cmd accepted hpc =>
    obtain ⟨-, rest, hq⟩ := h.locked t caller cmd accepted hpc
    cases accepted with
    | false =>
      rw [submitted_refused]
      exact (h.refused hpc _).setStatus _ _
    | true =>
      rw [submitted_cons hq]
      exact (h.taken hpc _ hq).setStatus _ _
  | isBlocking t cmd blocking hpc =>
    refine h.move hpc (by rintro _ _ _ ⟨⟩) ?_ ?_ ?_
    · cases blocking <;> rintro _ _ _ ⟨⟩
    · cases blocking <;> exact fun _ => False.elim
    · cases blocking <;> exact fun _ => False.elim
  | notifyStart cmd => exact h.setStatus _ _
  | part t cmd error hp => exact h.part hp
  | lastPart t cmd error hpc hp hw =>
    have hfrom : (s.pc t).Outside := by
      rw [hpc]
      rintro _ _ _ ⟨⟩
    refine (h.part hp).goto hfrom (by rintro _ _ _ ⟨⟩) (fun c hc => ?_) (fun _ => False.elim)
    obtain rfl : cmd = c := hc
    refine ⟨?_, h.known cmd (h.running_owned hp), ?_⟩
    · obtain ⟨heq, hlt⟩ := h.counted cmd hp
      rw [decrement_eq (heq ▸ hp) hlt, ← heq] at hw
      exact (Function.update_self ..).trans hw
    · exact (h.running cmd hp).imp_left fun hm hc => h.apart cmd hc hm
  | markCompleted t cmd error hpc =>
    have hs := h.setStatus cmd.notifyEvent (markCompleted (s.status cmd.notifyEvent) (if error then -1 else 0))
    exact hs.move hpc (by rintro _ _ _ ⟨⟩) (by rintro _ _ _ ⟨⟩) (fun _ => id) (fun _ => False.elim)
  | commandDone t cmd hpc =>
    have hd : Owning { s with queue := commandDone s.queue } :=
      ⟨h.locked, h.nodup, h.apart, h.known, h.counted, h.running, h.reported, h.tested⟩
    exact hd.move hpc (by rintro _ _ _ ⟨⟩) (by rintro _ _ _ ⟨⟩) (fun _ => id) (fun _ => False.elim)
  | erasePending t cmd hpc =>
    have h0 : s.parts cmd = 0 := (h.reported t cmd (by rw [hpc]; rfl)).1
    have he := h.erasePending h0 (ht cmd hpc)
    exact he.move hpc (by rintro _ _ _ ⟨⟩) (by rintro _ _ _ ⟨⟩) (fun _ => False.elim) (fun _ => False.elim)
  | signal => exact h.setStatus _ _

theorem owning_invariant (eventContext : Nat → Nat) : Invariant ((system eventContext).meeting Timely) Owning where
  init s hi := by
    obtain ⟨hc, hp, -, -, hpc, hparts, -⟩ := hi
    refine ⟨fun t _ _ _ h => ?_, ?_, fun c h => ?_, fun c h => ?_, fun c h => absurd (hparts c) h,
      fun c h => absurd (hparts c) h, fun t c h => ?_, fun t c h => ?_⟩
    · rw [hpc t] at h
      cases h
    · rw [hc]
      exact List.nodup_nil
    · rw [hc] at h
      cases h
    · rw [Owned, hc, hp] at h
      rcases h with h | h <;> cases h
    · rw [hpc t] at h
      exact h.elim
    · rw [hpc t] at h
      exact h.elim
  step _ _ _ h hs := owning_step h hs.1 hs.2

/-- As long as no command is erased under an `Enqueue` that is still to test it, whatever a step reads is
owned by the queue. -/
theorem reads_owned {eventContext : Nat → Nat} (hr : Reachable ((system eventContext).meeting Timely) s) {l : Label}
    (hs : Step eventContext s l s') {cmd : Queue.Command} (hc : Reads s l cmd) : Owned s cmd := by
  have h := (owning_invariant eventContext).reachable hr
  cases hs with
  | nothing | submit => exact .inl (List.mem_of_mem_head? hc)
  | submitted t =>
    obtain ⟨caller, accepted, hpc⟩ := hc
    obtain ⟨-, rest, hq⟩ := h.locked t caller cmd accepted hpc
    left
    rw [hq]
    exact List.mem_cons_self
  | isBlocking t c blocking hpc =>
    apply h.tested t cmd
    have hc : s.pc t = .isBlocking cmd := hc
    rw [hc]
    rfl
  | notifyStart c hp | part t c error hp | lastPart t c error _ hp =>
    obtain rfl : cmd = c := hc
    exact h.running_owned hp
  | snapshot => exact hc
  | enqueue | rejected | flush | finish | waited | markCompleted | commandDone | erasePending | waitedOne | finished
  | signal => exact hc.elim

end Lifetime

/-- A command is tested before it is reported. -/
theorem reads_owned_marker :
    ∃ s : State, Reachable ((system fun _ => 0).meeting Timely) s ∧ s.pc 0 = .isBlocking marker ∧ Owned s marker := by
  have r₀ : Reachable ((system fun _ => 0).meeting Timely) idleQueue :=
    .init ⟨rfl, rfl, rfl, rfl, fun _ => rfl, fun _ => rfl, rfl⟩
  have r₁ := r₀.step ⟨by exact trivial, .enqueue _ 0 marker _ rfl rfl (fun _ h => nomatch h) rfl⟩
  have r₂ := r₁.step ⟨by exact .inr rfl, .submit _ 0 (.enqueue marker) marker 1 1 rfl rfl rfl (by decide)⟩
  have r₃ := r₂.step ⟨by exact trivial, .submitted _ 0 (.enqueue marker) marker true rfl⟩
  exact ⟨_, r₃, rfl, reads_owned r₃ (.isBlocking _ 0 marker false rfl) rfl⟩

/-- The device completes the command and `CommandDone` erases it, all before `Enqueue` tests it. -/
theorem enqueue_reads_erased :
    ∃ s s' : State, Reachable (system fun _ => 0) s ∧ Step (fun _ => 0) s (.isBlocking 0 false) s' ∧
      Reads s (.isBlocking 0 false) marker ∧ ¬ Owned s marker := by
  have r₀ : Reachable (system fun _ => 0) idleQueue := .init ⟨rfl, rfl, rfl, rfl, fun _ => rfl, fun _ => rfl, rfl⟩
  have r₁ := r₀.step (.enqueue _ 0 marker _ rfl rfl (fun _ h => nomatch h) rfl)
  have r₂ := r₁.step (.submit _ 0 (.enqueue marker) marker 1 1 rfl rfl rfl (by decide))
  have r₃ := r₂.step (.submitted _ 0 (.enqueue marker) marker true rfl)
  have r₄ := r₃.step (.lastPart _ 1 marker false rfl Nat.one_ne_zero rfl)
  have r₅ := r₄.step (.markCompleted _ 1 marker false rfl)
  have r₆ := r₅.step (.commandDone _ 1 marker rfl rfl)
  have r₇ := r₆.step (.nothing _ 1 (.commandDone marker) 0 0 false rfl rfl rfl)
  have r₈ := r₇.step (.erasePending _ 1 marker rfl rfl)
  exact ⟨_, _, r₈, .isBlocking _ 0 marker false rfl, rfl, by rintro (h | h) <;> revert h <;> decide⟩

end OpenCRun.QueueThreads
