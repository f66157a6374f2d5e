import Mathlib.Data.List.Infix
import OpenCRun.Lib.Runs
/-!
# The command list of a CPU thread

`CPUThread.cpp`. Any number of threads submit, the thread's own loop takes
commands from the front, and the destructor submits a last command and joins.
`Submit` and the taking of a command hold the monitor; the loop reads `Mode`
without it.
-/
open Lib.Runs

namespace OpenCRun.CPUThread

/-! ## Commands -/

inductive CommandType where
  -- Service Commands
  | stopDevice
  -- Single Exec Commands
  | readBuffer | writeBuffer | copyBuffer
  | readImage | writeImage | copyImage | copyImageToBuffer | copyBufferToImage
  | mapBuffer | mapImage | unmapMemObject
  | readBufferRect | writeBufferRect | copyBufferRect
  | fillBuffer | fillImage
  | nativeKernel | noOp
  -- Multi Exec Commands
  | ndRangeKernelBlock
  deriving DecidableEq, Repr

structure CPUCommand where
  type : CommandType
  number : Nat
  deriving DecidableEq, Repr

def CPUCommand.IsStop (cmd : CPUCommand) : Prop := cmd.type = .stopDevice

instance (cmd : CPUCommand) : Decidable cmd.IsStop := inferInstanceAs (Decidable (_ = _))

inductive WorkingMode where
  | fullyOperational
  | tearDown
  | stopped
  deriving DecidableEq, Repr

namespace WorkingMode

def bits : WorkingMode → Nat
  | fullyOperational => 1 <<< 0
  | tearDown => 1 <<< 1
  | stopped => 1 <<< 2

def noNewJobs : Nat := tearDown.bits ||| stopped.bits

def execJobs : Nat := fullyOperational.bits ||| tearDown.bits

def has (mode : WorkingMode) (mask : Nat) : Bool := mode.bits &&& mask != 0

@[simp] theorem has_noNewJobs (mode : WorkingMode) : mode.has noNewJobs = decide (mode ≠ fullyOperational) := by
  cases mode <;> decide

@[simp] theorem has_execJobs (mode : WorkingMode) : mode.has execJobs = decide (mode ≠ stopped) := by
  cases mode <;> decide

end WorkingMode

/-! ## The thread -/

/-- Where the loop of `Run` is. -/
inductive Pc where
  /-- Before `Mode & ExecJobs`. -/
  | check
  /-- Before it tests whether there is a command, in the monitor. -/
  | test
  | asleep
  | execute (cmd : CPUCommand)
  | returned
  deriving DecidableEq, Repr

inductive Destructor where
  | notCalled
  | joining
  | joined
  deriving DecidableEq, Repr

/-- A thread, and two logs that the code has no use for. -/
structure State where
  mode : WorkingMode := .fullyOperational
  commands : List CPUCommand := []
  pc : Pc := .check
  destructor : Destructor := .notCalled
  accepted : List CPUCommand := []
  executed : List CPUCommand := []

/-- `Submit`, and what it returns. -/
def submit (t : State) (cmd : CPUCommand) : State × Bool :=
  if t.mode.has WorkingMode.noNewJobs then (t, false)
  else
    ({ t with
        mode := match cmd.type with
          | .stopDevice => .tearDown
          | _ => t.mode
        commands := t.commands ++ [cmd]
        pc := if t.pc = .asleep then .test else t.pc
        accepted := t.accepted ++ [cmd] }, true)

/-- The next step of `Run`. A thread that sleeps may also wake up without a signal. -/
def run (t : State) : State :=
  match t.pc with
  | .check => { t with pc := if t.mode.has WorkingMode.execJobs then .test else .returned }
  | .test =>
    match t.commands with
    | [] => { t with pc := .asleep }
    | cmd :: rest => { t with commands := rest, pc := .execute cmd }
  | .asleep => { t with pc := .test }
  | .execute cmd =>
    { t with
      mode := match cmd.type with
        | .stopDevice => .stopped
        | _ => t.mode
      pc := .check
      executed := t.executed ++ [cmd] }
  | .returned => t

inductive Label where
  | submit (cmd : CPUCommand)
  | destroy (stop : CPUCommand)
  | join
  | run
  deriving DecidableEq

/-- Nobody calls a thread that has been destroyed. -/
inductive Step : State → Label → State → Prop
  | submit (t : State) (cmd : CPUCommand) (h : t.destructor ≠ .joined) : Step t (.submit cmd) (submit t cmd).1
  | destroy (t : State) (stop : CPUCommand) (hs : stop.IsStop) (h : t.destructor = .notCalled) :
      Step t (.destroy stop) { (submit t stop).1 with destructor := .joining }
  | join (t : State) (h : t.destructor = .joining) (hpc : t.pc = .returned) : Step t .join { t with destructor := .joined }
  | run (t : State) (hpc : t.pc ≠ .returned) : Step t .run (run t)

def system : System State Label where
  init t := t = {}
  step := Step

/-! ## The invariant -/

/-- The command that has left the list and is not executed yet. -/
def State.inFlight (t : State) : List CPUCommand :=
  match t.pc with
  | .execute cmd => [cmd]
  | _ => []

structure Inv (t : State) : Prop where
  accounts : t.accepted = t.executed ++ (t.inFlight ++ t.commands)
  full : t.mode = .fullyOperational → ∀ c ∈ t.accepted, ¬ c.IsStop
  /-- The stop command is the last of what is left. -/
  tearing : t.mode = .tearDown → ∃ rest stop, t.inFlight ++ t.commands = rest ++ [stop] ∧ stop.IsStop ∧
    ∀ c ∈ t.executed ++ rest, ¬ c.IsStop
  stopped : t.mode = .stopped → t.inFlight = [] ∧ t.commands = [] ∧
    ∃ rest stop, t.executed = rest ++ [stop] ∧ stop.IsStop ∧ ∀ c ∈ rest, ¬ c.IsStop
  asleep : t.pc = .asleep → t.commands = []
  returned : t.pc = .returned → t.mode = .stopped

section StepInv
variable {t : State}

theorem inFlight_of_ne (h : ∀ cmd, t.pc ≠ .execute cmd) : t.inFlight = [] := by
  unfold State.inFlight
  split
  · rename_i cmd he
    exact absurd he (h cmd)
  · rfl

theorem inFlight_execute {cmd : CPUCommand} (h : t.pc = .execute cmd) : t.inFlight = [cmd] := by
  simp only [State.inFlight, h]

/-- The mode that a command leaves. -/
theorem mode_eq (cmd : CPUCommand) (mode stop : WorkingMode) :
    (match cmd.type with
      | .stopDevice => stop
      | _ => mode) = if cmd.IsStop then stop else mode := by
  split
  · rename_i he
    exact (if_pos he).symm
  · rename_i he
    exact (if_neg he).symm

/-- A new command comes last, and is the stop command or leaves the mode as it was. -/
theorem submit_inv (h : Inv t) (cmd : CPUCommand) : Inv (submit t cmd).1 := by
  unfold submit
  split
  · exact h
  · rename_i hm
    have hfull : t.mode = .fullyOperational := by simpa using hm
    have hnot := h.full hfull
    simp only [mode_eq, hfull]
    set t' : State := { t with
      mode := if cmd.IsStop then .tearDown else .fullyOperational
      commands := t.commands ++ [cmd]
      pc := if t.pc = .asleep then .test else t.pc
      accepted := t.accepted ++ [cmd] } with ht'
    have hfly : t'.inFlight = t.inFlight := by
      by_cases ha : t.pc = .asleep
      · rw [inFlight_of_ne (by simp [ht', ha]), inFlight_of_ne (by simp [ha])]
      · simp only [State.inFlight, ht', ha, if_false]
    -- A stop command is the last one that is accepted.
    refine ⟨?_, fun hmode => ?_, fun hmode => ?_, fun hmode => ?_, fun ha => ?_, fun hr => ?_⟩
    · rw [hfly]
      simp only [ht', h.accounts, List.append_assoc]
    · by_cases hc : cmd.IsStop
      · simp only [ht', hc, if_true] at hmode
        cases hmode
      · intro c hm
        rcases List.mem_append.1 hm with hm | hm
        · exact hnot c hm
        · rw [List.mem_singleton.1 hm]
          exact hc
    · by_cases hc : cmd.IsStop
      · refine ⟨t.inFlight ++ t.commands, cmd, ?_, hc, fun c hm => hnot c ?_⟩
        · rw [hfly]
          exact (List.append_assoc ..).symm
        · rw [h.accounts]
          exact hm
      · simp only [ht', hc, if_false] at hmode
        cases hmode
    · simp only [ht'] at hmode
      split at hmode <;> cases hmode
    · simp only [ht'] at ha
      split at ha
      · cases ha
      · rename_i hne
        exact absurd ha hne
    · simp only [ht'] at hr
      split at hr
      · cases hr
      · have hs := h.returned hr
        rw [hfull] at hs
        cases hs

/-- A step of the loop that only moves it along. -/
theorem Inv.goto (h : Inv t) {pc : Pc} (hfrom : ∀ cmd, t.pc ≠ .execute cmd) (hto : ∀ cmd, pc ≠ .execute cmd)
    (ha : pc = .asleep → t.commands = []) (hr : pc = .returned → t.mode = .stopped) : Inv { t with pc := pc } := by
  have hfly : ({ t with pc := pc } : State).inFlight = t.inFlight := by
    rw [inFlight_of_ne hfrom, inFlight_of_ne hto]
  refine ⟨?_, h.full, fun hm => ?_, fun hm => ?_, ha, hr⟩ <;> rw [hfly]
  · exact h.accounts
  · exact h.tearing hm
  · exact h.stopped hm

/-- The command at the front is taken. -/
theorem Inv.pop (h : Inv t) (hpc : t.pc = .test) {cmd : CPUCommand} {rest : List CPUCommand}
    (hq : t.commands = cmd :: rest) : Inv { t with commands := rest, pc := .execute cmd } := by
  have hfly : t.inFlight = [] := inFlight_of_ne (by simp [hpc])
  have hmoved : ({ t with commands := rest, pc := .execute cmd } : State).inFlight ++ rest =
      t.inFlight ++ t.commands := by
    rw [inFlight_execute rfl, hfly, hq]
    rfl
  refine ⟨?_, h.full, fun hm => ?_, fun hm => ?_, (by rintro ⟨⟩), (by rintro ⟨⟩)⟩
  · rw [hmoved]
    exact h.accounts
  · rw [hmoved]
    exact h.tearing hm
  · have hnil := (h.stopped hm).2.1
    rw [hq] at hnil
    cases hnil

/-- Nothing comes before the stop command, so when it is the one taken, nothing comes after it. -/
theorem Inv.stop_taken (h : Inv t) {cmd : CPUCommand} (hpc : t.pc = .execute cmd) (hm : t.mode = .tearDown)
    (hc : cmd.IsStop) : t.commands = [] ∧ ∀ c ∈ t.executed, ¬ c.IsStop := by
  obtain ⟨rest, stop, heq, -, hnot⟩ := h.tearing hm
  rw [inFlight_execute hpc] at heq
  cases rest with
  | nil => exact ⟨(List.cons.inj heq).2, fun c hm => hnot c (List.mem_append_left _ hm)⟩
  | cons first rest =>
    obtain ⟨rfl, -⟩ := List.cons.inj heq
    exact absurd hc (hnot cmd (List.mem_append_right _ List.mem_cons_self))

/-- The stop command is still to come when another one is taken. -/
theorem Inv.stop_queued (h : Inv t) {cmd : CPUCommand} (hpc : t.pc = .execute cmd) (hm : t.mode = .tearDown)
    (hc : ¬ cmd.IsStop) :
    ∃ rest stop, t.commands = rest ++ [stop] ∧ stop.IsStop ∧ ∀ c ∈ t.executed ++ [cmd] ++ rest, ¬ c.IsStop := by
  obtain ⟨rest, stop, heq, hstop, hnot⟩ := h.tearing hm
  rw [inFlight_execute hpc] at heq
  cases rest with
  | nil =>
    obtain ⟨rfl, -⟩ := List.cons.inj heq
    exact absurd hstop hc
  | cons first rest =>
    obtain ⟨rfl, htail⟩ := List.cons.inj heq
    refine ⟨rest, stop, htail, hstop, ?_⟩
    rw [List.append_assoc]
    exact hnot

/-- The command taken is executed: the stop command is the last one, and stops the loop. -/
theorem Inv.execute (h : Inv t) {cmd : CPUCommand} (hpc : t.pc = .execute cmd) : Inv (run t) := by
  have hfly : t.inFlight = [cmd] := inFlight_execute hpc
  have hacc := h.accounts
  rw [hfly] at hacc
  have hmem : cmd ∈ t.accepted := by
    rw [hacc]
    exact List.mem_append_right _ List.mem_cons_self
  have hnostop : t.mode ≠ .stopped := by
    intro hm
    have hnil := (h.stopped hm).1
    rw [hfly] at hnil
    cases hnil
  simp only [run, hpc, mode_eq]
  set t' : State := { t with
    mode := if cmd.IsStop then .stopped else t.mode
    pc := .check
    executed := t.executed ++ [cmd] } with ht'
  have hfly' : t'.inFlight = [] := inFlight_of_ne (by simp [ht'])
  -- The command in flight is executed now; a stop command ends the work.
  refine ⟨?_, fun hmode => ?_, fun hmode => ?_, fun hmode => ?_, (by rintro ⟨⟩), (by rintro ⟨⟩)⟩
  · rw [hfly']
    simp only [ht', hacc, List.nil_append, List.append_assoc]
  · by_cases hc : cmd.IsStop
    · simp only [ht', hc, if_true] at hmode
      cases hmode
    · simp only [ht', hc, if_false] at hmode
      exact h.full hmode
  · by_cases hc : cmd.IsStop
    · simp only [ht', hc, if_true] at hmode
      cases hmode
    · simp only [ht', hc, if_false] at hmode
      rw [hfly']
      exact h.stop_queued hpc hmode hc
  · by_cases hc : cmd.IsStop
    · rw [hfly']
      cases hm : t.mode with
      | fullyOperational => exact absurd hc (h.full hm cmd hmem)
      | stopped => exact absurd hm hnostop
      | tearDown =>
        obtain ⟨hnil, hnot⟩ := h.stop_taken hpc hm hc
        exact ⟨rfl, hnil, t.executed, cmd, rfl, hc, hnot⟩
    · simp only [ht', hc, if_false] at hmode
      exact absurd hmode hnostop

theorem run_inv (h : Inv t) : Inv (run t) := by
  cases hpc : t.pc with
  | check =>
    simp only [run, hpc]
    refine h.goto (by simp [hpc]) ?_ ?_ ?_ <;> split
    all_goals rename_i hm
    · rintro _ ⟨⟩
    · rintro _ ⟨⟩
    · rintro ⟨⟩
    · rintro ⟨⟩
    · rintro ⟨⟩
    · exact fun _ => by simpa using hm
  | test =>
    cases hq : t.commands with
    | nil =>
      have hg : Inv { t with pc := .asleep } := h.goto (by simp [hpc]) (by rintro _ ⟨⟩) (fun _ => hq) (by rintro ⟨⟩)
      simp only [run, hpc, hq] at hg ⊢
      exact hg
    | cons cmd rest =>
      simp only [run, hpc, hq]
      exact h.pop hpc hq
  | asleep =>
    simp only [run, hpc]
    exact h.goto (by simp [hpc]) (by rintro _ ⟨⟩) (by rintro ⟨⟩) (by rintro ⟨⟩)
  | execute cmd => exact h.execute hpc
  | returned =>
    simp only [run, hpc]
    exact h

theorem inv_invariant : Invariant system Inv where
  init t ht := by
    subst ht
    refine ⟨rfl, fun _ c hc => ?_, ?_, ?_, ?_, ?_⟩
    · cases hc
    all_goals rintro ⟨⟩
  step t l t' h hs := by
    cases hs with
    | submit cmd => exact submit_inv h cmd
    | destroy stop =>
      have hi := submit_inv h stop
      exact ⟨hi.accounts, hi.full, hi.tearing, hi.stopped, hi.asleep, hi.returned⟩
    | join => exact ⟨h.accounts, h.full, h.tearing, h.stopped, h.asleep, h.returned⟩
    | run => exact run_inv h

/-! ## What the thread promises -/

theorem Inv.idle (h : Inv t) (hm : t.mode = .stopped) : t.executed = t.accepted := by
  obtain ⟨hfly, hq, -⟩ := h.stopped hm
  rw [h.accounts, hfly, hq, List.append_nil, List.append_nil]

/-- No command is accepted after the stop command. -/
theorem Inv.stop_last (h : Inv t) {before after : List CPUCommand} {stop : CPUCommand}
    (heq : t.accepted = before ++ stop :: after) (hs : stop.IsStop) :
    after = [] ∧ t.mode ≠ .fullyOperational := by
  have key : ∀ rest last, t.accepted = rest ++ [last] → (∀ c ∈ rest, ¬ c.IsStop) → after = [] := by
    intro rest last hacc hnot
    rcases List.eq_nil_or_concat after with hnil | ⟨front, c, rfl⟩
    · exact hnil
    · rw [hacc, List.concat_eq_append, ← List.cons_append, ← List.append_assoc] at heq
      have hrest := (List.append_inj' heq rfl).1
      refine absurd hs (hnot stop ?_)
      rw [hrest]
      exact List.mem_append_right _ List.mem_cons_self
  cases hm : t.mode with
  | fullyOperational =>
    refine absurd hs (h.full hm stop ?_)
    rw [heq]
    exact List.mem_append_right _ List.mem_cons_self
  | tearDown =>
    obtain ⟨rest, last, hl, -, hnot⟩ := h.tearing hm
    refine ⟨key (t.executed ++ rest) last ?_ hnot, by simp⟩
    rw [h.accounts, hl, List.append_assoc]
  | stopped =>
    obtain ⟨hfly, hq, rest, last, hl, -, hnot⟩ := h.stopped hm
    refine ⟨key rest last ?_ hnot, by simp⟩
    rw [← h.idle hm, hl]

/-- The loop's steps to the end of what was accepted first. -/
def work (count : Nat) (t : State) : Nat :=
  3 * (count - t.executed.length) - match t.pc with
    | .test => 1
    | .execute _ => 2
    | _ => 0

/-- While a command is left, the loop is neither asleep nor over. -/
theorem Inv.awake (h : Inv t) (hlt : t.executed.length < t.accepted.length) :
    t.pc ≠ .asleep ∧ t.pc ≠ .returned := by
  constructor
  · intro hpc
    have hfly : t.inFlight = [] := inFlight_of_ne (by simp [hpc])
    rw [h.accounts, hfly, h.asleep hpc, List.append_nil, List.append_nil] at hlt
    omega
  · intro hpc
    rw [h.idle (h.returned hpc)] at hlt
    omega

theorem work_run (h : Inv t) {count : Nat} (hc : count ≤ t.accepted.length) : work count (run t) ≤ work count t - 1 := by
  by_cases hlt : t.executed.length < count
  · have hleft := lt_of_lt_of_le hlt hc
    obtain ⟨hasleep, hreturned⟩ := h.awake hleft
    -- Each place of the loop is nearer to the next execution than the one before.
    cases hpc : t.pc with
    | check =>
      have hm : t.mode ≠ .stopped := by
        intro hm
        rw [h.idle hm] at hleft
        exact Nat.lt_irrefl _ hleft
      simp only [work, run, hpc, WorkingMode.has_execJobs, decide_eq_true hm, if_true]
      omega
    | test =>
      cases hq : t.commands with
      | nil =>
        have hfly : t.inFlight = [] := inFlight_of_ne (by simp [hpc])
        rw [h.accounts, hfly, hq, List.append_nil, List.append_nil] at hleft
        exact absurd hleft (Nat.lt_irrefl _)
      | cons cmd rest =>
        simp only [work, run, hpc, hq]
        omega
    | execute cmd =>
      simp only [work, run, hpc, List.length_append, List.length_singleton]
      omega
    | asleep => exact absurd hpc hasleep
    | returned => exact absurd hpc hreturned
  · have hle : t.executed.length ≤ (run t).executed.length := by
      unfold run
      split
      · exact Nat.le_refl _
      · split <;> exact Nat.le_refl _
      · exact Nat.le_refl _
      · exact (List.prefix_append _ _).length_le
      · exact Nat.le_refl _
    have hzero : count - (run t).executed.length = 0 := by omega
    simp only [work, hzero, Nat.mul_zero, Nat.zero_sub, Nat.zero_le]

theorem work_submit (h : Inv t) {count : Nat} (hc : count ≤ t.accepted.length) (cmd : CPUCommand) :
    work count (submit t cmd).1 ≤ work count t := by
  unfold submit
  split
  · exact Nat.le_refl _
  · by_cases ha : t.pc = .asleep
    · have hdone : ¬ t.executed.length < t.accepted.length := fun hlt => (h.awake hlt).1 ha
      have hzero : count - t.executed.length = 0 := by omega
      simp only [work, hzero, Nat.mul_zero, Nat.zero_sub, Nat.zero_le]
    · simp only [work, ha, if_false]
      exact Nat.le_refl _

/-- A command is accepted where `Submit` returns true, and where it returns false nothing happens. -/
theorem submit_cases (t : State) (cmd : CPUCommand) :
    ((submit t cmd).2 = true ∧ (submit t cmd).1.accepted = t.accepted ++ [cmd]) ∨ submit t cmd = (t, false) := by
  unfold submit
  split
  · exact .inr rfl
  · exact .inl ⟨rfl, rfl⟩

/-- What the log says is what `Submit` returns. -/
theorem submit_returns_iff (t : State) (cmd : CPUCommand) :
    (submit t cmd).2 = true ↔ (submit t cmd).1.accepted = t.accepted ++ [cmd] := by
  rcases submit_cases t cmd with ⟨htrue, haccepted⟩ | hfalse
  · exact iff_of_true htrue haccepted
  · rw [hfalse]
    exact iff_of_false nofun fun h => by simp at h

theorem accepted_submit (t : State) (cmd : CPUCommand) : t.accepted <+: (submit t cmd).1.accepted := by
  rcases submit_cases t cmd with ⟨-, haccepted⟩ | hfalse
  · rw [haccepted]
    exact List.prefix_append _ _
  · rw [hfalse]

theorem accepted_run (t : State) : (run t).accepted = t.accepted := by
  unfold run
  split
  · rfl
  · split <;> rfl
  all_goals rfl

theorem accepted_step {t' : State} {l : Label} (hs : Step t l t') : t.accepted <+: t'.accepted := by
  cases hs with
  | submit cmd => exact accepted_submit t cmd
  | destroy stop => exact accepted_submit t stop
  | join => exact List.prefix_refl _
  | run =>
    rw [accepted_run]

/-- However the others submit and destroy, the loop executes what has been accepted in three steps a command. -/
theorem Inv.executes (h : Inv t) {n : Nat} {t' : State} (hrun : Taking system (· = .run) n t t')
    (hn : 3 * (t.accepted.length - t.executed.length) ≤ n) : t.accepted <+: t'.executed := by
  obtain ⟨⟨hi, hpre⟩, hw⟩ := hrun.exhausts (I := fun s => Inv s ∧ t.accepted <+: s.accepted)
    (work t.accepted.length)
    (fun s l s' hs hstep => ⟨inv_invariant.step s l s' hs.1 hstep, hs.2.trans (accepted_step hstep)⟩)
    (fun s l s' hs hl hstep => by
      subst hl
      cases hstep
      exact work_run hs.1 hs.2.length_le)
    (fun s l s' hs hl hstep => by
      cases hstep with
      | submit cmd => exact work_submit hs.1 hs.2.length_le cmd
      | destroy stop => exact work_submit hs.1 hs.2.length_le stop
      | join => exact Nat.le_refl _
      | run => exact absurd rfl hl)
    ⟨h, List.prefix_refl _⟩
  have hstart : work t.accepted.length t ≤ 3 * (t.accepted.length - t.executed.length) := Nat.sub_le _ _
  have hlen : t.accepted.length ≤ t'.executed.length := by
    unfold work at hw hstart
    split at hw <;> omega
  have hexec : t'.executed <+: t'.accepted := by
    rw [hi.accounts]
    exact List.prefix_append _ _
  exact List.prefix_of_prefix_length_le hpre hexec hlen

/-- What is accepted, as `Submit` returns (`submit_returns_iff`), is executed, in the order it was accepted, each
command once: at any moment a first part of it has been executed, one command may be running, and the rest is in
the list. Nothing is accepted after the stop command, the loop does not end before all is executed, and it gets
there in a bounded number of its own steps, whatever other threads do in between. -/
theorem commands_executed (hr : Reachable system t) :
    t.accepted = t.executed ++ (t.inFlight ++ t.commands) ∧
      (∀ before stop after, t.accepted = before ++ stop :: after → stop.IsStop →
        after = [] ∧ ∀ cmd, submit t cmd = (t, false)) ∧
      (t.pc = .returned → t.executed = t.accepted) ∧
      (t.executed ≠ t.accepted → t.pc ≠ .asleep ∧ t.pc ≠ .returned) ∧
      ∀ n t', Taking system (· = .run) n t t' → 3 * (t.accepted.length - t.executed.length) ≤ n →
        t.accepted <+: t'.executed := by
  have h := inv_invariant.reachable hr
  refine ⟨h.accounts, fun before stop after heq hs => ?_, fun hpc => h.idle (h.returned hpc), fun hne => ?_,
    fun n t' hrun hn => h.executes hrun hn⟩
  · obtain ⟨hafter, hm⟩ := h.stop_last heq hs
    refine ⟨hafter, fun cmd => ?_⟩
    simp only [submit, WorkingMode.has_noNewJobs, decide_eq_true hm, if_true]
  · apply h.awake
    have hpre : t.executed <+: t.accepted := by
      rw [h.accounts]
      exact List.prefix_append _ _
    exact lt_of_le_of_ne hpre.length_le fun hlen => hne (hpre.eq_of_length hlen)

end StepInv

/-- A command is submitted, and the thread destroyed while it runs. -/
theorem commands_executed_destroyed :
    ∃ t : State, Reachable system t ∧ t.destructor = .joining ∧ t.accepted = [⟨.noOp, 1⟩, ⟨.stopDevice, 2⟩] ∧
      t.executed = t.accepted := by
  have r₀ : Reachable system {} := .init rfl
  have r₁ := r₀.step (.submit _ ⟨.noOp, 1⟩ (by decide))
  have r₂ := r₁.step (.run _ (by decide))
  have r₃ := r₂.step (.run _ (by decide))
  have r₄ := r₃.step (.destroy _ ⟨.stopDevice, 2⟩ rfl rfl)
  have r₅ := r₄.step (.run _ (by decide))
  have r₆ := r₅.step (.run _ (by decide))
  have r₇ := r₆.step (.run _ (by decide))
  have r₈ := r₇.step (.run _ (by decide))
  have r₉ := r₈.step (.run _ (by decide))
  exact ⟨_, r₉, rfl, rfl, (commands_executed r₉).2.2.1 rfl⟩

end OpenCRun.CPUThread
