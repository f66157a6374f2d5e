import Mathlib.Data.List.Pairwise
import OpenCRun.Device.MultiExec
import OpenCRun.Lib.Runs
/-!
# Profiling samples

`ProfileTrace` and the notifications of CPU commands. A queue that is profiled
keeps a sample of the clock for each change of a command's status, and for the
start and the completion of each of its blocks. A sample is taken first and
appended later, so another thread may come between: which sample is found
depends on the order in which they are appended, which times are right on the
order in which they have been taken. The clock does not go back.
-/
open Lib.Runs

namespace OpenCRun.Profiling

open MultiExec (CPUMultiExecContext)

/-! ## Samples -/

inductive Label where
  | commandEnqueued | commandSubmitted | commandRunning | commandCompleted
  deriving DecidableEq, Repr

def Label.value : Label → Nat
  | commandEnqueued => 0
  | commandSubmitted => 1
  | commandRunning => 2
  | commandCompleted => 3

/-- A sample of the command, or of a block. -/
structure ProfileSample where
  label : Label
  subId : Option Nat
  time : Nat
  deriving DecidableEq, Repr

/-- `ProfileTrace::operator<<`: the sample goes before the first one of a greater label. -/
def append (s : ProfileSample) : List ProfileSample → List ProfileSample
  | [] => [s]
  | x :: samples => if s.label.value < x.label.value then s :: x :: samples else x :: append s samples

/-- `GetProfiledTime`, which returns 0 where this is `none`. -/
def getProfiledTime (profile : List ProfileSample) (label : Label) : Option Nat :=
  (profile.find? (·.label = label)).map ProfileSample.time

/-! ## Commands -/

/-- A command of many blocks, or of one that notifies by itself. -/
structure CPUCommand where
  multiExec : Bool
  blocks : Nat
  single : multiExec = false → blocks = 1

/-- Where a thread is with a block: `notifyStart`, the block itself, `notifyCompletion`. -/
inductive Phase where
  | queued
  /-- `start` returned true: the sample of the command comes next. -/
  | first
  | running (sample : ProfileSample)
  | subStart
  | subRunning (sample : ProfileSample)
  | executing
  | subCompleted (sample : ProfileSample)
  | finishing
  /-- `finish` returned true. -/
  | last
  | completed (sample : ProfileSample)
  | done
  deriving DecidableEq, Repr

/-- A block, of some submission, and the times of the samples of its start and its completion. -/
structure Block where
  id : Nat
  context : Nat
  phase : Phase
  startTime : Option Nat
  completedTime : Option Nat
  deriving DecidableEq, Repr

/-- Where `CPUDevice::Submit` is with the command, and the sample that it has taken. -/
inductive Submitter where
  | idle
  | submitting (time sent : Nat)
  | accepted (time : Nat)
  | marked (time : Nat)
  deriving DecidableEq, Repr

/-- A sample that a thread has taken for a block. -/
structure Taken where
  block : Nat
  sample : ProfileSample
  deriving DecidableEq, Repr

/-- An event, its command, and what the threads have of it. Each submission has a context. What has been `taken`, in
order, is history: no step depends on it. -/
structure State where
  now : Nat
  profile : List ProfileSample
  complete : Bool
  submitter : Submitter
  contexts : List CPUMultiExecContext
  blocks : List Block
  taken : List Taken
  deriving DecidableEq, Repr

inductive Action where
  /-- A submission takes its sample. -/
  | submit (time : Nat)
  /-- A thread takes the next block. -/
  | send
  | refuse
  | accept
  | markSubmitted
  /-- `start` of the context. -/
  | start (i : Nat)
  /-- The thread takes a sample. -/
  | sample (i time : Nat)
  /-- The thread appends the sample that it has. -/
  | mark (i : Nat)
  /-- `finish` of the context. -/
  | finish (i : Nat)
  deriving DecidableEq, Repr

/-! ## Steps -/

section Steps
variable (cmd : CPUCommand)

/-- The constructor of the event appends the sample of its creation. -/
def initial (time : Nat) : State where
  now := time
  profile := append { label := .commandEnqueued, subId := none, time } []
  complete := false
  submitter := .idle
  contexts := []
  blocks := []
  taken := []

/-- The next sample of a block. -/
def takeSample (b : Block) (time : Nat) : Option Block :=
  match b.phase with
  | .queued =>
    if cmd.multiExec then none
    else some { b with phase := .running { label := .commandRunning, subId := none, time }, startTime := some time }
  | .first => some { b with phase := .running { label := .commandRunning, subId := none, time } }
  | .subStart =>
    some { b with phase := .subRunning { label := .commandRunning, subId := some b.id, time }, startTime := some time }
  | .executing =>
    if cmd.multiExec then
      some { b with phase := .subCompleted { label := .commandCompleted, subId := some b.id, time },
                    completedTime := some time }
    else
      some { b with phase := .completed { label := .commandCompleted, subId := none, time },
                    completedTime := some time }
  | .last => some { b with phase := .completed { label := .commandCompleted, subId := none, time } }
  | _ => none

/-- The sample that a block has, and where it is when that has been appended. -/
def Phase.marks : Phase → Option (ProfileSample × Phase)
  | .running s => some (s, if cmd.multiExec then .subStart else .executing)
  | .subRunning s => some (s, .executing)
  | .subCompleted s => some (s, .finishing)
  | .completed s => some (s, .done)
  | _ => none

/-- `MarkCompleted` is the end. -/
def Phase.completes : Phase → Bool
  | .completed _ => true
  | _ => false

def step (s : State) : Action → Option State
  | .submit time =>
    if s.now ≤ time ∧ s.submitter = .idle then
      some { s with now := time, submitter := .submitting time 0,
                    contexts := s.contexts ++ [CPUMultiExecContext.new cmd.blocks] }
    else none
  | .send =>
    match s.submitter with
    | .submitting time sent =>
      if sent < cmd.blocks then
        some { s with submitter := .submitting time (sent + 1), blocks := s.blocks ++ [
          { id := sent, context := s.contexts.length - 1, phase := .queued, startTime := none, completedTime := none }] }
      else none
    | _ => none
  | .refuse =>
    match s.submitter with
    | .submitting _ sent => if sent < cmd.blocks then some { s with submitter := .idle } else none
    | _ => none
  | .accept =>
    match s.submitter with
    | .submitting time sent => if sent = cmd.blocks then some { s with submitter := .accepted time } else none
    | _ => none
  | .markSubmitted =>
    match s.submitter with
    | .accepted time =>
      some { s with submitter := .marked time,
                    profile := append { label := .commandSubmitted, subId := none, time } s.profile }
    | _ => none
  | .start i => do
    let b ← s.blocks[i]?
    let ctx ← s.contexts[b.context]?
    if b.phase = .queued ∧ cmd.multiExec then
      -- `notifyStart`: the first block marks the command as running.
      let phase := if ctx.start.1 then .first else .subStart
      some { s with blocks := s.blocks.set i { b with phase }, contexts := s.contexts.set b.context ctx.start.2 }
    else none
  | .sample i time => do
    let b ← s.blocks[i]?
    let b ← takeSample cmd b time
    if s.now ≤ time then
      some { s with now := time, blocks := s.blocks.set i b,
                    taken := s.taken ++ ((b.phase.marks cmd).map fun m => ⟨i, m.1⟩).toList }
    else none
  | .mark i => do
    let b ← s.blocks[i]?
    let (x, phase) ← b.phase.marks cmd
    some { s with profile := append x s.profile, complete := s.complete || b.phase.completes,
                  blocks := s.blocks.set i { b with phase } }
  | .finish i => do
    let b ← s.blocks[i]?
    let ctx ← s.contexts[b.context]?
    if b.phase = .finishing then
      -- `notifyCompletion`: the last block marks it as completed.
      let phase := if ctx.countDown.1 then .last else .done
      some { s with blocks := s.blocks.set i { b with phase }, contexts := s.contexts.set b.context ctx.countDown.2 }
    else none

def system : System State Action where
  init s := ∃ time, s = initial time
  step s a s' := step cmd s a = some s'

/-- What each step asks of the state, and what it leaves. -/
inductive Stepped (s : State) : Action → State → Prop
  | submit {time : Nat} (hnow : s.now ≤ time) (hidle : s.submitter = .idle) :
    Stepped s (.submit time) { s with
      now := time
      submitter := .submitting time 0
      contexts := s.contexts ++ [CPUMultiExecContext.new cmd.blocks] }
  | send {time sent : Nat} (hs : s.submitter = .submitting time sent) (hmore : sent < cmd.blocks) :
    Stepped s .send { s with
      submitter := .submitting time (sent + 1)
      blocks := s.blocks ++ [
        { id := sent, context := s.contexts.length - 1, phase := .queued, startTime := none, completedTime := none }] }
  | refuse {time sent : Nat} (hs : s.submitter = .submitting time sent) (hmore : sent < cmd.blocks) :
    Stepped s .refuse { s with submitter := .idle }
  | accept {time sent : Nat} (hs : s.submitter = .submitting time sent) (hall : sent = cmd.blocks) :
    Stepped s .accept { s with submitter := .accepted time }
  | markSubmitted {time : Nat} (hs : s.submitter = .accepted time) :
    Stepped s .markSubmitted { s with
      submitter := .marked time
      profile := append { label := .commandSubmitted, subId := none, time } s.profile }
  | start {i : Nat} {b : Block} {ctx : CPUMultiExecContext} (hb : s.blocks[i]? = some b)
    (hctx : s.contexts[b.context]? = some ctx) (hqueued : b.phase = .queued ∧ cmd.multiExec) :
    Stepped s (.start i) { s with
      blocks := s.blocks.set i { b with phase := if ctx.start.1 then .first else .subStart }
      contexts := s.contexts.set b.context ctx.start.2 }
  | sample {i time : Nat} {b b' : Block} (hb : s.blocks[i]? = some b) (htake : takeSample cmd b time = some b')
    (hnow : s.now ≤ time) :
    Stepped s (.sample i time) { s with
      now := time
      blocks := s.blocks.set i b'
      taken := s.taken ++ ((b'.phase.marks cmd).map fun m => ⟨i, m.1⟩).toList }
  | mark {i : Nat} {b : Block} {x : ProfileSample} {phase : Phase} (hb : s.blocks[i]? = some b)
    (hmarks : b.phase.marks cmd = some (x, phase)) :
    Stepped s (.mark i) { s with
      profile := append x s.profile
      complete := s.complete || b.phase.completes
      blocks := s.blocks.set i { b with phase } }
  | finish {i : Nat} {b : Block} {ctx : CPUMultiExecContext} (hb : s.blocks[i]? = some b)
    (hctx : s.contexts[b.context]? = some ctx) (hfinishing : b.phase = .finishing) :
    Stepped s (.finish i) { s with
      blocks := s.blocks.set i { b with phase := if ctx.countDown.1 then .last else .done }
      contexts := s.contexts.set b.context ctx.countDown.2 }

variable {cmd}

theorem step_cases {s s' : State} {a : Action} (h : step cmd s a = some s') : Stepped cmd s a s' := by
  cases a with
  | submit time =>
    obtain ⟨hcond, h⟩ := Option.ite_none_right_eq_some.1 h
    obtain rfl := Option.some.inj h
    exact .submit hcond.1 hcond.2
  | send | refuse | accept =>
    simp only [step] at h
    split at h
    · next hs =>
      obtain ⟨hcond, h⟩ := Option.ite_none_right_eq_some.1 h
      obtain rfl := Option.some.inj h
      constructor <;> assumption
    · cases h
  | markSubmitted =>
    simp only [step] at h
    split at h
    · next hs =>
      obtain rfl := Option.some.inj h
      exact .markSubmitted hs
    · cases h
  | start i =>
    obtain ⟨b, hb, h⟩ := Option.bind_eq_some_iff.1 h
    obtain ⟨ctx, hctx, h⟩ := Option.bind_eq_some_iff.1 h
    obtain ⟨hcond, h⟩ := Option.ite_none_right_eq_some.1 h
    obtain rfl := Option.some.inj h
    exact .start hb hctx hcond
  | sample i time =>
    obtain ⟨b, hb, h⟩ := Option.bind_eq_some_iff.1 h
    obtain ⟨b', hb', h⟩ := Option.bind_eq_some_iff.1 h
    obtain ⟨hnow, h⟩ := Option.ite_none_right_eq_some.1 h
    obtain rfl := Option.some.inj h
    exact .sample hb hb' hnow
  | mark i =>
    obtain ⟨b, hb, h⟩ := Option.bind_eq_some_iff.1 h
    obtain ⟨⟨x, phase⟩, hmarks, h⟩ := Option.bind_eq_some_iff.1 h
    obtain rfl := Option.some.inj h
    exact .mark hb hmarks
  | finish i =>
    obtain ⟨b, hb, h⟩ := Option.bind_eq_some_iff.1 h
    obtain ⟨ctx, hctx, h⟩ := Option.bind_eq_some_iff.1 h
    obtain ⟨hcond, h⟩ := Option.ite_none_right_eq_some.1 h
    obtain rfl := Option.some.inj h
    exact .finish hb hctx hcond

end Steps

/-! ## What the times should be -/

/-- The four times are there and in order, and the blocks start and complete between the last two. -/
def Ordered (s : State) : Prop :=
  ∃ queued submitted start completed,
    getProfiledTime s.profile .commandEnqueued = some queued ∧
    getProfiledTime s.profile .commandSubmitted = some submitted ∧
    getProfiledTime s.profile .commandRunning = some start ∧
    getProfiledTime s.profile .commandCompleted = some completed ∧
    queued ≤ submitted ∧ submitted ≤ start ∧ start ≤ completed ∧
    (∀ b ∈ s.blocks, ∀ t ∈ b.startTime, start ≤ t) ∧ ∀ b ∈ s.blocks, ∀ t ∈ b.completedTime, t ≤ completed

/-! ## The order of samples -/

/-- The start of a block itself, also if it is the one of the command. -/
def Taken.starts (cmd : CPUCommand) (e : Taken) : Bool :=
  e.sample.label = .commandRunning && (e.sample.subId.isSome || !cmd.multiExec)

/-- Its completion. -/
def Taken.completes (cmd : CPUCommand) (e : Taken) : Bool :=
  e.sample.label = .commandCompleted && (e.sample.subId.isSome || !cmd.multiExec)

def State.appended (s : State) (label : Label) : Bool := s.profile.any (·.label = label)

/-- `e` has been taken before `o`, or is it. -/
def State.before (s : State) (e o : Taken) : Bool := s.taken.idxOf e ≤ s.taken.idxOf o

/-- A sample may be the first of its label: no block has taken its start before it, or its completion after it. -/
def mayBeFirst (cmd : CPUCommand) (s : State) (e : Taken) : Bool :=
  s.appended e.sample.label ||
    s.taken.all fun o =>
      (e.sample.label ≠ .commandRunning || !o.starts cmd || s.before e o) &&
        (e.sample.label ≠ .commandCompleted || !o.completes cmd || s.before o e)

/-- `MarkSubmitted` has been executed. -/
def Submitter.isMarked : Submitter → Bool
  | marked _ => true
  | _ => false

/-- No submission is refused after a block. The first start that is appended has been taken before those of the
blocks, and the first completion after those of the blocks; no block takes its completion once one has been
appended. The command is marked as submitted before it is as completed. -/
def meets (cmd : CPUCommand) (s : State) : Action → Bool
  | .refuse =>
    match s.submitter with
    | .submitting _ sent => sent = 0
    | _ => true
  | .sample i _ =>
    match s.blocks[i]? with
    | some b => b.phase ≠ .executing || !s.appended .commandCompleted
    | none => true
  | .mark i =>
    match s.blocks[i]? with
    | some b =>
      match b.phase.marks cmd with
      | some (x, _) => mayBeFirst cmd s ⟨i, x⟩ && (!b.phase.completes || s.submitter.isMarked)
      | none => true
    | none => true
  | _ => true

/-! ## The first sample of a label -/

def Sorted (profile : List ProfileSample) : Prop := profile.Pairwise fun x y => x.label.value ≤ y.label.value

theorem mem_append {x y : ProfileSample} {profile : List ProfileSample} (h : y ∈ append x profile) : y = x ∨ y ∈ profile := by
  induction profile with
  | nil => exact .inl (List.mem_singleton.1 h)
  | cons z profile ih =>
    unfold append at h
    split at h
    · rcases List.mem_cons.1 h with rfl | h
      · exact .inl rfl
      · exact .inr h
    · rcases List.mem_cons.1 h with rfl | h
      · exact .inr List.mem_cons_self
      · exact (ih h).imp_right (List.mem_cons_of_mem _)

theorem Sorted.append {profile : List ProfileSample} (h : Sorted profile) (x : ProfileSample) :
    Sorted (append x profile) := by
  induction profile with
  | nil => exact List.pairwise_singleton ..
  | cons y profile ih =>
    obtain ⟨hy, hprofile⟩ := List.pairwise_cons.1 h
    unfold Profiling.append
    split
    · next hlt =>
      refine List.pairwise_cons.2 ⟨fun z hz => ?_, h⟩
      rcases List.mem_cons.1 hz with rfl | hz
      · exact hlt.le
      · exact hlt.le.trans (hy z hz)
    · next hge =>
      refine List.pairwise_cons.2 ⟨fun z hz => ?_, ih hprofile⟩
      rcases mem_append hz with rfl | hz
      · exact not_lt.1 hge
      · exact hy z hz

/-- A sample that is appended is found only if it is the first of its label. -/
theorem getProfiledTime_append {profile : List ProfileSample} (h : Sorted profile) (x : ProfileSample) (l : Label) :
    getProfiledTime (append x profile) l =
      if x.label = l then some ((getProfiledTime profile l).getD x.time) else getProfiledTime profile l := by
  induction profile with
  | nil =>
    by_cases hx : x.label = l <;> simp [append, getProfiledTime, hx]
  | cons y profile ih =>
    obtain ⟨hy, hprofile⟩ := List.pairwise_cons.1 h
    unfold append
    by_cases hlt : x.label.value < y.label.value
    · rw [if_pos hlt]
      by_cases hx : x.label = l
      · have hnone : getProfiledTime (y :: profile) l = none := by
          rw [getProfiledTime, Option.map_eq_none_iff, List.find?_eq_none]
          intro z hz
          have hle : y.label.value ≤ z.label.value := by
            rcases List.mem_cons.1 hz with rfl | hz
            · exact le_rfl
            · exact hy z hz
          rw [decide_eq_true_iff, ← hx]
          intro heq
          rw [heq] at hle
          omega
        rw [if_pos hx, hnone]
        simp [getProfiledTime, hx]
      · rw [if_neg hx]
        simp [getProfiledTime, hx]
    · rw [if_neg hlt]
      by_cases hyl : y.label = l
      · by_cases hx : x.label = l <;> simp [getProfiledTime, hyl, hx]
      · have ih' := ih hprofile
        simp only [getProfiledTime] at ih' ⊢
        rw [List.find?_cons_of_neg (by simpa using hyl), List.find?_cons_of_neg (by simpa using hyl), ih']

theorem getProfiledTime_isSome (s : State) (l : Label) : (getProfiledTime s.profile l).isSome = s.appended l := by
  rw [getProfiledTime, Option.isSome_map, List.isSome_find?]
  rfl

/-! ## What has been taken -/

section History
variable {cmd : CPUCommand} {s s' : State} {b b' : Block}

/-- The times of a block are of samples that have been taken for it, and so is the sample that its thread has. -/
structure Block.Recorded (cmd : CPUCommand) (taken : List Taken) (i : Nat) (b : Block) : Prop where
  start : ∀ t ∈ b.startTime, ∃ e ∈ taken, e.starts cmd = true ∧ e.sample.time = t
  completed : ∀ t ∈ b.completedTime, ∃ e ∈ taken, e.completes cmd = true ∧ e.sample.time = t
  held : ∀ x phase, b.phase.marks cmd = some (x, phase) → ⟨i, x⟩ ∈ taken

structure History (cmd : CPUCommand) (s : State) : Prop where
  ordered : s.taken.Pairwise fun x y => x.sample.time ≤ y.sample.time
  now : ∀ e ∈ s.taken, e.sample.time ≤ s.now
  blocks : ∀ (i : Nat) (b : Block), s.blocks[i]? = some b → b.Recorded cmd s.taken i

theorem Block.Recorded.mono {taken taken' : List Taken} {i : Nat} (h : b.Recorded cmd taken i)
    (hsub : ∀ e ∈ taken, e ∈ taken') : b.Recorded cmd taken' i where
  start t ht := by
    obtain ⟨e, he, hstart⟩ := h.start t ht
    exact ⟨e, hsub e he, hstart⟩
  completed t ht := by
    obtain ⟨e, he, hcompleted⟩ := h.completed t ht
    exact ⟨e, hsub e he, hcompleted⟩
  held x phase hmarks := hsub _ (h.held x phase hmarks)

/-- The clock tells the order. -/
theorem History.time_le (h : History cmd s) {e o : Taken} (he : e ∈ s.taken) (ho : o ∈ s.taken)
    (hbefore : s.before e o = true) : e.sample.time ≤ o.sample.time := by
  have hle : s.taken.idxOf e ≤ s.taken.idxOf o := by simpa [State.before] using hbefore
  rcases hle.lt_or_eq with hlt | heq
  · have hpair := List.pairwise_iff_getElem.1 h.ordered _ _ (List.idxOf_lt_length_of_mem he)
      (List.idxOf_lt_length_of_mem ho) hlt
    rwa [List.getElem_idxOf, List.getElem_idxOf] at hpair
  · rw [(List.idxOf_inj he).1 heq]

/-- A thread takes one sample, which it has then, and which is a start or a completion if the block has that time. -/
theorem takeSample_cases {time : Nat} (h : takeSample cmd b time = some b') :
    ∃ x phase, b'.phase.marks cmd = some (x, phase) ∧ x.time = time ∧
      (∀ i, b'.startTime = b.startTime ∨ b'.startTime = some time ∧ Taken.starts cmd ⟨i, x⟩ = true) ∧
      ∀ i, b'.completedTime = b.completedTime ∨ b'.completedTime = some time ∧ Taken.completes cmd ⟨i, x⟩ = true := by
  unfold takeSample at h
  cases hb : b.phase <;> rw [hb] at h
  case queued =>
    dsimp only at h
    split at h
    · cases h
    · next hmulti =>
      obtain rfl := Option.some.inj h
      refine ⟨_, _, rfl, rfl, fun _ => .inr ⟨rfl, ?_⟩, fun _ => .inl rfl⟩
      simp [Taken.starts, hmulti]
  case first =>
    obtain rfl := Option.some.inj h
    exact ⟨_, _, rfl, rfl, fun _ => .inl rfl, fun _ => .inl rfl⟩
  case subStart =>
    obtain rfl := Option.some.inj h
    exact ⟨_, _, rfl, rfl, fun _ => .inr ⟨rfl, rfl⟩, fun _ => .inl rfl⟩
  case executing =>
    dsimp only at h
    split at h
    · obtain rfl := Option.some.inj h
      exact ⟨_, _, rfl, rfl, fun _ => .inl rfl, fun _ => .inr ⟨rfl, rfl⟩⟩
    · next hmulti =>
      obtain rfl := Option.some.inj h
      refine ⟨_, _, rfl, rfl, fun _ => .inl rfl, fun _ => .inr ⟨rfl, ?_⟩⟩
      simp [Taken.completes, hmulti]
  case last =>
    obtain rfl := Option.some.inj h
    exact ⟨_, _, rfl, rfl, fun _ => .inl rfl, fun _ => .inl rfl⟩
  all_goals cases h

theorem History.sample (h : History cmd s) {i time : Nat} (hb : s.blocks[i]? = some b) (hnow : s.now ≤ time)
    (htake : takeSample cmd b time = some b') :
    History cmd { s with
      now := time
      blocks := s.blocks.set i b'
      taken := s.taken ++ ((b'.phase.marks cmd).map fun m => ⟨i, m.1⟩).toList } := by
  obtain ⟨x, phase, hmarks, htime, hstart, hcompleted⟩ := takeSample_cases htake
  have hlast : ((b'.phase.marks cmd).map fun m => Taken.mk i m.1).toList = [⟨i, x⟩] := by rw [hmarks]; rfl
  have hold : ∀ e ∈ s.taken, e ∈ s.taken ++ [⟨i, x⟩] := fun e => List.mem_append_left _
  have hnew : Taken.mk i x ∈ s.taken ++ [⟨i, x⟩] := List.mem_append_right _ (List.mem_singleton_self _)
  rw [hlast]
  refine ⟨?_, ?_, ?_⟩
  · refine List.pairwise_append.2 ⟨h.ordered, List.pairwise_singleton .., fun e he o ho => ?_⟩
    rw [List.mem_singleton.1 ho]
    exact (h.now e he).trans (hnow.trans htime.ge)
  · intro e he
    rcases List.mem_append.1 he with he | he
    · exact (h.now e he).trans hnow
    · rw [List.mem_singleton.1 he]
      exact htime.le
  · intro j c hc
    rcases eq_or_ne i j with rfl | hne
    · obtain rfl : b' = c := by simpa [(List.getElem?_eq_some_iff.1 hb).1] using hc
      have hrecorded := (h.blocks i b hb).mono hold
      refine ⟨fun t ht => ?_, fun t ht => ?_, fun y phase' hy => ?_⟩
      · rcases hstart i with heq | ⟨heq, hstarts⟩
        · exact hrecorded.start t (heq ▸ ht)
        · exact ⟨_, hnew, hstarts, htime.trans (Option.some.inj (heq.symm.trans ht))⟩
      · rcases hcompleted i with heq | ⟨heq, hcompletes⟩
        · exact hrecorded.completed t (heq ▸ ht)
        · exact ⟨_, hnew, hcompletes, htime.trans (Option.some.inj (heq.symm.trans ht))⟩
      · obtain ⟨rfl, -⟩ := Prod.mk.inj (Option.some.inj (hmarks.symm.trans hy))
        exact hnew
    · rw [List.getElem?_set_ne hne] at hc
      exact (h.blocks j c hc).mono hold

/-- A block goes on, with its times, and with no sample that it has not had. -/
theorem History.phase (h : History cmd s) {i : Nat} (hb : s.blocks[i]? = some b) {phase : Phase}
    (hphase : phase.marks cmd = none) :
    ∀ (j : Nat) (c : Block), (s.blocks.set i { b with phase })[j]? = some c → c.Recorded cmd s.taken j := by
  intro j c hc
  rcases eq_or_ne i j with rfl | hne
  · obtain rfl : { b with phase } = c := by simpa [(List.getElem?_eq_some_iff.1 hb).1] using hc
    have hrecorded := h.blocks i b hb
    exact ⟨hrecorded.start, hrecorded.completed, fun x p hx => absurd (hphase.symm.trans hx) nofun⟩
  · rw [List.getElem?_set_ne hne] at hc
    exact h.blocks j c hc

/-- What a thread has appended it has no more. -/
theorem marks_next {phase phase' : Phase} {x : ProfileSample} (h : phase.marks cmd = some (x, phase')) :
    phase'.marks cmd = none := by
  cases phase with
  | running y =>
    obtain ⟨-, rfl⟩ := Prod.mk.inj (Option.some.inj h)
    split <;> rfl
  | subRunning y | subCompleted y | completed y =>
    obtain ⟨-, rfl⟩ := Prod.mk.inj (Option.some.inj h)
    rfl
  | queued | first | subStart | executing | finishing | last | done => cases h

theorem step_history {a : Action} (h : History cmd s) (hstep : step cmd s a = some s') : History cmd s' := by
  cases step_cases hstep with
  | submit hnow hidle => exact ⟨h.ordered, fun e he => (h.now e he).trans hnow, h.blocks⟩
  | send hs hmore =>
    refine ⟨h.ordered, h.now, fun i b hb => ?_⟩
    rw [List.getElem?_append] at hb
    split at hb
    · exact h.blocks i b hb
    · rw [List.mem_singleton.1 (List.mem_of_getElem? hb)]
      exact ⟨nofun, nofun, nofun⟩
  | refuse hs hmore => exact ⟨h.ordered, h.now, h.blocks⟩
  | accept hs hall => exact ⟨h.ordered, h.now, h.blocks⟩
  | markSubmitted hs => exact ⟨h.ordered, h.now, h.blocks⟩
  | start hb hctx hqueued =>
    refine ⟨h.ordered, h.now, h.phase hb ?_⟩
    split <;> rfl
  | sample hb htake hnow => exact h.sample hb hnow htake
  | mark hb hmarks => exact ⟨h.ordered, h.now, h.phase hb (marks_next hmarks)⟩
  | finish hb hctx hfinishing =>
    refine ⟨h.ordered, h.now, h.phase hb ?_⟩
    split <;> rfl

end History

/-! ## Invariants -/

/-- The time of the submission's sample. -/
def Submitter.time : Submitter → Option Nat
  | idle => none
  | submitting t _ | accepted t | marked t => some t

/-- What the invariants of a block depend on. -/
structure View where
  now : Nat
  submitted : Option Nat
  start : Option Nat
  completed : Option Nat

def State.view (s : State) : View where
  now := s.now
  submitted := s.submitter.time
  start := getProfiledTime s.profile .commandRunning
  completed := getProfiledTime s.profile .commandCompleted

structure View.Ok (v : View) : Prop where
  submitted : ∀ t ∈ v.submitted, t ≤ v.now
  start : ∀ t ∈ v.start, t ≤ v.now ∧ ∀ sub ∈ v.submitted, sub ≤ t
  completed : ∀ t ∈ v.completed, ∃ start ∈ v.start, start ≤ t

/-- The sample that a thread has fits in, and from the block on the command has a start. -/
def Phase.Ok (v : View) : Phase → Prop
  | queued | first | subStart => True
  | running x | subRunning x => x.label = .commandRunning ∧ x.time ≤ v.now ∧ ∀ sub ∈ v.submitted, sub ≤ x.time
  | subCompleted x | completed x => x.label = .commandCompleted ∧ ∃ start ∈ v.start, start ≤ x.time
  | executing | finishing | last | done => v.start.isSome

structure Block.Ok (v : View) (b : Block) : Prop where
  start : ∀ t ∈ b.startTime, ∀ start ∈ v.start, start ≤ t
  completed : ∀ t ∈ b.completedTime, ∀ completed ∈ v.completed, t ≤ completed
  phase : b.phase.Ok v

structure Inv (s : State) : Prop where
  sorted : Sorted s.profile
  queued : ∃ q, getProfiledTime s.profile .commandEnqueued = some q ∧ q ≤ s.now ∧ ∀ t ∈ s.submitter.time, q ≤ t
  submitted : ∀ t, getProfiledTime s.profile .commandSubmitted = some t ↔ s.submitter = .marked t
  view : s.view.Ok
  blocks : ∀ b ∈ s.blocks, b.Ok s.view
  /-- There are no blocks before the submission that is accepted. -/
  fresh : (s.submitter = .idle ∨ ∃ t, s.submitter = .submitting t 0) → s.blocks = []
  start : s.blocks = [] → s.view.start = none
  complete : s.complete = true → s.view.completed.isSome ∧ (getProfiledTime s.profile .commandSubmitted).isSome

/-- A block keeps its invariants when the clock goes on, and when a first start or completion fits it. -/
theorem Block.Ok.mono {v v' : View} {b : Block} (h : b.Ok v) (hnow : v.now ≤ v'.now)
    (hsubmitted : v'.submitted = v.submitted)
    (hstart : v'.start = v.start ∨ v.start = none ∧ ∀ t ∈ b.startTime, ∀ start ∈ v'.start, start ≤ t)
    (hcompleted : v'.completed = v.completed ∨ ∀ t ∈ b.completedTime, ∀ completed ∈ v'.completed, t ≤ completed) :
    b.Ok v' := by
  refine ⟨?_, ?_, ?_⟩
  · rcases hstart with heq | ⟨-, hstart⟩
    · rw [heq]
      exact h.start
    · exact hstart
  · rcases hcompleted with heq | hcompleted
    · rw [heq]
      exact h.completed
    · exact hcompleted
  · have hkeep : ∀ start ∈ v.start, start ∈ v'.start := by
      intro start hmem
      rcases hstart with heq | ⟨hnone, -⟩
      · rwa [heq]
      · rw [hnone] at hmem
        cases hmem
    have hsome : v.start.isSome → v'.start.isSome := by
      intro hv
      obtain ⟨start, hmem⟩ := Option.isSome_iff_exists.1 hv
      exact Option.isSome_iff_exists.2 ⟨start, hkeep start hmem⟩
    have hphase := h.phase
    cases hb : b.phase with
    | queued => trivial
    | first => trivial
    | subStart => trivial
    | running x =>
      rw [hb] at hphase
      exact ⟨hphase.1, hphase.2.1.trans hnow, hsubmitted ▸ hphase.2.2⟩
    | subRunning x =>
      rw [hb] at hphase
      exact ⟨hphase.1, hphase.2.1.trans hnow, hsubmitted ▸ hphase.2.2⟩
    | subCompleted x =>
      rw [hb] at hphase
      obtain ⟨hlabel, start, hmem, hle⟩ := hphase
      exact ⟨hlabel, start, hkeep start hmem, hle⟩
    | completed x =>
      rw [hb] at hphase
      obtain ⟨hlabel, start, hmem, hle⟩ := hphase
      exact ⟨hlabel, start, hkeep start hmem, hle⟩
    | executing =>
      rw [hb] at hphase
      exact hsome hphase
    | finishing =>
      rw [hb] at hphase
      exact hsome hphase
    | last =>
      rw [hb] at hphase
      exact hsome hphase
    | done =>
      rw [hb] at hphase
      exact hsome hphase

theorem inv_initial (time : Nat) : Inv (initial time) where
  sorted := List.pairwise_singleton ..
  queued := ⟨time, rfl, le_rfl, nofun⟩
  submitted _ := ⟨nofun, nofun⟩
  view := ⟨nofun, nofun, nofun⟩
  blocks _ hb := absurd hb List.not_mem_nil
  fresh _ := rfl
  start _ := rfl
  complete := nofun

section Keeping
variable {cmd : CPUCommand} {s s' : State} {b b' : Block}

theorem takeSample_ok {v : View} {time : Nat} (hv : v.Ok) (h : b.Ok v) (hnow : v.now ≤ time)
    (hcompleted : b.phase = .executing → ∀ completed ∈ v.completed, time ≤ completed)
    (htake : takeSample cmd b time = some b') : b'.Ok { v with now := time } := by
  have hmono : b.Ok { v with now := time } := h.mono hnow rfl (.inl rfl) (.inl rfl)
  have hstart : ∀ start ∈ v.start, start ≤ time := fun start hs => (hv.start start hs).1.trans hnow
  have hsubmitted : ∀ sub ∈ v.submitted, sub ≤ time := fun sub hs => (hv.submitted sub hs).trans hnow
  have hsome : v.start.isSome → ∃ start ∈ v.start, start ≤ time := by
    intro hs
    obtain ⟨start, hs⟩ := Option.isSome_iff_exists.1 hs
    exact ⟨start, hs, hstart start hs⟩
  have hphase := h.phase
  unfold takeSample at htake
  cases hb : b.phase with
  | queued =>
    rw [hb] at htake
    dsimp only at htake
    split at htake
    · cases htake
    · obtain rfl := Option.some.inj htake
      refine ⟨fun t ht => ?_, hmono.completed, rfl, le_rfl, hsubmitted⟩
      rw [← Option.some.inj ht]
      exact hstart
  | first =>
    rw [hb] at htake
    obtain rfl := Option.some.inj htake
    exact ⟨hmono.start, hmono.completed, rfl, le_rfl, hsubmitted⟩
  | subStart =>
    rw [hb] at htake
    obtain rfl := Option.some.inj htake
    refine ⟨fun t ht => ?_, hmono.completed, rfl, le_rfl, hsubmitted⟩
    rw [← Option.some.inj ht]
    exact hstart
  | executing =>
    rw [hb] at htake hphase
    dsimp only at htake
    split at htake
    all_goals
      obtain rfl := Option.some.inj htake
      refine ⟨hmono.start, fun t ht => ?_, rfl, hsome hphase⟩
      rw [← Option.some.inj ht]
      exact hcompleted hb
  | last =>
    rw [hb] at htake hphase
    obtain rfl := Option.some.inj htake
    exact ⟨hmono.start, hmono.completed, rfl, hsome hphase⟩
  | running x => rw [hb] at htake; cases htake
  | subRunning x => rw [hb] at htake; cases htake
  | subCompleted x => rw [hb] at htake; cases htake
  | finishing => rw [hb] at htake; cases htake
  | completed x => rw [hb] at htake; cases htake
  | done => rw [hb] at htake; cases htake

/-- The blocks after one of them has changed. -/
theorem blocks_set {i : Nat} {v : View} (hb : s.blocks[i]? = some b) (hothers : ∀ b ∈ s.blocks, b.Ok v) {c : Block}
    (hc : c.Ok v) : (∀ b ∈ s.blocks.set i c, b.Ok v) ∧ s.blocks ≠ [] ∧ s.blocks.set i c ≠ [] := by
  have hne : s.blocks ≠ [] := List.ne_nil_of_mem (List.mem_of_getElem? hb)
  refine ⟨fun b hb => ?_, hne, ?_⟩
  · rcases List.mem_or_eq_of_mem_set hb with hb | rfl
    · exact hothers b hb
    · exact hc
  · rw [Ne, List.set_eq_nil_iff]
    exact hne

theorem sample_inv (h : Inv s) {i time : Nat} (hb : s.blocks[i]? = some b) (hnow : s.now ≤ time)
    (hcompleted : b.phase = .executing → ∀ completed ∈ s.view.completed, time ≤ completed)
    (htake : takeSample cmd b time = some b') (taken : List Taken) :
    Inv { s with now := time, blocks := s.blocks.set i b', taken } := by
  have hothers : ∀ c ∈ s.blocks, c.Ok { s.view with now := time } := fun c hc =>
    (h.blocks c hc).mono hnow rfl (.inl rfl) (.inl rfl)
  have hb' := takeSample_ok h.view (h.blocks b (List.mem_of_getElem? hb)) hnow hcompleted htake
  obtain ⟨hblocks, hne, hne'⟩ := blocks_set hb hothers hb'
  obtain ⟨q, hq, hle, hsub⟩ := h.queued
  exact {
    sorted := h.sorted
    queued := ⟨q, hq, hle.trans hnow, hsub⟩
    submitted := h.submitted
    view := ⟨fun t ht => (h.view.submitted t ht).trans hnow,
      fun t ht => ⟨(h.view.start t ht).1.trans hnow, (h.view.start t ht).2⟩, h.view.completed⟩
    blocks := hblocks
    fresh := fun hf => absurd (h.fresh hf) hne
    start := fun hnil => absurd hnil hne'
    complete := h.complete }

/-- The contexts decide only on where a block goes on. -/
theorem phase_inv (h : Inv s) {i : Nat} (contexts : List CPUMultiExecContext) {phase : Phase}
    (hb : s.blocks[i]? = some b) (hphase : phase.Ok s.view) :
    Inv { s with blocks := s.blocks.set i { b with phase }, contexts } := by
  have hok := h.blocks b (List.mem_of_getElem? hb)
  obtain ⟨hblocks, hne, hne'⟩ := blocks_set hb h.blocks (c := { b with phase }) ⟨hok.start, hok.completed, hphase⟩
  exact {
    sorted := h.sorted
    queued := h.queued
    submitted := h.submitted
    view := h.view
    blocks := hblocks
    fresh := fun hf => absurd (h.fresh hf) hne
    start := fun hnil => absurd hnil hne'
    complete := h.complete }

/-- The time of the label is the one from before, or that of the sample, which fits the blocks. -/
def Fits (s : State) (x : ProfileSample) : Prop :=
  some ((getProfiledTime s.profile x.label).getD x.time) = getProfiledTime s.profile x.label ∨
    getProfiledTime s.profile x.label = none ∧
      ∀ b ∈ s.blocks, (x.label = .commandRunning → ∀ t ∈ b.startTime, x.time ≤ t) ∧
        (x.label = .commandCompleted → ∀ t ∈ b.completedTime, t ≤ x.time)

/-- The order in which the samples have been taken is the one of their times. -/
theorem fits_of_mayBeFirst (h : History cmd s) {i : Nat} (hb : s.blocks[i]? = some b) {x : ProfileSample} {phase : Phase}
    (hmarks : b.phase.marks cmd = some (x, phase)) (hfirst : mayBeFirst cmd s ⟨i, x⟩ = true) : Fits s x := by
  have hx : Taken.mk i x ∈ s.taken := (h.blocks i b hb).held x phase hmarks
  cases ht : getProfiledTime s.profile x.label with
  | some t => exact .inl (by rw [ht]; rfl)
  | none =>
    have hall : ∀ o ∈ s.taken, (x.label = .commandRunning → o.starts cmd = true → s.before ⟨i, x⟩ o = true) ∧
        (x.label = .commandCompleted → o.completes cmd = true → s.before o ⟨i, x⟩ = true) := by
      have hnot : s.appended x.label = false := by rw [← getProfiledTime_isSome, ht]; rfl
      intro o ho
      have hboth := List.all_eq_true.1 ((Bool.or_eq_true_iff.1 hfirst).resolve_left (by simp [hnot])) o ho
      simp only [Bool.and_eq_true, Bool.or_eq_true, decide_eq_true_eq, ne_eq, Bool.not_eq_true'] at hboth
      exact ⟨fun hlabel hstarts => hboth.1.resolve_left (by simp [hlabel, hstarts]),
        fun hlabel hcompletes => hboth.2.resolve_left (by simp [hlabel, hcompletes])⟩
    refine .inr ⟨ht, fun c hc => ?_⟩
    obtain ⟨j, hj⟩ := List.mem_iff_getElem?.1 hc
    have hrecorded := h.blocks j c hj
    constructor
    · intro hlabel t htime
      obtain ⟨o, ho, hstarts, rfl⟩ := hrecorded.start t htime
      exact h.time_le hx ho ((hall o ho).1 hlabel hstarts)
    · intro hlabel t htime
      obtain ⟨o, ho, hcompletes, rfl⟩ := hrecorded.completed t htime
      exact h.time_le ho hx ((hall o ho).2 hlabel hcompletes)

/-- A sample of a start or of a completion is appended. -/
theorem append_inv (h : Inv s) {i : Nat} (hb : s.blocks[i]? = some b) {x : ProfileSample} {phase : Phase}
    {complete : Bool} (hx : x.label = .commandRunning ∨ x.label = .commandCompleted)
    (hview : (State.view { s with profile := append x s.profile }).Ok)
    (hblocks : ∀ c ∈ s.blocks, c.Ok (State.view { s with profile := append x s.profile }))
    (hphase : phase.Ok (State.view { s with profile := append x s.profile }))
    (hcomplete : complete = true → (getProfiledTime (append x s.profile) .commandCompleted).isSome ∧
      (getProfiledTime s.profile .commandSubmitted).isSome) :
    Inv { s with profile := append x s.profile, complete, blocks := s.blocks.set i { b with phase } } := by
  have hother : ∀ l, l = .commandEnqueued ∨ l = .commandSubmitted →
      getProfiledTime (append x s.profile) l = getProfiledTime s.profile l := by
    intro l hl
    rw [getProfiledTime_append h.sorted x, if_neg]
    rintro rfl
    rcases hx with hx | hx <;> rw [hx] at hl <;> exact absurd hl (by decide)
  have hok := hblocks b (List.mem_of_getElem? hb)
  obtain ⟨hset, hne, hne'⟩ := blocks_set hb hblocks (c := { b with phase }) ⟨hok.start, hok.completed, hphase⟩
  obtain ⟨q, hq, hle, hsub⟩ := h.queued
  exact {
    sorted := h.sorted.append x
    queued := ⟨q, (hother _ (.inl rfl)).trans hq, hle, hsub⟩
    submitted := fun t => by
      rw [hother _ (.inr rfl)]
      exact h.submitted t
    view := hview
    blocks := hset
    fresh := fun hf => absurd (h.fresh hf) hne
    start := fun hnil => absurd hnil hne'
    complete := fun hc => by
      rw [hother _ (.inr rfl)]
      exact hcomplete hc }

theorem markRunning_inv (h : Inv s) {i : Nat} (hb : s.blocks[i]? = some b) {x : ProfileSample} {phase : Phase}
    (hx : x.label = .commandRunning) (hnow : x.time ≤ s.now) (hsubmitted : ∀ sub ∈ s.submitter.time, sub ≤ x.time)
    (hfits : Fits s x) (hphase : phase = .subStart ∨ phase = .executing) :
    Inv { s with profile := append x s.profile, blocks := s.blocks.set i { b with phase } } := by
  have htime := getProfiledTime_append h.sorted x
  have hcompleted : getProfiledTime (append x s.profile) .commandCompleted =
      getProfiledTime s.profile .commandCompleted := by rw [htime, hx, if_neg (by decide)]
  have hview : State.view { s with profile := append x s.profile } =
      { s.view with start := some (s.view.start.getD x.time) } := by
    simp only [State.view, htime .commandRunning, hcompleted, if_pos hx]
  have hcases := hfits
  rw [Fits, hx] at hcases
  refine append_inv h hb (.inl hx) ?_ (fun c hc => ?_) ?_ fun hc => hcompleted ▸ h.complete hc
  · rw [hview]
    refine ⟨h.view.submitted, fun t ht => ?_, fun t ht => ?_⟩
    · rcases hcases with heq | ⟨hnone, -⟩
      · exact h.view.start t (heq.symm.trans ht)
      · obtain rfl : s.view.start.getD x.time = t := Option.some.inj ht
        rw [show s.view.start = none from hnone]
        exact ⟨hnow, hsubmitted⟩
    · obtain ⟨start, hs, hle⟩ := h.view.completed t ht
      exact ⟨start, by simp [Option.mem_def.1 hs], hle⟩
  · rw [hview]
    refine (h.blocks c hc).mono le_rfl rfl ?_ (.inl rfl)
    -- The first start is the sample itself, which is now in the profile.
    rcases hcases with heq | ⟨hnone, hall⟩
    · exact .inl heq
    · refine .inr ⟨hnone, fun t ht start hs => ?_⟩
      obtain rfl : s.view.start.getD x.time = start := Option.some.inj hs
      rw [show s.view.start = none from hnone]
      exact (hall c hc).1 rfl t ht
  · rw [hview]
    rcases hphase with rfl | rfl <;> trivial

theorem markCompleted_inv (h : Inv s) {i : Nat} (hb : s.blocks[i]? = some b) {x : ProfileSample} {phase : Phase}
    (completes : Bool) (hx : x.label = .commandCompleted) (hstart : ∃ start ∈ s.view.start, start ≤ x.time)
    (hfits : Fits s x) (hphase : phase = .finishing ∨ phase = .done)
    (hsubmitted : completes = true → (getProfiledTime s.profile .commandSubmitted).isSome) :
    Inv { s with profile := append x s.profile, complete := s.complete || completes,
                 blocks := s.blocks.set i { b with phase } } := by
  have htime := getProfiledTime_append h.sorted x
  have hcompleted : getProfiledTime (append x s.profile) .commandCompleted =
      some ((getProfiledTime s.profile .commandCompleted).getD x.time) := by rw [htime, if_pos hx]
  have hview : State.view { s with profile := append x s.profile } =
      { s.view with completed := some (s.view.completed.getD x.time) } := by
    simp only [State.view, hcompleted, htime .commandRunning, hx, reduceCtorEq, if_false]
  have hcases := hfits
  rw [Fits, hx] at hcases
  refine append_inv h hb (.inr hx) ?_ (fun c hc => ?_) ?_ fun hc => ⟨by rw [hcompleted]; rfl, ?_⟩
  · rw [hview]
    refine ⟨h.view.submitted, h.view.start, fun t ht => ?_⟩
    rcases hcases with heq | ⟨hnone, -⟩
    · exact h.view.completed t (heq.symm.trans ht)
    · obtain rfl : s.view.completed.getD x.time = t := Option.some.inj ht
      rw [show s.view.completed = none from hnone]
      exact hstart
  · rw [hview]
    refine (h.blocks c hc).mono le_rfl rfl (.inl rfl) ?_
    rcases hcases with heq | ⟨hnone, hall⟩
    · exact .inl heq
    · refine .inr fun t ht completed hs => ?_
      obtain rfl : s.view.completed.getD x.time = completed := Option.some.inj hs
      rw [show s.view.completed = none from hnone]
      exact (hall c hc).2 rfl t ht
  · rw [hview]
    obtain ⟨start, hs, -⟩ := hstart
    have hsome : s.view.start.isSome := Option.isSome_iff_exists.2 ⟨start, hs⟩
    rcases hphase with rfl | rfl <;> exact hsome
  · rcases Bool.or_eq_true_iff.1 hc with hc | hc
    · exact (h.complete hc).2
    · exact hsubmitted hc

/-- A block appends the sample that it has. -/
theorem mark_inv (h : Inv s) {i : Nat} (hb : s.blocks[i]? = some b) {x : ProfileSample} {phase : Phase}
    (hmarks : b.phase.marks cmd = some (x, phase)) (hfits : Fits s x)
    (hcompletes : b.phase.completes = true → (getProfiledTime s.profile .commandSubmitted).isSome) :
    Inv { s with profile := append x s.profile, complete := s.complete || b.phase.completes,
                 blocks := s.blocks.set i { b with phase } } := by
  have hphase := (h.blocks b (List.mem_of_getElem? hb)).phase
  cases hbp : b.phase with
  | running y =>
    rw [hbp] at hmarks hphase
    obtain ⟨rfl, rfl⟩ := Prod.mk.inj (Option.some.inj hmarks)
    simp only [Phase.completes, Bool.or_false]
    refine markRunning_inv h hb hphase.1 hphase.2.1 hphase.2.2 hfits ?_
    split
    · exact .inl rfl
    · exact .inr rfl
  | subRunning y =>
    rw [hbp] at hmarks hphase
    obtain ⟨rfl, rfl⟩ := Prod.mk.inj (Option.some.inj hmarks)
    simp only [Phase.completes, Bool.or_false]
    exact markRunning_inv h hb hphase.1 hphase.2.1 hphase.2.2 hfits (.inr rfl)
  | subCompleted y =>
    rw [hbp] at hmarks hphase
    obtain ⟨rfl, rfl⟩ := Prod.mk.inj (Option.some.inj hmarks)
    exact markCompleted_inv h hb _ hphase.1 hphase.2 hfits (.inl rfl) nofun
  | completed y =>
    rw [hbp] at hmarks hphase hcompletes
    obtain ⟨rfl, rfl⟩ := Prod.mk.inj (Option.some.inj hmarks)
    exact markCompleted_inv h hb _ hphase.1 hphase.2 hfits (.inr rfl) hcompletes
  | queued | first | subStart | executing | finishing | last | done =>
    rw [hbp] at hmarks
    cases hmarks

/-- The submitter goes on with the sample that it has, or without one, when nothing has been taken. -/
theorem fresh_inv (h : Inv s) (hnil : s.blocks = []) (contexts : List CPUMultiExecContext) {now : Nat}
    {submitter : Submitter} (hold : ∀ t, s.submitter ≠ .marked t) (hnew : ∀ t, submitter ≠ .marked t)
    (hnow : s.now ≤ now) (htime : ∀ t ∈ submitter.time, t = now) : Inv { s with now, submitter, contexts } := by
  obtain ⟨q, hq, hle, -⟩ := h.queued
  have hstart : s.view.start = none := h.start hnil
  exact {
    sorted := h.sorted
    queued := ⟨q, hq, hle.trans hnow, fun t ht => htime t ht ▸ hle.trans hnow⟩
    submitted := fun t => (h.submitted t).trans (iff_of_false (hold t) (hnew t))
    view := ⟨fun t ht => (htime t ht).le, fun t ht => absurd (ht.symm.trans hstart) nofun, h.view.completed⟩
    blocks := fun b hb => absurd hb (hnil ▸ List.not_mem_nil)
    fresh := fun _ => hnil
    start := h.start
    complete := h.complete }

/-- The submitter keeps its sample; blocks that are taken have no times. -/
theorem submitting_inv (h : Inv s) (taken : List Block) {submitter : Submitter} (hold : ∀ t, s.submitter ≠ .marked t)
    (hnew : ∀ t, submitter ≠ .marked t) (htime : submitter.time = s.submitter.time)
    (hfresh : submitter ≠ .idle ∧ ∀ t, submitter ≠ .submitting t 0) (htaken : ∀ b ∈ taken, b.Ok s.view) :
    Inv { s with submitter, blocks := s.blocks ++ taken } := by
  have hview : State.view { s with submitter, blocks := s.blocks ++ taken } = s.view := by
    simp only [State.view, htime]
  obtain ⟨q, hq, hle, hsub⟩ := h.queued
  refine ⟨h.sorted, ⟨q, hq, hle, htime ▸ hsub⟩, fun t => (h.submitted t).trans (iff_of_false (hold t) (hnew t)),
    hview ▸ h.view, fun b hb => ?_, ?_, fun hnil => ?_, h.complete⟩
  · rw [hview]
    exact (List.mem_append.1 hb).elim (h.blocks b) (htaken b)
  · rintro (hidle | ⟨t, ht⟩)
    · exact absurd hidle hfresh.1
    · exact absurd ht (hfresh.2 t)
  · rw [hview]
    exact h.start (List.append_eq_nil_iff.1 hnil).1

theorem markSubmitted_inv (h : Inv s) {time : Nat} (hs : s.submitter = .accepted time) :
    Inv { s with submitter := .marked time
                 profile := append { label := .commandSubmitted, subId := none, time } s.profile } := by
  have hnone : getProfiledTime s.profile .commandSubmitted = none := by
    refine Option.eq_none_iff_forall_not_mem.2 fun t ht => ?_
    have hmarked := (h.submitted t).1 ht
    rw [hs] at hmarked
    cases hmarked
  have happend := getProfiledTime_append h.sorted { label := .commandSubmitted, subId := none, time }
  obtain ⟨q, hq, hle, hsub⟩ := h.queued
  have hqueued : ∀ t ∈ some time, q ≤ t := by rwa [hs] at hsub
  have hview : State.view { s with
      submitter := .marked time
      profile := append { label := .commandSubmitted, subId := none, time } s.profile } = s.view := by
    simp only [State.view, hs, Submitter.time, happend]
    rfl
  refine ⟨h.sorted.append _, ⟨q, (happend _).trans hq, hle, hqueued⟩, fun t => ?_, hview ▸ h.view,
    hview ▸ h.blocks, ?_, hview ▸ h.start, fun hc => ?_⟩
  · rw [happend, hnone]
    exact ⟨fun h => congrArg _ (Option.some.inj h), fun h => by cases h; rfl⟩
  · rintro (hidle | ⟨t, ht⟩)
    · cases hidle
    · cases ht
  · have hsome := (h.complete hc).2
    rw [hnone] at hsome
    cases hsome

theorem step_inv {a : Action} (h : Inv s) (hhistory : History cmd s) (hmeets : meets cmd s a = true)
    (hstep : step cmd s a = some s') : Inv s' := by
  cases step_cases hstep with
  | submit hnow hidle =>
    exact fresh_inv h (h.fresh (.inl hidle)) _ (fun t => hidle ▸ nofun) (fun t => nofun) hnow
      fun t ht => (Option.some.inj ht).symm
  | send hs hmore =>
    refine submitting_inv h _ (fun t => hs ▸ nofun) (fun t => nofun) (hs ▸ rfl) ⟨nofun, fun t => nofun⟩ fun b hb => ?_
    rw [List.mem_singleton.1 hb]
    exact ⟨nofun, nofun, trivial⟩
  | @refuse time sent hs hmore =>
    -- nothing has been taken yet
    have hsent : sent = 0 := by simpa [meets, hs] using hmeets
    have hnil := h.fresh (.inr ⟨time, hsent ▸ hs⟩)
    exact fresh_inv h hnil _ (fun t => hs ▸ nofun) (fun t => nofun) le_rfl nofun
  | @accept time sent hs hall =>
    have hnone : Inv { s with submitter := .accepted time, blocks := s.blocks ++ [] } :=
      submitting_inv h [] (fun t => hs ▸ nofun) (fun t => nofun) (hs ▸ rfl) ⟨nofun, fun t => nofun⟩ nofun
    rwa [List.append_nil] at hnone
  | markSubmitted hs => exact markSubmitted_inv h hs
  | start hb hctx hqueued =>
    refine phase_inv h _ hb ?_
    split <;> trivial
  | sample hb htake hnow =>
    refine sample_inv h hb hnow (fun hphase completed hc => ?_) htake _
    -- none has been appended
    have hnot : s.appended .commandCompleted = false := by simpa [meets, hb, hphase] using hmeets
    rw [← getProfiledTime_isSome, show getProfiledTime s.profile .commandCompleted = some completed from hc] at hnot
    cases hnot
  | mark hb hmarks =>
    simp only [meets, hb, hmarks, Bool.and_eq_true, Bool.or_eq_true, Bool.not_eq_true'] at hmeets
    obtain ⟨hfirst, hcompletes⟩ := hmeets
    refine mark_inv h hb hmarks (fits_of_mayBeFirst hhistory hb hmarks hfirst) fun hc => ?_
    have hmarked := hcompletes.resolve_left (by simp [hc])
    cases hsubmitter : s.submitter with
    | marked t => exact Option.isSome_iff_exists.2 ⟨t, (h.submitted t).2 hsubmitter⟩
    | idle | submitting _ _ | accepted _ =>
      rw [hsubmitter] at hmarked
      cases hmarked
  | finish hb hctx hfinishing =>
    have hok := (h.blocks _ (List.mem_of_getElem? hb)).phase
    rw [hfinishing] at hok
    refine phase_inv h _ hb ?_
    split <;> exact hok

end Keeping

/-! ## Runs -/

theorem inv_of_meeting (cmd : CPUCommand) :
    Invariant ((system cmd).meeting fun s a => meets cmd s a = true) fun s => Inv s ∧ History cmd s where
  init s h := by
    obtain ⟨time, rfl⟩ := h
    exact ⟨inv_initial time, List.Pairwise.nil, nofun, nofun⟩
  step s a s' h hstep := ⟨step_inv h.1 h.2 hstep.1 hstep.2, step_history h.2 hstep.2⟩

/-- While the steps meet the condition, the times of a complete event are in order. -/
theorem profiling_ordered (cmd : CPUCommand) {s : State}
    (hr : Reachable ((system cmd).meeting fun s a => meets cmd s a = true) s) (hc : s.complete = true) : Ordered s := by
  have h := ((inv_of_meeting cmd).reachable hr).1
  obtain ⟨queued, hq, -, hqueued⟩ := h.queued
  obtain ⟨hcompleted, hsubmitted⟩ := h.complete hc
  obtain ⟨completed, hcompleted⟩ := Option.isSome_iff_exists.1 hcompleted
  obtain ⟨submitted, hsubmitted⟩ := Option.isSome_iff_exists.1 hsubmitted
  obtain ⟨start, hstart, hle⟩ := h.view.completed completed hcompleted
  have hmarked : s.submitter.time = some submitted := by
    rw [(h.submitted submitted).1 hsubmitted]
    rfl
  exact ⟨queued, submitted, start, completed, hq, hsubmitted, hstart, hcompleted, hqueued submitted hmarked,
    (h.view.start start hstart).2 submitted hmarked, hle,
    fun b hb t ht => (h.blocks b hb).start t ht start hstart,
    fun b hb t ht => (h.blocks b hb).completed t ht completed hcompleted⟩

/-! ## Two blocks -/

def twoBlocks : CPUCommand where
  multiExec := true
  blocks := 2
  single := nofun

/-- Both blocks start. -/
def started : List Action :=
  [.submit 1, .send, .send, .accept, .markSubmitted, .start 0, .sample 0 2, .mark 0, .sample 0 3, .mark 0,
   .start 1, .sample 1 4, .mark 1]

/-- The block that completes last is the first to append its sample. -/
def latestFirst : List Action :=
  started ++ [.sample 0 5, .sample 1 6, .mark 1, .mark 0, .finish 0, .finish 1, .sample 1 7, .mark 1]

/-- One block completes after the other. -/
def oneByOne : List Action :=
  started ++ [.sample 0 5, .mark 0, .finish 0, .sample 1 9, .mark 1, .finish 1, .sample 1 10, .mark 1]

/-- The profile of the two blocks, whose completions have been sampled at some times and appended in some order. -/
def twoBlocksDone (now completed₀ completed₁ : Nat) (samples : List ProfileSample) : State where
  now := now
  profile := [{ label := .commandEnqueued, subId := none, time := 0 },
              { label := .commandSubmitted, subId := none, time := 1 },
              { label := .commandRunning, subId := none, time := 2 },
              { label := .commandRunning, subId := some 0, time := 3 },
              { label := .commandRunning, subId := some 1, time := 4 }] ++ samples
  complete := true
  submitter := .marked 1
  contexts := [{ startedCount := 2, waitCount := 0, errors := false }]
  blocks := [{ id := 0, context := 0, phase := .done, startTime := some 3, completedTime := some completed₀ },
             { id := 1, context := 0, phase := .done, startTime := some 4, completedTime := some completed₁ }]
  taken := [⟨0, { label := .commandRunning, subId := none, time := 2 }⟩,
            ⟨0, { label := .commandRunning, subId := some 0, time := 3 }⟩,
            ⟨1, { label := .commandRunning, subId := some 1, time := 4 }⟩,
            ⟨0, { label := .commandCompleted, subId := some 0, time := completed₀ }⟩,
            ⟨1, { label := .commandCompleted, subId := some 1, time := completed₁ }⟩,
            ⟨1, { label := .commandCompleted, subId := none, time := now }⟩]

def latestFirstDone : State := twoBlocksDone 7 5 6
  [{ label := .commandCompleted, subId := some 1, time := 6 }, { label := .commandCompleted, subId := some 0, time := 5 },
   { label := .commandCompleted, subId := none, time := 7 }]

def oneByOneDone : State := twoBlocksDone 10 5 9
  [{ label := .commandCompleted, subId := some 0, time := 5 }, { label := .commandCompleted, subId := some 1, time := 9 },
   { label := .commandCompleted, subId := none, time := 10 }]

theorem latest_first_ordered : latestFirstDone.complete = true ∧ Ordered latestFirstDone := by
  have hr : Reachable ((system twoBlocks).meeting fun s a => meets twoBlocks s a = true) latestFirstDone := by
    have hinit : Reachable ((system twoBlocks).meeting fun s a => meets twoBlocks s a = true) (initial 0) :=
      .init ⟨0, rfl⟩
    have hrun : latestFirst.foldlM (fun s a => if meets twoBlocks s a then step twoBlocks s a else none) (initial 0) =
        some latestFirstDone := by decide
    refine hinit.foldlM (fun s a s' h => ?_) hrun
    split at h
    · next hmeets => exact ⟨hmeets, h⟩
    · cases h
  exact ⟨rfl, profiling_ordered twoBlocks hr rfl⟩

/-- The end is the completion of the first block. -/
theorem end_before_completion : Reachable (system twoBlocks) oneByOneDone ∧ oneByOneDone.complete = true ∧
    getProfiledTime oneByOneDone.profile .commandCompleted = some 5 ∧ ¬ Ordered oneByOneDone := by
  have hr : Reachable (system twoBlocks) oneByOneDone := by
    have hinit : Reachable (system twoBlocks) (initial 0) := .init ⟨0, rfl⟩
    exact hinit.foldlM (fun _ _ _ h => h) (show oneByOne.foldlM (step twoBlocks) (initial 0) = some oneByOneDone by decide)
  refine ⟨hr, rfl, by decide, ?_⟩
  rintro ⟨_, _, _, completed, -, -, -, hcompleted, -, -, -, -, hall⟩
  have htime : getProfiledTime oneByOneDone.profile .commandCompleted = some 5 := by decide
  obtain rfl := Option.some.inj (htime.symm.trans hcompleted)
  have hlast := hall { id := 1, context := 0, phase := .done, startTime := some 4, completedTime := some 9 } (by decide) 9 rfl
  omega

end OpenCRun.Profiling
