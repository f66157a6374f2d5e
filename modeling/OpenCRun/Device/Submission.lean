import OpenCRun.Core.CommandQueue
import OpenCRun.Core.QueueThreads
import OpenCRun.Device.BlockParallel
import OpenCRun.Device.CPUThread
import OpenCRun.Lib.Runs
/-!
# Submitting a command again

`CPUDevice::Submit` gives a command to one thread, and a launch block by block
to several. A thread may refuse what it is given; then `Submit` is false, the
queue keeps the command and its scheduler submits it again.
-/
open Lib Lib.MixedRadix

namespace OpenCRun.Submission

open CPUDevice BlockParallel
open CPUThread (CommandType)

/-- A launch that the builder has created for the device. -/
structure Launch where
  command : EnqueueNDRangeKernel
  created : ∃ ctx kern workDim globalWorkOffset globalWorkSize localWorkSize numEvents eventWaitList,
    (clEnqueueNDRangeKernel ctx cpuDevice kern workDim globalWorkOffset globalWorkSize localWorkSize numEvents
      eventWaitList).ok = true ∧
    (clEnqueueNDRangeKernel ctx cpuDevice kern workDim globalWorkOffset globalWorkSize localWorkSize numEvents
      eventWaitList).val = .ok command

def Launch.dimInfo (l : Launch) : DimensionInfo := l.command.dimInfo

theorem Launch.divided (l : Launch) : l.dimInfo.Divided := by
  obtain ⟨_, _, _, _, _, _, _, _, hok, h⟩ := l.created
  exact accepted_divided hok h

/-- `Command::Type`, with the launch of an NDRange kernel. -/
inductive Command where
  | ndRangeKernel (launch : Launch)
  | nativeKernel
  | readBuffer | writeBuffer | copyBuffer
  | readImage | writeImage | copyImage | copyImageToBuffer | copyBufferToImage
  | mapBuffer | mapImage | unmapMemObject
  | marker
  | readBufferRect | writeBufferRect | copyBufferRect
  | barrier
  | fillBuffer | fillImage

/-- What a thread takes: a command as a whole, or a block of a launch. -/
inductive Part where
  | whole (type : CommandType)
  | block (b : NDRangeKernelBlockCPUCommand)
  deriving DecidableEq, Repr

/-- The work-group that a block executes. -/
def Part.workGroup : Part → Option (List Nat)
  | whole _ => none
  | block b => some b.start.workGroups

/-- `pickThread().submit<CmdType>(Cmd, …)`: the result, and what the thread has taken. -/
def submitTo (accepts : Nat → Bool) (type : CommandType) : Bool × List Part :=
  if accepts 0 then (true, [.whole type]) else (false, [])

/-- `CPUDevice::BlockParallelSubmit`; its loop makes a turn for each work-group and one to end. -/
def submitBlocks (accepts : Nat → Bool) (di : DimensionInfo) : Bool × List Part :=
  match blockParallelSubmit di accepts (di.groupCounts.prod + 1) with
  | some sub => (sub.submitted, sub.blocks.map .block)
  | none => (false, [])

/-- `CPUDevice::Submit`, with whether the thread picked at the `k`-th time takes what it is given. -/
def submit (accepts : Nat → Bool) : Command → Bool × List Part
  | .readBuffer => submitTo accepts .readBuffer
  | .writeBuffer => submitTo accepts .writeBuffer
  | .copyBuffer => submitTo accepts .copyBuffer
  | .readImage => submitTo accepts .readImage
  | .writeImage => submitTo accepts .writeImage
  | .copyImage => submitTo accepts .copyImage
  | .copyImageToBuffer => submitTo accepts .copyImageToBuffer
  | .copyBufferToImage => submitTo accepts .copyBufferToImage
  | .mapBuffer => submitTo accepts .mapBuffer
  | .mapImage => submitTo accepts .mapImage
  | .unmapMemObject => submitTo accepts .unmapMemObject
  | .readBufferRect => submitTo accepts .readBufferRect
  | .writeBufferRect => submitTo accepts .writeBufferRect
  | .copyBufferRect => submitTo accepts .copyBufferRect
  | .fillBuffer => submitTo accepts .fillBuffer
  | .fillImage => submitTo accepts .fillImage
  | .ndRangeKernel launch => submitBlocks accepts launch.dimInfo
  | .nativeKernel => submitTo accepts .nativeKernel
  | .marker => submitTo accepts .noOp
  | .barrier => submitTo accepts .noOp

/-- Of a launch every work-group is taken once and nothing else is; any other command is one part. -/
def Complete : Command → List Part → Prop
  | .ndRangeKernel launch, parts =>
    parts.length = launch.dimInfo.groupCounts.prod ∧
      ∀ ids, Valid launch.dimInfo.groupCounts ids → (parts.map Part.workGroup).count (some ids) = 1
  | _, parts => ∃ type, parts = [.whole type]

/-- A block is taken, and a later one is refused. -/
def Partial (accepts : Nat → Bool) : Command → Prop
  | .ndRangeKernel launch => accepts 0 = true ∧ ∃ k < launch.dimInfo.groupCounts.prod, accepts k = false
  | _ => False

/-! ## What one submission leaves -/

/-- What a submission of the command may return and leave with the threads. -/
structure Outcome (accepts : Nat → Bool) (c : Command) (r : Bool × List Part) : Prop where
  accepted : r.1 = true → Complete c r.2 ∧ ¬ Partial accepts c
  refused : r.1 = false → (r.2 = [] ↔ ¬ Partial accepts c)

theorem submitTo_outcome {c : Command} (hc : ∀ type, Complete c [.whole type]) {accepts : Nat → Bool}
    (hp : ¬ Partial accepts c) (type : CommandType) : Outcome accepts c (submitTo accepts type) := by
  unfold submitTo
  split
  · exact ⟨fun _ => ⟨hc type, hp⟩, fun h => absurd h Bool.false_ne_true.symm⟩
  · exact ⟨fun h => absurd h Bool.false_ne_true, fun _ => iff_of_true rfl hp⟩

/-- The blocks of the first `j` work-groups. -/
theorem submitBlocks_eq {di : DimensionInfo} (h : di.Divided) {accepts : Nat → Bool} {j : Nat}
    (hj : j ≤ di.groupCounts.prod) (hok : ∀ k < j, accepts k = true)
    (hfail : j < di.groupCounts.prod → accepts j = false) :
    submitBlocks accepts di = (decide (j = di.groupCounts.prod),
      (List.range j).map fun g => .block (block di (di.position (di.localSizes.prod * g)))) := by
  simp only [submitBlocks, blockParallelSubmit_eq h hj hok hfail (Nat.lt_succ_of_le hj), List.map_map]
  rfl

/-- All the blocks of a launch make it complete. -/
theorem blocks_complete (l : Launch) :
    Complete (.ndRangeKernel l) ((List.range l.dimInfo.groupCounts.prod).map fun g =>
      .block (block l.dimInfo (l.dimInfo.position (l.dimInfo.localSizes.prod * g)))) := by
  have hgroups : ((List.range l.dimInfo.groupCounts.prod).map fun g =>
      Part.block (block l.dimInfo (l.dimInfo.position (l.dimInfo.localSizes.prod * g)))).map Part.workGroup =
        (List.range l.dimInfo.groupCounts.prod).map fun g => some (digits l.dimInfo.groupCounts g) := by
    rw [List.map_map]
    refine List.map_congr_left fun g hg => ?_
    exact congrArg some (position_workGroups l.divided (List.mem_range.1 hg))
  refine ⟨by simp, fun ids hids => ?_⟩
  rw [hgroups]
  refine List.count_eq_one_of_mem ?_ (List.mem_map.2 ⟨_, List.mem_range.2 (value_lt hids), ?_⟩)
  · refine List.Nodup.map_on ?_ List.nodup_range
    intro g hg g' hg' heq
    exact digits_inj (List.mem_range.1 hg) (List.mem_range.1 hg') (Option.some.inj heq)
  · rw [digits_value hids]

/-- A submission that succeeds is complete, one that fails has taken nothing unless it was partial. -/
theorem submit_outcome (accepts : Nat → Bool) (c : Command) : Outcome accepts c (submit accepts c) := by
  cases c with
  | ndRangeKernel l =>
    obtain ⟨j, hj, hok, hfail⟩ := exists_first_refused accepts l.dimInfo.groupCounts.prod
    rw [submit, submitBlocks_eq l.divided hj hok hfail]
    constructor
    · intro hall
      obtain rfl := of_decide_eq_true hall
      refine ⟨blocks_complete l, ?_⟩
      rintro ⟨-, k, hk, hrefused⟩
      rw [hok k hk] at hrefused
      cases hrefused
    · intro hne
      have hlt := Nat.lt_of_le_of_ne hj (of_decide_eq_false hne)
      cases j with
      | zero => simp [Partial, hfail hlt]
      | succ j =>
        have hpart : Partial accepts (.ndRangeKernel l) := ⟨hok 0 (Nat.succ_pos j), j + 1, hlt, hfail hlt⟩
        simp [hpart, List.range_succ]
  | _ =>
    refine submitTo_outcome (fun type => ?_) ?_ _
    · exact ⟨type, rfl⟩
    · exact not_false

/-! ## The queue -/

/-- An in-order queue, its device, and the commands that were ever enqueued. -/
structure State where
  queue : Queue.CommandQueue
  /-- What the threads have taken of which command. -/
  taken : List (Queue.Command × Part) := []
  enqueued : List Queue.Command := []

inductive Op where
  | enqueue (cmd : Queue.Command)
  | runScheduler (status : Nat → Int) (accepts : Nat → Bool)
  | commandDone

section Queue
variable (eventContext : Nat → Nat) (what : Queue.Command → Command)

def submitQueued (accepts : Nat → Bool) (cmd : Queue.Command) (taken : List (Queue.Command × Part)) :
    Bool × List (Queue.Command × Part) :=
  let r := submit accepts (what cmd)
  (r.1, taken ++ r.2.map (Prod.mk cmd))

/-- Every command is enqueued once. -/
def run (s : State) : Op → State
  | .enqueue cmd =>
    if cmd ∈ s.enqueued then s
    else match Queue.enqueue eventContext s.queue cmd with
      | .ok queue => { s with queue, enqueued := cmd :: s.enqueued }
      | .error _ => s
  | .runScheduler status accepts =>
    let r := Queue.runScheduler status (submitQueued what accepts) s.queue s.taken
    { s with queue := r.1, taken := r.2.1 }
  | .commandDone => { s with queue := Queue.commandDone s.queue }

def State.partsOf (s : State) (cmd : Queue.Command) : List Part :=
  (s.taken.filter fun p => p.1 = cmd).map Prod.snd

/-- Nothing of a command was taken as long as it is in the queue, and it is complete after that. -/
def AllOrNothing (s : State) : Prop :=
  ∀ cmd ∈ s.enqueued,
    if cmd ∈ s.queue.commands then s.partsOf cmd = [] else Complete (what cmd) (s.partsOf cmd)

/-- The scheduler finds a command to submit, of which a block is taken and a later one refused. -/
def Interrupted (s : State) (op : Op) : Prop :=
  ∃ status accepts cmd, op = .runScheduler status accepts ∧ QueueThreads.front status s.queue = .ok cmd ∧
    Partial accepts (what cmd)

/-- A command is in the queue once, and only an enqueued one is in the queue or with the threads. -/
structure Known (s : State) : Prop where
  nodup : s.queue.commands.Nodup
  queued : ∀ cmd ∈ s.queue.commands, cmd ∈ s.enqueued
  taken : ∀ p ∈ s.taken, p.1 ∈ s.enqueued

variable {eventContext what}

theorem enqueue_commands {q q' : Queue.CommandQueue} {cmd : Queue.Command}
    (h : Queue.enqueue eventContext q cmd = .ok q') : q'.commands = q.commands ++ [cmd] := by
  unfold Queue.enqueue at h
  split at h
  · cases h
  · split at h
    · cases h
    · rw [← Except.ok.inj h]

/-- What a call of the scheduler leaves: nothing changes, or the front was submitted. -/
theorem run_scheduler (s : State) (status : Nat → Int) (accepts : Nat → Bool) :
    (run eventContext what s (.runScheduler status accepts) = s ∧ ∀ cmd, QueueThreads.front status s.queue ≠ .ok cmd) ∨
    ∃ cmd rest, QueueThreads.front status s.queue = .ok cmd ∧ s.queue.commands = cmd :: rest ∧
      (run eventContext what s (.runScheduler status accepts)).enqueued = s.enqueued ∧
      (run eventContext what s (.runScheduler status accepts)).taken =
        s.taken ++ (submit accepts (what cmd)).2.map (Prod.mk cmd) ∧
      (run eventContext what s (.runScheduler status accepts)).queue.commands =
        if (submit accepts (what cmd)).1 then rest else s.queue.commands := by
  simp only [run, QueueThreads.runScheduler_eq]
  cases hf : QueueThreads.front status s.queue with
  | error result => exact .inl (by simp)
  | ok cmd =>
    obtain ⟨rest, hrest⟩ := QueueThreads.front_ok hf
    refine .inr ⟨cmd, rest, rfl, hrest, trivial, rfl, ?_⟩
    simp only [submitQueued]
    cases (submit accepts (what cmd)).1 with
    | true => simp [QueueThreads.submitted_cons hrest]
    | false => simp [QueueThreads.submitted_refused]

theorem partsOf_append (s s' : State) {cmd : Queue.Command} {parts : List Part}
    (h : s'.taken = s.taken ++ parts.map (Prod.mk cmd)) (c : Queue.Command) :
    s'.partsOf c = if c = cmd then s.partsOf c ++ parts else s.partsOf c := by
  unfold State.partsOf
  rw [h, List.filter_append, List.map_append]
  split
  · next heq =>
    subst heq
    simp [List.filter_map, Function.comp_def]
  · next hne => simp [List.filter_map, Function.comp_def, Ne.symm hne]

theorem partsOf_unknown {s : State} (hs : Known s) {cmd : Queue.Command} (h : cmd ∉ s.enqueued) : s.partsOf cmd = [] := by
  rw [State.partsOf, List.map_eq_nil_iff, List.filter_eq_nil_iff]
  intro p hp heq
  exact h (of_decide_eq_true heq ▸ hs.taken p hp)

theorem run_known (s : State) (op : Op) (hs : Known s) : Known (run eventContext what s op) := by
  cases op with
  | enqueue cmd =>
    simp only [run]
    split
    · exact hs
    next hnew =>
    split
    next queue hq =>
      have hcmds := enqueue_commands hq
      refine ⟨?_, fun c hc => ?_, fun p hp => List.mem_cons_of_mem _ (hs.taken p hp)⟩
      · rw [hcmds]
        exact List.nodup_append.2 ⟨hs.nodup, List.nodup_singleton _, fun a ha b hb heq =>
          hnew (List.mem_singleton.1 hb ▸ heq ▸ hs.queued a ha)⟩
      · rw [hcmds, List.mem_append, List.mem_singleton] at hc
        rcases hc with hc | rfl
        · exact List.mem_cons_of_mem _ (hs.queued c hc)
        · exact List.mem_cons_self
    · exact hs
  | runScheduler status accepts =>
    rcases @run_scheduler eventContext what s status accepts with
      ⟨heq, -⟩ | ⟨cmd, rest, -, hrest, henq, htaken, hcmds⟩
    · rw [heq]
      exact hs
    -- Commands only leave the queue here, and what is taken was at its head.
    · have hsub : (run eventContext what s (.runScheduler status accepts)).queue.commands.Sublist s.queue.commands := by
        rw [hcmds, hrest]
        split
        · exact List.sublist_cons_self _ _
        · exact List.Sublist.refl _
      refine ⟨hs.nodup.sublist hsub, fun c hc => henq ▸ hs.queued c (hsub.subset hc), fun p hp => ?_⟩
      rw [htaken, List.mem_append] at hp
      rw [henq]
      rcases hp with hp | hp
      · exact hs.taken p hp
      · obtain ⟨part, -, rfl⟩ := List.mem_map.1 hp
        exact hs.queued cmd (by rw [hrest]; exact List.mem_cons_self)
  | commandDone => exact ⟨hs.nodup, hs.queued, hs.taken⟩

/-- A command that is enqueued has no parts yet. -/
theorem enqueue_allOrNothing {s : State} (hs : Known s) (hall : AllOrNothing what s) (cmd : Queue.Command) :
    AllOrNothing what (run eventContext what s (.enqueue cmd)) := by
  simp only [run]
  split
  · exact hall
  next hnew =>
  split
  next queue hq =>
    intro c hc
    rw [enqueue_commands hq]
    rcases List.mem_cons.1 hc with rfl | hold
    · rw [if_pos (by simp)]
      exact partsOf_unknown hs hnew
    · have hne : c ≠ cmd := fun heq => hnew (heq ▸ hold)
      simpa [hne, State.partsOf] using hall c hold
  · exact hall

theorem interrupted_iff {s : State} {status : Nat → Int} {accepts : Nat → Bool} {cmd : Queue.Command}
    (hfront : QueueThreads.front status s.queue = .ok cmd) :
    Interrupted what s (.runScheduler status accepts) ↔ Partial accepts (what cmd) := by
  constructor
  · rintro ⟨_, _, c, hop, hc, hpart⟩
    cases hop
    rw [hfront] at hc
    rwa [Except.ok.inj hc]
  · exact fun hpart => ⟨status, accepts, cmd, rfl, hfront, hpart⟩

/-- What a submission of the front leaves of the other commands. -/
theorem others_allOrNothing {s s' : State} {cmd : Queue.Command} {rest : List Queue.Command} {parts : List Part}
    {accepted : Bool} (hall : AllOrNothing what s) (hrest : s.queue.commands = cmd :: rest)
    (htaken : s'.taken = s.taken ++ parts.map (Prod.mk cmd))
    (hcmds : s'.queue.commands = if accepted then rest else s.queue.commands) {c : Queue.Command} (hc : c ∈ s.enqueued)
    (hne : c ≠ cmd) :
    if c ∈ s'.queue.commands then s'.partsOf c = [] else Complete (what c) (s'.partsOf c) := by
  have hmem : c ∈ s'.queue.commands ↔ c ∈ s.queue.commands := by
    rw [hcmds]
    split
    · simp [hrest, hne]
    · rfl
  rw [partsOf_append s s' htaken, if_neg hne, if_congr hmem rfl rfl]
  exact hall c hc

/-- So the front decides. -/
theorem submitted_allOrNothing_iff {s s' : State} {cmd : Queue.Command} {rest : List Queue.Command} {parts : List Part}
    {accepted : Bool} (hs : Known s) (hall : AllOrNothing what s) (hrest : s.queue.commands = cmd :: rest)
    (henq : s'.enqueued = s.enqueued) (htaken : s'.taken = s.taken ++ parts.map (Prod.mk cmd))
    (hcmds : s'.queue.commands = if accepted then rest else s.queue.commands) :
    AllOrNothing what s' ↔ if cmd ∈ s'.queue.commands then parts = [] else Complete (what cmd) parts := by
  have hin : cmd ∈ s.queue.commands := by rw [hrest]; exact List.mem_cons_self
  have hnothing : s.partsOf cmd = [] := by simpa [hin] using hall cmd (hs.queued cmd hin)
  have hfront : s'.partsOf cmd = parts := by rw [partsOf_append s s' htaken, if_pos rfl, hnothing, List.nil_append]
  constructor
  · intro h
    have hcmd := h cmd (henq ▸ hs.queued cmd hin)
    rwa [hfront] at hcmd
  · intro h c hc
    by_cases heq : c = cmd
    · subst heq
      rwa [hfront]
    · exact others_allOrNothing hall hrest htaken hcmds (henq ▸ hc) heq

/-- The front is all or nothing after its submission unless it was interrupted. -/
theorem scheduler_allOrNothing {s : State} (hs : Known s) (hall : AllOrNothing what s) (status : Nat → Int)
    (accepts : Nat → Bool) :
    AllOrNothing what (run eventContext what s (.runScheduler status accepts)) ↔
      ¬ Interrupted what s (.runScheduler status accepts) := by
  rcases @run_scheduler eventContext what s status accepts with
    ⟨heq, hnone⟩ | ⟨cmd, rest, hfront, hrest, henq, htaken, hcmds⟩
  · rw [heq]
    refine iff_of_true hall ?_
    rintro ⟨_, _, cmd, hop, hfront, -⟩
    cases hop
    exact hnone cmd hfront
  · have hnodup := hs.nodup
    rw [hrest, List.nodup_cons] at hnodup
    have hout := submit_outcome accepts (what cmd)
    rw [submitted_allOrNothing_iff hs hall hrest henq htaken hcmds, interrupted_iff hfront, hcmds]
    cases hacc : (submit accepts (what cmd)).1 with
    | true =>
      rw [if_pos rfl, if_neg hnodup.1]
      exact iff_of_true (hout.accepted hacc).1 (hout.accepted hacc).2
    | false =>
      rw [if_neg Bool.false_ne_true, hrest, if_pos List.mem_cons_self]
      exact hout.refused hacc

theorem run_allOrNothing (s : State) (op : Op) (hs : Known s) (hall : AllOrNothing what s) :
    AllOrNothing what (run eventContext what s op) ↔ ¬ Interrupted what s op := by
  cases op with
  | enqueue cmd =>
    refine iff_of_true (enqueue_allOrNothing hs hall cmd) ?_
    rintro ⟨_, _, _, hop, -⟩
    cases hop
  | runScheduler status accepts => exact scheduler_allOrNothing hs hall status accepts
  | commandDone =>
    refine iff_of_true hall ?_
    rintro ⟨_, _, _, hop, -⟩
    cases hop

/-- A submission that fails has left nothing with the threads, and one that succeeds every work-group
once in total, all along a run in which no launch is refused after one of its blocks was taken. -/
theorem submitted_once_iff (eventContext : Nat → Nat) (what : Queue.Command → Command) (context : Nat) (native : Bool)
    (ops : List Op) :
    (∀ done, done <+: ops → AllOrNothing what (done.foldl (run eventContext what) ⟨⟨context, native, [], ∅, false⟩, [], []⟩)) ↔
      ∀ done op, done ++ [op] <+: ops →
        ¬ Interrupted what (done.foldl (run eventContext what) ⟨⟨context, native, [], ∅, false⟩, [], []⟩) op :=
  Lib.Runs.prefixes_iff (run eventContext what) (I := Known)
    ⟨List.nodup_nil, fun _ h => absurd h List.not_mem_nil, fun _ h => absurd h List.not_mem_nil⟩
    (fun _ h => absurd h List.not_mem_nil) run_known run_allOrNothing ops

end Queue

/-- Four work-groups of one work-item each. -/
def four : Launch where
  command := { kern := kernel, dimInfo := .new [0, 0] [2, 2] [1, 1], waitList := [] }
  created := ⟨0, some kernel, 2, none, some fun _ => 2, some fun _ => 1, 0, none, by decide, rfl⟩

/-- The second block is refused: the first one stays with its thread, and the command in the queue. -/
theorem interrupted_launch :
    ¬ ∀ (eventContext : Nat → Nat) (what : Queue.Command → Command) (context : Nat) (native : Bool) (ops : List Op),
      ∀ done, done <+: ops →
        AllOrNothing what (done.foldl (run eventContext what) ⟨⟨context, native, [], ∅, false⟩, [], []⟩) := by
  intro hall
  have hrun := hall (fun _ => 0) (fun _ => .ndRangeKernel four) 0 false
    [.enqueue ⟨0, [], false⟩, .runScheduler (fun _ => 0) (fun k => k == 0)] _ (List.prefix_refl _) ⟨0, [], false⟩
    (by decide)
  rw [if_pos (by decide)] at hrun
  exact absurd hrun (by decide)

end OpenCRun.Submission
