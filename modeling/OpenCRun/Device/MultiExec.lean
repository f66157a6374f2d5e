import OpenCRun.Core.Event
import OpenCRun.Lib.Runs
import OpenCRun.Lib.Tally
/-!
# Completion of a command of many blocks

A command of `N` blocks shares a `CPUMultiExecContext`. Each block is run once
by some thread, and its steps are the atomic operations of `notifyStart` and
`notifyCompletion`; the steps of the blocks interleave in any order, so what
holds here holds however the blocks are spread over threads. The counters are
kept as tallies of the blocks' phases.
-/
open Lib.Runs Lib.Tally

namespace OpenCRun.MultiExec

open EventStatus

/-! ## The shared context

The number of blocks is a `size_t`, like the two counters, so neither of them wraps. -/

structure CPUMultiExecContext where
  startedCount : Nat
  waitCount : Nat
  errors : Bool
  deriving DecidableEq, Repr

namespace CPUMultiExecContext

def new (n : Nat) : CPUMultiExecContext := { startedCount := 0, waitCount := n, errors := false }

/-- `start`: one atomic increment, and whether the count was zero before it. -/
def start (c : CPUMultiExecContext) : Bool × CPUMultiExecContext :=
  (c.startedCount == 0, { c with startedCount := c.startedCount + 1 })

/-- The first half of `finish`, for a block with an error. -/
def storeError (c : CPUMultiExecContext) : CPUMultiExecContext := { c with errors := true }

/-- The second half of `finish`: one atomic decrement, and whether the count is zero after it. -/
def countDown (c : CPUMultiExecContext) : Bool × CPUMultiExecContext :=
  (c.waitCount - 1 == 0, { c with waitCount := c.waitCount - 1 })

/-- The status of the whole command, `-(int)hasErrors()`. -/
def exitStatus (c : CPUMultiExecContext) : Int := if c.errors then -1 else 0

end CPUMultiExecContext

/-- `NoError` of `CPUCommand`. -/
def noError : Int := complete

/-! ## The phases of a block -/

inductive Phase where
  | queued
  /-- `start` returned true: `MarkRunning` comes next. -/
  | first
  | executing
  /-- The block has an error, which it will store. -/
  | storing
  /-- The block will decrement the wait count. -/
  | finishing (error : Bool)
  /-- `finish` returned true: the block will read the errors of all. -/
  | last (error : Bool)
  /-- `MarkCompleted` comes next. -/
  | completing (error : Bool) (exitStatus : Int)
  /-- `CommandDone` comes next. -/
  | reporting (error : Bool)
  | done (error : Bool)
  deriving DecidableEq, Repr

namespace Phase

def started : Phase → Nat
  | queued => 0
  | _ => 1

/-- The block has decremented the wait count. -/
def finished : Phase → Nat
  | last _ | completing _ _ | reporting _ | done _ => 1
  | _ => 0

def isFirst : Phase → Nat
  | first => 1
  | _ => 0

def isLast : Phase → Nat
  | last _ | completing _ _ => 1
  | _ => 0

def isReporting : Phase → Nat
  | reporting _ => 1
  | _ => 0

/-- The block finished with an error. -/
def failed : Phase → Bool
  | storing => true
  | finishing e | last e | completing e _ | reporting e | done e => e
  | _ => false

/-- The block has stored its error. -/
def stored : Phase → Nat
  | finishing e | last e | completing e _ | reporting e | done e => if e then 1 else 0
  | _ => 0

/-- The atomic steps that are left, at most. -/
def left : Phase → Nat
  | queued => 8
  | first => 7
  | executing => 6
  | storing => 5
  | finishing _ => 4
  | last _ => 3
  | completing _ _ => 2
  | reporting _ => 1
  | done _ => 0

theorem finished_le (p : Phase) : p.finished ≤ 1 := by cases p <;> simp [finished]

theorem finished_of_isFirst {p : Phase} (h : 0 < p.isFirst) : p.finished = 0 := by
  cases p <;> simp_all [isFirst, finished]

theorem stored_of_finished {p : Phase} (h : p.finished = 1) : 0 < p.stored ↔ p.failed = true := by
  cases p <;> simp_all [finished, stored, failed, Nat.pos_iff_ne_zero]

end Phase

/-! ## The steps -/

/-- What is done once for the whole command, and by which block. -/
inductive Mark (N : Nat) where
  | running (i : Fin N)
  | completed (i : Fin N) (exitStatus : Int)
  | commandDone (i : Fin N)
  deriving DecidableEq, Repr

structure State (N : Nat) where
  phase : Fin N → Phase
  context : CPUMultiExecContext
  /-- Of the command's event. -/
  status : Int
  marks : List (Mark N) := []

def State.setPhase {N : Nat} (s : State N) (i : Fin N) (p : Phase) : State N :=
  { s with phase := Function.update s.phase i p }

inductive Label (N : Nat) where
  | block (i : Fin N)
  | markSubmitted

/-- The thread that submitted the blocks marks the event after the blocks may have started. -/
inductive Step {N : Nat} : State N → Label N → State N → Prop
  | start (s : State N) (i : Fin N) (h : s.phase i = .queued) :
      Step s (.block i)
        { s.setPhase i (if s.context.start.1 then .first else .executing) with context := s.context.start.2 }
  | markRunning (s : State N) (i : Fin N) (h : s.phase i = .first) :
      Step s (.block i)
        { s.setPhase i .executing with status := markRunning s.status, marks := s.marks ++ [.running i] }
  | execute (s : State N) (i : Fin N) (exitStatus : Int) (h : s.phase i = .executing) :
      Step s (.block i) (s.setPhase i (if exitStatus != noError then .storing else .finishing false))
  | storeError (s : State N) (i : Fin N) (h : s.phase i = .storing) :
      Step s (.block i) { s.setPhase i (.finishing true) with context := s.context.storeError }
  | countDown (s : State N) (i : Fin N) (error : Bool) (h : s.phase i = .finishing error) :
      Step s (.block i)
        { s.setPhase i (if s.context.countDown.1 then .last error else .done error) with
          context := s.context.countDown.2 }
  | hasErrors (s : State N) (i : Fin N) (error : Bool) (h : s.phase i = .last error) :
      Step s (.block i) (s.setPhase i (.completing error s.context.exitStatus))
  | markCompleted (s : State N) (i : Fin N) (error : Bool) (exitStatus : Int)
      (h : s.phase i = .completing error exitStatus) :
      Step s (.block i)
        { s.setPhase i (.reporting error) with
          status := markCompleted s.status exitStatus
          marks := s.marks ++ [.completed i exitStatus] }
  | commandDone (s : State N) (i : Fin N) (error : Bool) (h : s.phase i = .reporting error) :
      Step s (.block i) { s.setPhase i (.done error) with marks := s.marks ++ [.commandDone i] }
  | markSubmitted (s : State N) : Step s .markSubmitted { s with status := markSubmitted s.status }

def system (N : Nat) : System (State N) (Label N) where
  init s := (∀ i, s.phase i = .queued) ∧ s.context = .new N ∧ s.status = queued ∧ s.marks = []
  step := Step

/-! ## The invariant -/

/-- How many blocks are about to mark the command running, to complete it, and to report it. -/
def State.Active {N : Nat} (s : State N) (first last reporting : Nat) : Prop :=
  total Phase.isFirst s.phase = first ∧ total Phase.isLast s.phase = last ∧
    total Phase.isReporting s.phase = reporting

/-- How far the command is. -/
inductive Stage {N : Nat} (s : State N) : Prop
  | fresh (hm : s.marks = []) (hs : s.context.startedCount = 0) (hw : 0 < s.context.waitCount)
      (ha : s.Active 0 0 0) (hst : 0 < s.status)
  | starting (hm : s.marks = []) (hs : 0 < s.context.startedCount) (hw : 0 < s.context.waitCount)
      (ha : s.Active 1 0 0) (hst : 0 < s.status)
  | running (k : Fin N) (hm : s.marks = [.running k]) (hs : 0 < s.context.startedCount)
      (hw : 0 < s.context.waitCount) (ha : s.Active 0 0 0) (hst : 0 < s.status)
  | completing (k : Fin N) (hm : s.marks = [.running k]) (hw : s.context.waitCount = 0) (ha : s.Active 0 1 0)
      (hst : 0 < s.status)
      (hx : ∀ j error exitStatus, s.phase j = .completing error exitStatus → exitStatus = s.context.exitStatus)
  | reporting (k j : Fin N) (hm : s.marks = [.running k, .completed j s.context.exitStatus])
      (hw : s.context.waitCount = 0) (ha : s.Active 0 0 1) (hst : s.status = s.context.exitStatus)
      (hj : (s.phase j).isReporting = 1)
  | reported (k j : Fin N) (hm : s.marks = [.running k, .completed j s.context.exitStatus, .commandDone j])
      (hw : s.context.waitCount = 0) (ha : s.Active 0 0 0) (hst : s.status = s.context.exitStatus)

structure Inv {N : Nat} (s : State N) : Prop where
  started : s.context.startedCount = total Phase.started s.phase
  finished : s.context.waitCount + total Phase.finished s.phase = N
  stored : s.context.errors = true ↔ 0 < total Phase.stored s.phase
  stage : Stage s

variable {N : Nat} {s s' : State N} {i : Fin N} {p p' : Phase}

/-- When the wait count is zero every block has finished. -/
theorem Inv.all_finished (h : Inv s) (hw : s.context.waitCount = 0) (i : Fin N) : (s.phase i).finished = 1 := by
  have hf := h.finished
  rw [hw, Nat.zero_add] at hf
  exact (total_eq_card Phase.finished_le).1 (by simpa using hf) i

theorem Inv.waitCount_pos (h : Inv s) (hi : s.phase i = p) (hp : p.finished = 0) : 0 < s.context.waitCount := by
  rcases Nat.eq_zero_or_pos s.context.waitCount with hw | hw
  · have := h.all_finished hw i
    rw [hi] at this
    omega
  · exact hw

theorem Inv.startedCount_pos (h : Inv s) (hi : s.phase i = p) (hp : p.started = 1) : 0 < s.context.startedCount := by
  have hle := le_total Phase.started s.phase i
  rw [hi] at hle
  have := h.started
  omega

/-! ## The steps keep it -/

theorem total_move (w : Phase → Nat) (hi : s.phase i = p) (hs' : s'.phase = Function.update s.phase i p') :
    total w s'.phase + w p = total w s.phase + w p' := by
  rw [hs', ← hi]
  exact total_update w s.phase i p'

theorem State.Active.move {a b c a' b' c' : Nat} (ha : s.Active a b c) (hi : s.phase i = p)
    (hs' : s'.phase = Function.update s.phase i p') (h1 : a' + p.isFirst = a + p'.isFirst)
    (h2 : b' + p.isLast = b + p'.isLast) (h3 : c' + p.isReporting = c + p'.isReporting) : s'.Active a' b' c' := by
  obtain ⟨e1, e2, e3⟩ := ha
  have := total_move Phase.isFirst hi hs'
  have := total_move Phase.isLast hi hs'
  have := total_move Phase.isReporting hi hs'
  exact ⟨by omega, by omega, by omega⟩

/-- A block moves, and the counters follow its phase. -/
theorem Inv.move (h : Inv s) (hi : s.phase i = p) (hs' : s'.phase = Function.update s.phase i p')
    (hs : s'.context.startedCount + p.started = s.context.startedCount + p'.started)
    (hw : s'.context.waitCount + p'.finished = s.context.waitCount + p.finished)
    (he : s'.context.errors = true ↔ s.context.errors = true ∨ p.stored < p'.stored) (hp : p.stored ≤ p'.stored)
    (hst : Stage s') : Inv s' := by
  have h1 := total_move Phase.started hi hs'
  have h2 := total_move Phase.finished hi hs'
  have h3 := total_move Phase.stored hi hs'
  have hle := le_total Phase.stored s.phase i
  rw [hi] at hle
  have := h.started
  have := h.finished
  refine ⟨by omega, by omega, ?_, hst⟩
  rw [he, h.stored]
  omega

/-- Before the last block has finished, a block that is not the first one moves on its own. -/
theorem Stage.stay (h : Stage s) (hs : 0 < s.context.startedCount) (hw : 0 < s.context.waitCount)
    (hs' : 0 < s'.context.startedCount) (hw' : 0 < s'.context.waitCount) (hm : s'.marks = s.marks)
    (hst : s'.status = s.status) (ha : ∀ a b c, s.Active a b c → s'.Active a b c) : Stage s' := by
  cases h with
  | starting m _ _ a t => exact .starting (hm.trans m) hs' hw' (ha _ _ _ a) (hst ▸ t)
  | running k m _ _ a t => exact .running k (hm.trans m) hs' hw' (ha _ _ _ a) (hst ▸ t)
  | fresh | completing | reporting | reported => omega

theorem Inv.start (h : Inv s) (hi : s.phase i = .queued) :
    Inv { s.setPhase i (if s.context.start.1 then .first else .executing) with context := s.context.start.2 } := by
  have hw := h.waitCount_pos hi rfl
  by_cases h0 : s.context.startedCount = 0
  · have hf : s.context.start.1 = true := by simp [CPUMultiExecContext.start, h0]
    rw [hf]
    refine h.move hi rfl rfl rfl (by simp [CPUMultiExecContext.start, Phase.stored]) le_rfl ?_
    -- the first block: no one has started
    cases h.stage with
    | fresh m _ _ a t => exact .starting m (Nat.succ_pos _) hw (a.move hi rfl rfl rfl rfl) t
    | starting | running | completing | reporting | reported => omega
  · have hf : s.context.start.1 = false := by simp [CPUMultiExecContext.start, h0]
    rw [hf]
    refine h.move hi rfl rfl rfl (by simp [CPUMultiExecContext.start, Phase.stored]) le_rfl ?_
    exact h.stage.stay (Nat.pos_of_ne_zero h0) hw (Nat.succ_pos _) hw rfl rfl fun _ _ _ a => a.move hi rfl rfl rfl rfl

theorem Inv.markRunning (h : Inv s) (hi : s.phase i = .first) :
    Inv { s.setPhase i .executing with status := markRunning s.status, marks := s.marks ++ [.running i] } := by
  have hw := h.waitCount_pos hi rfl
  have hone := le_total Phase.isFirst s.phase i
  rw [hi] at hone
  refine h.move hi rfl rfl rfl (by simp [State.setPhase, Phase.stored]) le_rfl ?_
  cases h.stage with
  | starting m hs _ a t =>
    refine .running i (by simp [m]) hs hw (a.move hi rfl rfl rfl rfl) ?_
    simp only [EventStatus.markRunning, signal_eq_min, running]
    omega
  | fresh _ _ _ a | running _ _ _ _ a => exact absurd (a.1 ▸ hone) (by decide)
  | completing | reporting | reported => omega

theorem Inv.execute (h : Inv s) (hi : s.phase i = .executing) (exitStatus : Int) :
    Inv (s.setPhase i (if exitStatus != noError then .storing else .finishing false)) := by
  have hw := h.waitCount_pos hi rfl
  have hs := h.startedCount_pos hi rfl
  split <;>
  exact h.move hi rfl rfl rfl (by simp [State.setPhase, Phase.stored]) le_rfl
    (h.stage.stay hs hw hs hw rfl rfl fun _ _ _ a => a.move hi rfl rfl rfl rfl)

theorem Inv.storeError (h : Inv s) (hi : s.phase i = .storing) :
    Inv { s.setPhase i (.finishing true) with context := s.context.storeError } := by
  have hw := h.waitCount_pos hi rfl
  have hs := h.startedCount_pos hi rfl
  exact h.move hi rfl rfl rfl (by simp [CPUMultiExecContext.storeError, Phase.stored]) (Nat.zero_le _)
    (h.stage.stay hs hw hs hw rfl rfl fun _ _ _ a => a.move hi rfl rfl rfl rfl)

/-- While two blocks have not finished, the next one to finish is not the last. -/
theorem Inv.two_unfinished (h : Inv s) {j : Fin N} (hij : j ≠ i) (hi : (s.phase i).finished = 0)
    (hj : (s.phase j).finished = 0) : 1 < s.context.waitCount := by
  have hf := h.finished
  have hu := total_update Phase.finished s.phase i (.done false)
  have hd : (Phase.done false).finished = 1 := rfl
  by_contra hle
  have hle' := Nat.le_of_not_lt hle
  have hcard : total Phase.finished (Function.update s.phase i (.done false)) = Fintype.card (Fin N) := by
    have hbound := total_le Phase.finished_le (Function.update s.phase i (.done false))
    simp only [Fintype.card_fin] at hbound ⊢
    omega
  have hone := (total_eq_card Phase.finished_le).1 hcard j
  rw [Function.update_of_ne hij, hj] at hone
  cases hone

theorem Inv.countDown (h : Inv s) {error : Bool} (hi : s.phase i = .finishing error) :
    Inv { s.setPhase i (if s.context.countDown.1 then .last error else .done error) with
      context := s.context.countDown.2 } := by
  have hw := h.waitCount_pos hi rfl
  have hs := h.startedCount_pos hi rfl
  by_cases h1 : s.context.waitCount = 1
  · have hc : s.context.countDown.1 = true := by simp [CPUMultiExecContext.countDown, h1]
    rw [hc]
    refine h.move hi rfl rfl (Nat.sub_add_cancel hw) (by simp [CPUMultiExecContext.countDown, Phase.stored]) le_rfl ?_
    cases h.stage with
    | starting _ _ _ a =>
      -- some block is about to mark the command running, and has not finished
      obtain ⟨j, hj⟩ := total_pos.1 (a.1 ▸ Nat.one_pos)
      have hij : j ≠ i := by rintro rfl; simp [hi, Phase.isFirst] at hj
      have := h.two_unfinished hij (by rw [hi]; rfl) (Phase.finished_of_isFirst hj)
      omega
    | running k m _ _ a t =>
      refine .completing k m (by simp [CPUMultiExecContext.countDown, h1]) (a.move hi rfl rfl rfl rfl) t ?_
      intro j error' exitStatus hj
      -- no block was completing the command before
      by_cases hij : j = i
      · subst hij; simp [State.setPhase] at hj
      · have hle := le_total Phase.isLast s.phase j
        simp only [State.setPhase, Function.update_of_ne hij] at hj
        rw [a.2.1, hj] at hle
        exact absurd hle (by simp [Phase.isLast])
    | fresh | completing | reporting | reported => omega
  · have hc : s.context.countDown.1 = false := by simp [CPUMultiExecContext.countDown]; omega
    rw [hc]
    refine h.move hi rfl rfl (Nat.sub_add_cancel hw) (by simp [CPUMultiExecContext.countDown, Phase.stored]) le_rfl ?_
    exact h.stage.stay hs hw hs (by simp [CPUMultiExecContext.countDown]; omega) rfl rfl
      fun _ _ _ a => a.move hi rfl rfl rfl rfl

theorem Inv.hasErrors (h : Inv s) {error : Bool} (hi : s.phase i = .last error) :
    Inv (s.setPhase i (.completing error s.context.exitStatus)) := by
  have hone := le_total Phase.isLast s.phase i
  rw [hi] at hone
  refine h.move hi rfl rfl rfl (by simp [State.setPhase, Phase.stored]) le_rfl ?_
  cases h.stage with
  | completing k m hw a t hx =>
    refine .completing k m hw (a.move hi rfl rfl rfl rfl) t fun j error' exitStatus hj => ?_
    by_cases hij : j = i
    · subst hij
      simp only [State.setPhase, Function.update_self, Phase.completing.injEq] at hj
      exact hj.2.symm
    · simp only [State.setPhase, Function.update_of_ne hij] at hj
      exact hx j error' exitStatus hj
  | fresh _ _ _ a | starting _ _ _ a | running _ _ _ _ a | reporting _ _ _ _ a | reported _ _ _ _ a =>
    exact absurd (a.2.1 ▸ hone) (by simp [Phase.isLast])

theorem markCompleted_exitStatus {c : CPUMultiExecContext} {status : Int} (h : 0 < status) :
    EventStatus.markCompleted status c.exitStatus = c.exitStatus := by
  have hle : c.exitStatus ≤ 0 := by unfold CPUMultiExecContext.exitStatus; split <;> decide
  unfold EventStatus.markCompleted
  rw [signal_eq_min]
  split
  · next hc => simp [complete] at hc; omega
  · omega

theorem Inv.markCompleted (h : Inv s) {error : Bool} {exitStatus : Int}
    (hi : s.phase i = .completing error exitStatus) :
    Inv { s.setPhase i (.reporting error) with
          status := markCompleted s.status exitStatus
          marks := s.marks ++ [.completed i exitStatus] } := by
  have hone := le_total Phase.isLast s.phase i
  rw [hi] at hone
  refine h.move hi rfl rfl rfl (by simp [State.setPhase, Phase.stored]) le_rfl ?_
  cases h.stage with
  | completing k m hw a t hx =>
    obtain rfl := hx i error exitStatus hi
    refine .reporting k i (by simp [m, State.setPhase]) hw (a.move hi rfl rfl rfl rfl) (markCompleted_exitStatus t) ?_
    simp [State.setPhase, Phase.isReporting]
  | fresh _ _ _ a | starting _ _ _ a | running _ _ _ _ a | reporting _ _ _ _ a | reported _ _ _ _ a =>
    exact absurd (a.2.1 ▸ hone) (by simp [Phase.isLast])

theorem Inv.commandDone (h : Inv s) {error : Bool} (hi : s.phase i = .reporting error) :
    Inv { s.setPhase i (.done error) with marks := s.marks ++ [.commandDone i] } := by
  have hone := le_total Phase.isReporting s.phase i
  rw [hi] at hone
  refine h.move hi rfl rfl rfl (by simp [State.setPhase, Phase.stored]) le_rfl ?_
  cases h.stage with
  | reporting k j m hw a t hj =>
    -- only one block reports, the one that completed the command
    obtain rfl : i = j := by
      by_contra hij
      have htwo := add_le_total Phase.isReporting s.phase hij
      rw [hi, hj, a.2.2] at htwo
      exact absurd htwo (by simp [Phase.isReporting])
    exact .reported k i (by simp [m, State.setPhase]) hw (a.move hi rfl rfl rfl rfl) t
  | fresh _ _ _ a | starting _ _ _ a | running _ _ _ _ a | completing _ _ _ a | reported _ _ _ _ a =>
    exact absurd (a.2.2 ▸ hone) (by simp [Phase.isReporting])

theorem Inv.markSubmitted (h : Inv s) : Inv { s with status := markSubmitted s.status } := by
  have hpos : 0 < s.status → 0 < EventStatus.markSubmitted s.status := by
    simp only [EventStatus.markSubmitted, signal_eq_min, submitted]
    omega
  have hexit : s.status = s.context.exitStatus → EventStatus.markSubmitted s.status = s.context.exitStatus := by
    have hle : s.context.exitStatus ≤ 0 := by unfold CPUMultiExecContext.exitStatus; split <;> decide
    simp only [EventStatus.markSubmitted, signal_eq_min, submitted]
    omega
  refine ⟨h.started, h.finished, h.stored, ?_⟩
  cases h.stage with
  | fresh m hs hw a t => exact .fresh m hs hw a (hpos t)
  | starting m hs hw a t => exact .starting m hs hw a (hpos t)
  | running k m hs hw a t => exact .running k m hs hw a (hpos t)
  | completing k m hw a t hx => exact .completing k m hw a (hpos t) hx
  | reporting k j m hw a t hj => exact .reporting k j m hw a (hexit t) hj
  | reported k j m hw a t => exact .reported k j m hw a (hexit t)

theorem step_inv {l : Label N} (h : Inv s) (hs : Step s l s') : Inv s' := by
  cases hs with
  | start i hi => exact h.start hi
  | markRunning i hi => exact h.markRunning hi
  | execute i exitStatus hi => exact h.execute hi exitStatus
  | storeError i hi => exact h.storeError hi
  | countDown i error hi => exact h.countDown hi
  | hasErrors i error hi => exact h.hasErrors hi
  | markCompleted i error exitStatus hi => exact h.markCompleted hi
  | commandDone i error hi => exact h.commandDone hi
  | markSubmitted => exact h.markSubmitted

theorem inv_invariant (hN : 0 < N) : Invariant (system N) Inv where
  init s hi := by
    obtain ⟨hp, hc, hst, hm⟩ := hi
    have hp' : s.phase = fun _ => .queued := funext hp
    have hzero : ∀ w : Phase → Nat, w .queued = 0 → total w s.phase = 0 := fun w hw => by
      rw [hp', total_const, hw, Nat.mul_zero]
    refine ⟨by rw [hc, hzero _ rfl]; rfl, by rw [hc, hzero _ rfl]; rfl,
      by rw [hc, hzero _ rfl]; simp [CPUMultiExecContext.new], ?_⟩
    refine .fresh hm (by rw [hc]; rfl) (by rw [hc]; exact hN) ⟨hzero _ rfl, hzero _ rfl, hzero _ rfl⟩ ?_
    rw [hst]; decide
  step _ _ _ h hs := step_inv h hs

/-! ## The protocol -/

theorem isError_exitStatus (c : CPUMultiExecContext) : isError c.exitStatus = c.errors := by
  unfold CPUMultiExecContext.exitStatus
  cases c.errors <;> rfl

/-- When all blocks have finished, the errors say whether one of them failed. -/
theorem Inv.errors_iff (h : Inv s) (hw : s.context.waitCount = 0) :
    s.context.errors = true ↔ ∃ i, (s.phase i).failed = true := by
  rw [h.stored, total_pos]
  exact exists_congr fun i => Phase.stored_of_finished (h.all_finished hw i)

/-- Every atomic step of a block leaves it fewer. -/
theorem left_decreases (hs : Step s (.block i) s') : total Phase.left s'.phase < total Phase.left s.phase := by
  have hmove : ∀ p p', s.phase i = p → s'.phase = Function.update s.phase i p' → p'.left < p.left →
      total Phase.left s'.phase < total Phase.left s.phase := by
    intro p p' hp hp' hlt
    have := total_move Phase.left hp hp'
    omega
  cases hs with
  | start _ hi | execute _ _ hi | countDown _ _ hi => exact hmove _ _ hi rfl (by split <;> simp [Phase.left])
  | markRunning _ hi | storeError _ hi | hasErrors _ _ hi | markCompleted _ _ _ hi | commandDone _ _ hi =>
    exact hmove _ _ hi rfl (by simp [Phase.left])

/-- A block that is not done can take its next step. -/
theorem step_of_not_done (s : State N) (i : Fin N) (h : ∀ error, s.phase i ≠ .done error) : ∃ s', Step s (.block i) s' := by
  cases hp : s.phase i with
  | queued => exact ⟨_, .start s i hp⟩
  | first => exact ⟨_, .markRunning s i hp⟩
  | executing => exact ⟨_, .execute s i noError hp⟩
  | storing => exact ⟨_, .storeError s i hp⟩
  | finishing error => exact ⟨_, .countDown s i error hp⟩
  | last error => exact ⟨_, .hasErrors s i error hp⟩
  | completing error exitStatus => exact ⟨_, .markCompleted s i error exitStatus hp⟩
  | reporting error => exact ⟨_, .commandDone s i error hp⟩
  | done error => exact absurd hp (h error)

/-- The command is completed when all blocks have finished, with what their errors say. -/
theorem Inv.of_completed (h : Inv s) {j : Fin N} {exitStatus : Int} (hj : .completed j exitStatus ∈ s.marks) :
    (∀ i, (s.phase i).finished = 1) ∧ s.status = exitStatus ∧
      (isError exitStatus = true ↔ ∃ i, (s.phase i).failed = true) := by
  have hdone : s.context.waitCount = 0 → s.status = s.context.exitStatus → exitStatus = s.context.exitStatus →
      (∀ i, (s.phase i).finished = 1) ∧ s.status = exitStatus ∧
      (isError exitStatus = true ↔ ∃ i, (s.phase i).failed = true) := by
    rintro hw t rfl
    exact ⟨h.all_finished hw, t, by rw [isError_exitStatus, h.errors_iff hw]⟩
  cases h.stage with
  | fresh m | starting m | running k m | completing k m => simp [m] at hj
  | reporting k j' m hw a t | reported k j' m hw a t =>
    rw [m] at hj
    apply hdone hw t
    simp at hj
    exact hj.2

/-- When all blocks are done, the three marks have been made. -/
theorem Inv.all_done (h : Inv s) (hd : ∀ i, ∃ error, s.phase i = .done error) :
    ∃ i j exitStatus, s.marks = [.running i, .completed j exitStatus, .commandDone j] := by
  have hw : s.context.waitCount = 0 := by
    have hcard := (total_eq_card (f := s.phase) Phase.finished_le).2 fun i => by obtain ⟨e, he⟩ := hd i; rw [he]; rfl
    have := h.finished
    rw [Fintype.card_fin] at hcard
    omega
  -- so no block is about to complete or to report the command
  have hzero : ∀ w : Phase → Nat, (∀ e, w (.done e) = 0) → total w s.phase = 0 := by
    intro w hz
    apply Nat.eq_zero_of_not_pos
    intro hpos
    obtain ⟨j, hj⟩ := total_pos.1 hpos
    obtain ⟨e, he⟩ := hd j
    rw [he, hz e] at hj
    exact absurd hj (lt_irrefl 0)
  cases h.stage with
  | reported k j m => exact ⟨k, j, _, m⟩
  | completing _ _ _ a => exact absurd (a.2.1.symm.trans (hzero _ fun _ => rfl)) Nat.one_ne_zero
  | reporting _ _ _ _ a => exact absurd (a.2.2.symm.trans (hzero _ fun _ => rfl)) Nat.one_ne_zero
  | fresh | starting | running => omega

/-- In every reachable state the command has been marked running, completed and reported at most once
each, in this order and the last two by one block; completed only when all blocks have finished, and
with an error if and only if one of them had one. Every run goes on until all blocks are done, and then
all three marks have been made. -/
theorem completion_protocol (hN : 0 < N) (s : State N) (hr : Reachable (system N) s) :
    (∃ i j exitStatus, s.marks <+: [.running i, .completed j exitStatus, .commandDone j]) ∧
    (∀ j exitStatus, .completed j exitStatus ∈ s.marks →
      (∀ i, (s.phase i).finished = 1) ∧ s.status = exitStatus ∧
      (isError exitStatus = true ↔ ∃ i, (s.phase i).failed = true)) ∧
    ((∀ i, ∃ error, s.phase i = .done error) →
      ∃ i j exitStatus, s.marks = [.running i, .completed j exitStatus, .commandDone j]) ∧
    (∀ i, (∀ error, s.phase i ≠ .done error) → ∃ s', Step s (.block i) s') ∧
    (∀ i s', Step s (.block i) s' → total Phase.left s'.phase < total Phase.left s.phase) := by
  have h := (inv_invariant hN).reachable hr
  refine ⟨?_, fun j exitStatus => h.of_completed, h.all_done, step_of_not_done s, fun i s' => left_decreases⟩
  cases h.stage with
  | fresh m | starting m => exact ⟨⟨0, hN⟩, ⟨0, hN⟩, 0, by simp [m]⟩
  | running k m | completing k m => exact ⟨k, k, 0, by simp [m]⟩
  | reporting k j m | reported k j m => exact ⟨k, j, s.context.exitStatus, by simp [m]⟩

/-- Two blocks, the second of which fails: the first one marks the command running, the second completes it. -/
theorem completion_protocol_two : ∃ s : State 2, Reachable (system 2) s ∧ isError s.status = true ∧
    ∃ i j exitStatus, s.marks = [.running i, .completed j exitStatus, .commandDone j] := by
  let new : State 2 := { phase := fun _ => .queued, context := .new 2, status := queued }
  have h₀ : Reachable (system 2) new := .init ⟨fun _ => rfl, rfl, rfl, rfl⟩
  have h₁ := ((h₀.step (.start _ 0 rfl)).step (.start _ 1 rfl)).step (.execute _ 1 (-45) rfl)
  have h₂ := ((h₁.step (.markRunning _ 0 rfl)).step (.execute _ 0 0 rfl)).step (.countDown _ 0 false rfl)
  have h₃ := ((h₂.step (.storeError _ 1 rfl)).step (.countDown _ 1 true rfl)).step (.hasErrors _ 1 true rfl)
  have h₄ := ((h₃.step (.markCompleted _ 1 true (-1) rfl)).step (.commandDone _ 1 true rfl)).step (.markSubmitted _)
  exact ⟨_, h₄, rfl, (completion_protocol (by decide) _ h₄).2.2.1 (Fin.forall_fin_two.2 ⟨⟨false, rfl⟩, ⟨true, rfl⟩⟩)⟩

end OpenCRun.MultiExec
