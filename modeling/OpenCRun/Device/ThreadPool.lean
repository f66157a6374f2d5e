import Mathlib.Logic.Function.Basic
import OpenCRun.Lib.Runs
/-!
# The shutdown of the thread pool

`ThreadPool.cpp`: workers take jobs out of a queue under the pool's monitor;
the destructor has them quit and joins them, one after the other. Each step is
one access to what the threads share.
-/
open Lib.Runs Function

namespace OpenCRun.ThreadPool

/-- Where a worker is in `WorkerThread::Run`. -/
inductive Pc where
  | enter
  /-- It reads `end`, then the queue. -/
  | checkEnd
  | checkJobs
  | waiting
  /-- Woken in `Wait`, and to enter the monitor again. -/
  | woken
  /-- `if(end)` -/
  | testEnd
  | take
  | run
  | setCompleted
  | clear
  | done
  deriving DecidableEq, Repr

/-- Where the destructor is; `setEnd`, `clearJob` and `signal` are the statements of `Quit`. -/
inductive Dtor where
  | alive
  | setEnd (i : Nat)
  | clearJob (i : Nat)
  | signal (i : Nat)
  | join (i : Nat)
  | broadcast
  | ended
  deriving DecidableEq, Repr

/-- The pool. Jobs are numbered; the last lists are histories. -/
structure State where
  jobs : List Nat := []
  /-- The worker in the monitor. The sections of other threads are one step each. -/
  owner : Option Nat := none
  pc : Nat → Pc := fun _ => .enter
  job : Nat → Option Nat := fun _ => none
  ends : Nat → Bool := fun _ => false
  dtor : Dtor := .alive
  enqueued : List Nat := []
  executed : List Nat := []
  completed : List Nat := []
  /-- A null pointer or the front of an empty queue was used. -/
  undefined : Bool := false

inductive Label where
  | worker (i : Nat)
  /-- A wait that returns without a signal. -/
  | wakeUp (i : Nat)
  /-- `EnqueueJob`, with the worker that its signal wakes. -/
  | enqueue (job : Nat) (woken : Option Nat)
  /-- The next step of the destructor; `woken` is for its signal. -/
  | destructor (woken : Option Nat)
  deriving DecidableEq, Repr

section Steps
variable (n : Nat) (s : State)

def goto (i : Nat) (pc : Pc) : State := { s with pc := update s.pc i pc }

/-- `Signal` wakes one of the workers that wait, if any does. -/
def canWake : Option Nat → Bool
  | none => (List.range n).all fun i => s.pc i != .waiting
  | some i => decide (i < n) && s.pc i == .waiting

def wake : Option Nat → State
  | none => s
  | some i => goto s i .woken

/-- The next step of a worker, unless it waits, or for the monitor. -/
def workerStep (i : Nat) : Option State :=
  match s.pc i with
  -- `Enter`, and the way out of `Wait`.
  | .enter | .woken => if s.owner = none then some { goto s i .checkEnd with owner := some i } else none
  | .checkEnd => some (goto s i (if s.ends i then .testEnd else .checkJobs))
  | .checkJobs => some (if s.jobs = [] then { goto s i .waiting with owner := none } else goto s i .testEnd)
  -- The flag is read again after the loop.
  | .testEnd => some (if s.ends i then { goto s i .done with owner := none } else goto s i .take)
  -- The front of an empty queue is undefined.
  | .take =>
    match s.jobs with
    | [] => some { s with undefined := true }
    | job :: jobs => some { goto s i .run with jobs, job := update s.job i (some job), owner := none }
  | .run =>
    match s.job i with
    | none => some { s with undefined := true }
    | some job => some { goto s i .setCompleted with executed := s.executed ++ [job] }
  | .setCompleted =>
    match s.job i with
    | none => some { s with undefined := true }
    | some job => some { goto s i .clear with completed := s.completed ++ [job] }
  -- `Run` clears the job without the monitor.
  | .clear => some { goto s i .enter with job := update s.job i none }
  | .waiting | .done => none

/-- The loop of the destructor. -/
def quitFrom (i : Nat) : Dtor := if i < n then .setEnd i else .broadcast

def dtorStep (woken : Option Nat) : Option State :=
  match s.dtor with
  | .alive => some { s with dtor := quitFrom n 0 }
  | .setEnd i => some { s with ends := update s.ends i true, dtor := .clearJob i }
  | .clearJob i => some { s with job := update s.job i none, dtor := .signal i }
  | .signal i => if s.owner = none ∧ canWake n s woken then some { wake s woken with dtor := .join i } else none
  | .join i => if s.pc i = .done then some { s with dtor := quitFrom n (i + 1) } else none
  | .broadcast => some { s with pc := fun i => if s.pc i = .waiting then .woken else s.pc i, dtor := .ended }
  | .ended => none

def step : Label → Option State
  | .worker i => if i < n then workerStep s i else none
  | .wakeUp i => if i < n ∧ s.pc i = .waiting then some (goto s i .woken) else none
  | .enqueue job woken =>
    if s.dtor = .alive ∧ s.owner = none ∧ canWake n s woken then
      some { wake s woken with jobs := s.jobs ++ [job], enqueued := s.enqueued ++ [job] }
    else none
  | .destructor woken => dtorStep n s woken

end Steps

/-- A pool of `n` workers. -/
def system (n : Nat) : System State Label where
  init s := s = {}
  step s l s' := step n s l = some s'

/-- The destructor joins a worker that waits, and that nothing will wake. -/
def Blocked (s : State) : Prop := ∃ i, s.dtor = .join i ∧ s.pc i = .waiting

/-- The destructor is not blocked, no pointer is misused, and at the end all jobs are executed and completed. -/
structure Safe (s : State) : Prop where
  joins : ¬ Blocked s
  defined : s.undefined = false
  all_done : s.dtor = .ended → ∀ job ∈ s.enqueued, job ∈ s.executed ∧ job ∈ s.completed

/-- What a step must meet: the signal of `Quit` wakes the worker that quits, if that waits; `Quit` does not clear the
pointer of a worker that is about to use it; the last worker does not leave jobs behind; and there is a worker for them. -/
def Meets (n : Nat) (s : State) : Label → Prop
  | .worker i => s.pc i = .testEnd → s.ends i = true → s.jobs ≠ [] → ∃ j < n, j ≠ i ∧ s.pc j ≠ .done
  | .wakeUp _ => True
  | .enqueue _ _ => 0 < n
  | .destructor woken =>
    match s.dtor with
    | .clearJob i => s.pc i ≠ .run ∧ s.pc i ≠ .setCompleted
    | .signal i => s.pc i = .waiting → woken = some i
    | _ => True

@[simp] theorem goto_self (s : State) (i : Nat) (pc : Pc) : (goto s i pc).pc i = pc := update_self ..

theorem goto_of_ne {s : State} {i j : Nat} {pc : Pc} (h : j ≠ i) : (goto s i pc).pc j = s.pc j := update_of_ne h ..

instance (n : Nat) (s : State) (l : Label) : Decidable (Meets n s l) :=
  match l with
  | .worker i => inferInstanceAs (Decidable (s.pc i = .testEnd → s.ends i = true → s.jobs ≠ [] →
      ∃ j < n, j ≠ i ∧ s.pc j ≠ .done))
  | .wakeUp _ => inferInstanceAs (Decidable True)
  | .enqueue _ _ => inferInstanceAs (Decidable (0 < n))
  | .destructor woken =>
    match hd : s.dtor with
    | .clearJob i => decidable_of_iff (s.pc i ≠ .run ∧ s.pc i ≠ .setCompleted) (by simp [Meets, hd])
    | .signal i => decidable_of_iff (s.pc i = .waiting → woken = some i) (by simp [Meets, hd])
    | .alive | .setEnd _ | .join _ | .broadcast | .ended => .isTrue (by simp [Meets, hd])

/-! ## The invariant -/

def Pc.inMonitor : Pc → Bool
  | .checkEnd | .checkJobs | .testEnd | .take => true
  | _ => false

section Counts
variable (n : Nat)

/-- The number of workers with their end set. -/
def Dtor.ending : Dtor → Nat
  | .alive => 0
  | .setEnd i => i
  | .clearJob i | .signal i | .join i => i + 1
  | .broadcast | .ended => n

/-- The number of workers for which `Quit` has returned. -/
def Dtor.signalled : Dtor → Nat
  | .alive => 0
  | .setEnd i | .clearJob i | .signal i => i
  | .join i => i + 1
  | .broadcast | .ended => n

def Dtor.joined : Dtor → Nat
  | .alive => 0
  | .setEnd i | .clearJob i | .signal i | .join i => i
  | .broadcast | .ended => n

/-- The worker that the destructor is at is one of the pool. -/
def Dtor.InPool : Dtor → Prop
  | .alive | .broadcast | .ended => True
  | .setEnd i | .clearJob i | .signal i | .join i => i < n

end Counts

structure WorkerInv (n : Nat) (s : State) (i : Nat) : Prop where
  owns : (s.pc i).inMonitor = true ↔ s.owner = some i
  hasJob : s.pc i = .run ∨ s.pc i = .setCompleted → (s.job i).isSome
  take : s.pc i = .take → s.jobs ≠ []
  test : s.pc i = .testEnd → s.ends i = true ∨ s.jobs ≠ []
  left : s.pc i = .done → s.ends i = true
  ending : s.ends i = true ↔ i < s.dtor.ending n
  /-- The signal of `Quit` is not lost. -/
  signalled : i < s.dtor.signalled n → s.pc i ≠ .waiting ∧ s.pc i ≠ .checkJobs
  joined : i < s.dtor.joined n → s.pc i = .done

/-- A worker has the job in hand, and is not done with it. -/
def InHand (n : Nat) (s : State) (job : Nat) : Prop :=
  ∃ i < n, s.job i = some job ∧ (s.pc i = .run ∨ s.pc i = .setCompleted ∧ job ∈ s.executed)

structure Inv (n : Nat) (s : State) : Prop where
  workers : ∀ i < n, WorkerInv n s i
  inPool : s.dtor.InPool n
  /-- Somebody is there for the jobs. -/
  served : s.jobs ≠ [] → ∃ i < n, s.pc i ≠ .done
  defined : s.undefined = false
  tracked : ∀ job ∈ s.enqueued, job ∈ s.jobs ∨ InHand n s job ∨ (job ∈ s.executed ∧ job ∈ s.completed)

/-- What the others have in hand. -/
theorem InHand.frame {n : Nat} {s s' : State} {i job : Nat} (h : InHand n s job)
    (hfree : s.pc i ≠ .run ∧ s.pc i ≠ .setCompleted) (hpc : ∀ j, j ≠ i → s'.pc j = s.pc j)
    (hjob : ∀ j, j ≠ i → s'.job j = s.job j) (hexecuted : s'.executed = s.executed) : InHand n s' job := by
  obtain ⟨j, hj, hjob', hrun⟩ := h
  have hji : j ≠ i := by
    rintro rfl
    rcases hrun with hrun | ⟨hrun, -⟩
    · exact hfree.1 hrun
    · exact hfree.2 hrun
  refine ⟨j, hj, (hjob j hji).trans hjob', ?_⟩
  rw [hpc j hji, hexecuted]
  exact hrun

theorem Dtor.signalled_le (d : Dtor) (n : Nat) : d.signalled n ≤ d.ending n := by
  cases d <;> simp [Dtor.signalled, Dtor.ending]

variable {n : Nat} {s s' : State} {i : Nat}

/-- What the invariant gives of a safe pool. -/
theorem Inv.safe (h : Inv n s) : Safe s := by
  refine ⟨?_, h.defined, fun hended job hjob => ?_⟩
  · rintro ⟨i, hjoin, hwait⟩
    have hpool := h.inPool
    rw [hjoin] at hpool
    exact ((h.workers i hpool).signalled (by rw [hjoin]; exact Nat.lt_succ_self i)).1 hwait
  · have hdone : ∀ i < n, s.pc i = .done := fun i hi => (h.workers i hi).joined (by rw [hended]; exact hi)
    rcases h.tracked job hjob with hqueued | ⟨i, hi, -, hpc⟩ | hdone'
    · obtain ⟨i, hi, hpc⟩ := h.served (List.ne_nil_of_mem hqueued)
      exact absurd (hdone i hi) hpc
    · rw [hdone i hi] at hpc
      rcases hpc with hpc | ⟨hpc, -⟩ <;> cases hpc
    · exact hdone'

/-! ## The steps of a worker -/

/-- What another thread does leaves a worker as it was. -/
theorem WorkerInv.frame {j : Nat} (h : WorkerInv n s j) (hpc : s'.pc j = s.pc j) (hjob : s'.job j = s.job j)
    (hends : s'.ends j = s.ends j) (hdtor : s'.dtor = s.dtor) (howner : s'.owner = some j ↔ s.owner = some j)
    (hjobs : (s.pc j).inMonitor = true → s.jobs ≠ [] → s'.jobs ≠ []) : WorkerInv n s' j := by
  refine ⟨?_, ?_, ?_, ?_, ?_, ?_, ?_, ?_⟩
  · rw [hpc, howner]
    exact h.owns
  · rw [hpc, hjob]
    exact h.hasJob
  · rw [hpc]
    intro htake
    exact hjobs (by rw [htake]; rfl) (h.take htake)
  · rw [hpc, hends]
    intro htest
    exact (h.test htest).imp_right (hjobs (by rw [htest]; rfl))
  · rw [hpc, hends]
    exact h.left
  · rw [hends, hdtor]
    exact h.ending
  · rw [hpc, hdtor]
    exact h.signalled
  · rw [hpc, hdtor]
    exact h.joined

/-- A worker goes on, entering or leaving the monitor or not, with no job in hand. -/
theorem Inv.goto (h : Inv n s) (hi : i < n) {pc : Pc} {owner : Option Nat}
    (howner : ∀ j, j ≠ i → (owner = some j ↔ s.owner = some j)) (hin : pc.inMonitor = true ↔ owner = some i)
    (hfree : s.pc i ≠ .run ∧ s.pc i ≠ .setCompleted ∧ s.pc i ≠ .done) (hjob : pc ≠ .run ∧ pc ≠ .setCompleted)
    (htake : pc = .take → s.jobs ≠ []) (htest : pc = .testEnd → s.ends i = true ∨ s.jobs ≠ [])
    (hdone : pc = .done → s.ends i = true ∧ (s.jobs ≠ [] → ∃ j < n, j ≠ i ∧ s.pc j ≠ .done))
    (hwait : (pc ≠ .waiting ∧ pc ≠ .checkJobs) ∨ ¬ i < s.dtor.signalled n) :
    Inv n { ThreadPool.goto s i pc with owner } := by
  refine ⟨fun j hj => ?_, h.inPool, fun hjobs => ?_, h.defined, fun job hmem => ?_⟩
  · by_cases hji : j = i
    · subst hji
      have hj' := h.workers j hj
      have hpc : ({ ThreadPool.goto s j pc with owner } : State).pc j = pc := update_self ..
      refine ⟨?_, ?_, ?_, ?_, ?_, hj'.ending, ?_, ?_⟩
      · rw [hpc]
        exact hin
      · rw [hpc]
        rintro (hrun | hrun)
        · exact absurd hrun hjob.1
        · exact absurd hrun hjob.2
      · rw [hpc]
        exact htake
      · rw [hpc]
        exact htest
      · rw [hpc]
        exact fun hd => (hdone hd).1
      · rw [hpc]
        exact fun hsig => hwait.resolve_right (not_not.2 hsig)
      · exact fun hjoined => absurd (hj'.joined hjoined) hfree.2.2
    · exact (h.workers j hj).frame (update_of_ne hji ..) rfl rfl rfl (howner j hji) fun _ hne => hne
  · by_cases hpc : pc = .done
    · obtain ⟨j, hj, hji, hleft⟩ := (hdone hpc).2 hjobs
      exact ⟨j, hj, by simpa [ThreadPool.goto, hji] using hleft⟩
    · exact ⟨i, hi, by simpa [ThreadPool.goto] using hpc⟩
  · refine (h.tracked job hmem).imp_right (Or.imp_left fun hhand => ?_)
    exact hhand.frame ⟨hfree.1, hfree.2.1⟩ (fun j hji => update_of_ne hji ..) (fun _ _ => rfl) rfl

/-- A worker outside the monitor that does not wait. -/
theorem WorkerInv.outside (h : WorkerInv n s i) (hnot : s.pc i ≠ .done) (hin : (s'.pc i).inMonitor = false)
    (howner : s'.owner ≠ some i) (hjob : s'.pc i = .run ∨ s'.pc i = .setCompleted → (s'.job i).isSome)
    (hleft : s'.pc i ≠ .done) (hwait : s'.pc i ≠ .waiting) (hends : s'.ends i = s.ends i) (hdtor : s'.dtor = s.dtor) :
    WorkerInv n s' i := by
  refine ⟨?_, hjob, ?_, ?_, fun hd => absurd hd hleft, ?_, fun _ => ⟨hwait, ?_⟩, ?_⟩
  · rw [hin]
    exact iff_of_false Bool.false_ne_true howner
  · intro htake
    rw [htake] at hin
    cases hin
  · intro htest
    rw [htest] at hin
    cases hin
  · rw [hends, hdtor]
    exact h.ending
  · intro hcheck
    rw [hcheck] at hin
    cases hin
  · rw [hdtor]
    exact fun hjoined => absurd (h.joined hjoined) hnot

theorem Inv.owner_ne (h : Inv n s) (hi : i < n) (hout : (s.pc i).inMonitor = false) : s.owner ≠ some i := by
  rw [ne_eq, ← (h.workers i hi).owns, hout]
  exact Bool.false_ne_true

/-- The other workers are not in the monitor while one is. -/
theorem Inv.alone (h : Inv n s) (hi : i < n) (hin : (s.pc i).inMonitor = true) {j : Nat} (hj : j < n) (hji : j ≠ i) :
    s.owner = some i ∧ s.owner ≠ some j ∧ (s.pc j).inMonitor = false := by
  have howner := (h.workers i hi).owns.1 hin
  have hother : s.owner ≠ some j := by
    rw [howner]
    exact fun heq => hji (Option.some.inj heq).symm
  refine ⟨howner, hother, ?_⟩
  rw [← Bool.not_eq_true, (h.workers j hj).owns]
  exact hother

/-- A worker takes the front of the queue. -/
theorem Inv.take (h : Inv n s) (hi : i < n) (hpc : s.pc i = .take) {job : Nat} {jobs : List Nat}
    (hjobs : s.jobs = job :: jobs) :
    Inv n { ThreadPool.goto s i .run with jobs, job := update s.job i (some job), owner := none } := by
  have hin : (s.pc i).inMonitor = true := by rw [hpc]; rfl
  refine ⟨fun j hj => ?_, h.inPool, fun _ => ⟨i, hi, by simp [ThreadPool.goto]⟩, h.defined, fun job' hmem => ?_⟩
  · by_cases hji : j = i
    · subst hji
      refine (h.workers j hj).outside (by rw [hpc]; decide) ?_ nofun ?_ ?_ ?_ rfl rfl
      all_goals simp [ThreadPool.goto, Pc.inMonitor]
    · obtain ⟨-, hother, hfree⟩ := h.alone hi hin hj hji
      refine (h.workers j hj).frame (update_of_ne hji ..) (update_of_ne hji ..) rfl rfl (iff_of_false nofun hother) ?_
      rw [hfree]
      exact nofun
  · rcases h.tracked job' hmem with hqueued | hhand | hdone
    · rw [hjobs] at hqueued
      rcases List.mem_cons.1 hqueued with rfl | hrest
      · exact .inr (.inl ⟨i, hi, update_self .., .inl (update_self ..)⟩)
      · exact .inl hrest
    · exact .inr (.inl (hhand.frame (by rw [hpc]; decide) (fun j hji => update_of_ne hji ..)
        (fun j hji => update_of_ne hji ..) rfl))
    · exact .inr (.inr hdone)

theorem Inv.run (h : Inv n s) (hi : i < n) (hpc : s.pc i = .run) {job : Nat} (hjob : s.job i = some job) :
    Inv n { ThreadPool.goto s i .setCompleted with executed := s.executed ++ [job] } := by
  have howner := h.owner_ne hi (by rw [hpc]; rfl)
  refine ⟨fun j hj => ?_, h.inPool, fun _ => ⟨i, hi, by simp [ThreadPool.goto]⟩, h.defined, fun job' hmem => ?_⟩
  · by_cases hji : j = i
    · subst hji
      refine (h.workers j hj).outside (by rw [hpc]; decide) ?_ howner (fun _ => ?_) ?_ ?_ rfl rfl
      · simp [ThreadPool.goto, Pc.inMonitor]
      · exact hjob ▸ rfl
      · simp [ThreadPool.goto]
      · simp [ThreadPool.goto]
    · exact (h.workers j hj).frame (update_of_ne hji ..) rfl rfl rfl Iff.rfl fun _ hne => hne
  · rcases h.tracked job' hmem with hqueued | ⟨j, hj, hjob', hrun⟩ | ⟨hex, hco⟩
    · exact .inl hqueued
    · refine .inr (.inl ⟨j, hj, hjob', ?_⟩)
      by_cases hji : j = i
      · subst hji
        obtain rfl := Option.some.inj (hjob.symm.trans hjob')
        exact .inr ⟨update_self .., List.mem_append_right _ (List.mem_singleton_self _)⟩
      · have hpc' : (ThreadPool.goto s i .setCompleted).pc j = s.pc j := update_of_ne hji ..
        exact hrun.imp (hpc'.trans ·) fun ⟨hset, hex⟩ => ⟨hpc'.trans hset, List.mem_append_left _ hex⟩
    · exact .inr (.inr ⟨List.mem_append_left _ hex, hco⟩)

theorem Inv.setCompleted (h : Inv n s) (hi : i < n) (hpc : s.pc i = .setCompleted) {job : Nat}
    (hjob : s.job i = some job) : Inv n { ThreadPool.goto s i .clear with completed := s.completed ++ [job] } := by
  have howner := h.owner_ne hi (by rw [hpc]; rfl)
  refine ⟨fun j hj => ?_, h.inPool, fun _ => ⟨i, hi, by simp [ThreadPool.goto]⟩, h.defined, fun job' hmem => ?_⟩
  · by_cases hji : j = i
    · subst hji
      refine (h.workers j hj).outside (by rw [hpc]; decide) ?_ howner ?_ ?_ ?_ rfl rfl
      all_goals simp [ThreadPool.goto, Pc.inMonitor]
    · exact (h.workers j hj).frame (update_of_ne hji ..) rfl rfl rfl Iff.rfl fun _ hne => hne
  · rcases h.tracked job' hmem with hqueued | ⟨j, hj, hjob', hrun⟩ | ⟨hex, hco⟩
    · exact .inl hqueued
    · by_cases hji : j = i
      · subst hji
        obtain rfl := Option.some.inj (hjob.symm.trans hjob')
        rw [hpc] at hrun
        obtain hrun | ⟨-, hex⟩ := hrun
        · cases hrun
        · exact .inr (.inr ⟨hex, List.mem_append_right _ (List.mem_singleton_self _)⟩)
      · refine .inr (.inl ⟨j, hj, hjob', ?_⟩)
        have hpc' : (ThreadPool.goto s i .clear).pc j = s.pc j := update_of_ne hji ..
        exact hrun.imp (hpc'.trans ·) fun ⟨hset, hex⟩ => ⟨hpc'.trans hset, hex⟩
    · exact .inr (.inr ⟨hex, List.mem_append_left _ hco⟩)

theorem Inv.clear (h : Inv n s) (hi : i < n) (hpc : s.pc i = .clear) :
    Inv n { ThreadPool.goto s i .enter with job := update s.job i none } := by
  have howner := h.owner_ne hi (by rw [hpc]; rfl)
  refine ⟨fun j hj => ?_, h.inPool, fun _ => ⟨i, hi, by simp [ThreadPool.goto]⟩, h.defined, fun job' hmem => ?_⟩
  · by_cases hji : j = i
    · subst hji
      refine (h.workers j hj).outside (by rw [hpc]; decide) ?_ howner ?_ ?_ ?_ rfl rfl
      all_goals simp [ThreadPool.goto, Pc.inMonitor]
    · exact (h.workers j hj).frame (update_of_ne hji ..) (update_of_ne hji ..) rfl rfl Iff.rfl fun _ hne => hne
  · refine (h.tracked job' hmem).imp_right (Or.imp_left fun hhand => ?_)
    exact hhand.frame (by rw [hpc]; decide) (fun j hji => update_of_ne hji ..) (fun j hji => update_of_ne hji ..) rfl

theorem Inv.enter (h : Inv n s) (hi : i < n) (hpc : s.pc i = .enter ∨ s.pc i = .woken) (howner : s.owner = none) :
    Inv n { ThreadPool.goto s i .checkEnd with owner := some i } := by
  refine h.goto hi (fun j hji => ?_) (iff_of_true rfl rfl) ?_ (by decide) nofun nofun nofun (.inl (by decide))
  · rw [howner]
    exact iff_of_false (fun heq => hji (Option.some.inj heq).symm) nofun
  · rcases hpc with hpc | hpc <;> rw [hpc] <;> decide

theorem Inv.checkEnd (h : Inv n s) (hi : i < n) (hpc : s.pc i = .checkEnd) :
    Inv n (ThreadPool.goto s i (if s.ends i then .testEnd else .checkJobs)) := by
  have howner : s.owner = some i := (h.workers i hi).owns.1 (by rw [hpc]; rfl)
  have hfree : s.pc i ≠ .run ∧ s.pc i ≠ .setCompleted ∧ s.pc i ≠ .done := by
    rw [hpc]
    decide
  cases hend : s.ends i with
  | true =>
    exact h.goto hi (fun _ _ => Iff.rfl) (iff_of_true rfl howner) hfree (by decide) nofun (fun _ => .inl hend) nofun
      (.inl (by decide))
  | false =>
    refine h.goto hi (fun _ _ => Iff.rfl) (iff_of_true rfl howner) hfree (by decide) nofun nofun nofun
      (.inr fun hsig => ?_)
    -- its end would be set before the signal
    have hset := (h.workers i hi).ending.2 (Nat.lt_of_lt_of_le hsig (s.dtor.signalled_le n))
    rw [hend] at hset
    cases hset

theorem Inv.checkJobs (h : Inv n s) (hi : i < n) (hpc : s.pc i = .checkJobs) :
    Inv n (if s.jobs = [] then { ThreadPool.goto s i .waiting with owner := none } else ThreadPool.goto s i .testEnd) := by
  have howner : s.owner = some i := (h.workers i hi).owns.1 (by rw [hpc]; rfl)
  have hfree : s.pc i ≠ .run ∧ s.pc i ≠ .setCompleted ∧ s.pc i ≠ .done := by
    rw [hpc]
    decide
  split
  · refine h.goto hi (fun j hji => ?_) (iff_of_false Bool.false_ne_true nofun) hfree (by decide) nofun nofun nofun
      (.inr fun hsig => ((h.workers i hi).signalled hsig).2 hpc)
    rw [howner]
    exact iff_of_false nofun fun heq => hji (Option.some.inj heq).symm
  · next hjobs =>
    exact h.goto hi (fun _ _ => Iff.rfl) (iff_of_true rfl howner) hfree (by decide) nofun (fun _ => .inr hjobs) nofun
      (.inl (by decide))

theorem Inv.testEnd (h : Inv n s) (hi : i < n) (hpc : s.pc i = .testEnd)
    (hleave : s.ends i = true → s.jobs ≠ [] → ∃ j < n, j ≠ i ∧ s.pc j ≠ .done) :
    Inv n (if s.ends i then { ThreadPool.goto s i .done with owner := none } else ThreadPool.goto s i .take) := by
  have howner : s.owner = some i := (h.workers i hi).owns.1 (by rw [hpc]; rfl)
  have hfree : s.pc i ≠ .run ∧ s.pc i ≠ .setCompleted ∧ s.pc i ≠ .done := by
    rw [hpc]
    decide
  split
  · next hend =>
    refine h.goto hi (fun j hji => ?_) (iff_of_false Bool.false_ne_true nofun) hfree (by decide) nofun nofun
      (fun _ => ⟨hend, hleave hend⟩) (.inl (by decide))
    rw [howner]
    exact iff_of_false nofun fun heq => hji (Option.some.inj heq).symm
  · next hend =>
    exact h.goto hi (fun _ _ => Iff.rfl) (iff_of_true rfl howner) hfree (by decide)
      (fun _ => ((h.workers i hi).test hpc).resolve_left hend) nofun nofun (.inl (by decide))

theorem workerStep_inv (h : Inv n s) (hi : i < n) (hmeets : Meets n s (.worker i)) (hs : workerStep s i = some s') :
    Inv n s' := by
  have hw := h.workers i hi
  unfold workerStep at hs
  cases hpc : s.pc i with
  | enter =>
    simp only [hpc, Option.ite_none_right_eq_some, Option.some.injEq] at hs
    obtain ⟨hfree, rfl⟩ := hs
    exact h.enter hi (.inl hpc) hfree
  | woken =>
    simp only [hpc, Option.ite_none_right_eq_some, Option.some.injEq] at hs
    obtain ⟨hfree, rfl⟩ := hs
    exact h.enter hi (.inr hpc) hfree
  | checkEnd =>
    simp only [hpc, Option.some.injEq] at hs
    exact hs ▸ h.checkEnd hi hpc
  | checkJobs =>
    simp only [hpc, Option.some.injEq] at hs
    exact hs ▸ h.checkJobs hi hpc
  | waiting => simp only [hpc, reduceCtorEq] at hs
  | testEnd =>
    simp only [hpc, Option.some.injEq] at hs
    exact hs ▸ h.testEnd hi hpc (hmeets hpc)
  | take =>
    cases hjobs : s.jobs with
    | nil => exact absurd hjobs (hw.take hpc)
    | cons job jobs =>
      simp only [hpc, hjobs, Option.some.injEq] at hs
      exact hs ▸ h.take hi hpc hjobs
  | run =>
    obtain ⟨job, hjob⟩ := Option.isSome_iff_exists.1 (hw.hasJob (.inl hpc))
    simp only [hpc, hjob, Option.some.injEq] at hs
    exact hs ▸ h.run hi hpc hjob
  | setCompleted =>
    obtain ⟨job, hjob⟩ := Option.isSome_iff_exists.1 (hw.hasJob (.inr hpc))
    simp only [hpc, hjob, Option.some.injEq] at hs
    exact hs ▸ h.setCompleted hi hpc hjob
  | clear =>
    simp only [hpc, Option.some.injEq] at hs
    exact hs ▸ h.clear hi hpc
  | done => simp only [hpc, reduceCtorEq] at hs

/-! ## The steps of the others -/

/-- A worker that waited is woken. -/
theorem Inv.wakeUp (h : Inv n s) (hi : i < n) (hpc : s.pc i = .waiting) : Inv n (ThreadPool.goto s i .woken) := by
  have howner := h.owner_ne hi (by rw [hpc]; rfl)
  refine h.goto hi (fun _ _ => Iff.rfl) (iff_of_false Bool.false_ne_true howner) ?_ (by decide) nofun nofun nofun
    (.inl (by decide))
  rw [hpc]
  decide

theorem Inv.wake (h : Inv n s) {woken : Option Nat} (hwake : canWake n s woken = true) : Inv n (ThreadPool.wake s woken) := by
  cases woken with
  | none => exact h
  | some i =>
    simp only [canWake, Bool.and_eq_true, decide_eq_true_eq, beq_iff_eq] at hwake
    exact h.wakeUp hwake.1 hwake.2

/-- Who waits after a signal did so before, and is not the one that was woken. -/
theorem wake_waiting {woken : Option Nat} {j : Nat} (h : (ThreadPool.wake s woken).pc j = .waiting) :
    s.pc j = .waiting ∧ woken ≠ some j := by
  cases woken with
  | none => exact ⟨h, nofun⟩
  | some i =>
    by_cases hji : j = i
    · subst hji
      rw [ThreadPool.wake, goto_self] at h
      cases h
    · rw [ThreadPool.wake, goto_of_ne hji] at h
      exact ⟨h, fun heq => hji (Option.some.inj heq).symm⟩

theorem Inv.enqueue (h : Inv n s) (hn : 0 < n) (halive : s.dtor = .alive) (job : Nat) :
    Inv n { s with jobs := s.jobs ++ [job], enqueued := s.enqueued ++ [job] } := by
  refine ⟨fun j hj => ?_, h.inPool, fun _ => ⟨0, hn, fun hdone => ?_⟩, h.defined, fun job' hmem => ?_⟩
  · exact (h.workers j hj).frame rfl rfl rfl rfl Iff.rfl fun _ _ => by simp
  · have hend := (h.workers 0 hn).ending.1 ((h.workers 0 hn).left hdone)
    rw [halive] at hend
    exact Nat.not_lt_zero 0 hend
  · rcases List.mem_append.1 hmem with hmem | hnew
    · exact (h.tracked job' hmem).imp_left (List.mem_append_left _)
    · exact .inl (List.mem_append_right _ hnew)

/-- The loop goes on with a worker of the pool, or all are joined. -/
theorem quitFrom_counts (hi : i ≤ n) : (quitFrom n i).InPool n ∧ (quitFrom n i).ending n = i ∧
    (quitFrom n i).signalled n = i ∧ (quitFrom n i).joined n = i := by
  unfold quitFrom
  split
  · next hlt => exact ⟨hlt, rfl, rfl, rfl⟩
  · next hge =>
    obtain rfl : n = i := by omega
    exact ⟨trivial, rfl, rfl, rfl⟩

/-- The destructor goes on in its program: the flags and counts are as they should be there. -/
theorem WorkerInv.dtor {j : Nat} (h : WorkerInv n s j) (d : Dtor) (hending : j < s.dtor.ending n ↔ j < d.ending n)
    (hsignalled : j < d.signalled n → s.pc j ≠ .waiting ∧ s.pc j ≠ .checkJobs)
    (hjoined : j < d.joined n → s.pc j = .done) : WorkerInv n { s with dtor := d } j :=
  ⟨h.owns, h.hasJob, h.take, h.test, h.left, h.ending.trans hending, hsignalled, hjoined⟩

theorem Inv.dtor (h : Inv n s) (d : Dtor) (hpool : d.InPool n) (hending : s.dtor.ending n = d.ending n)
    (hsignalled : ∀ j < d.signalled n, s.pc j ≠ .waiting ∧ s.pc j ≠ .checkJobs)
    (hjoined : ∀ j < d.joined n, s.pc j = .done) : Inv n { s with dtor := d } :=
  ⟨fun j hj => (h.workers j hj).dtor d (by rw [hending]) (hsignalled j) (hjoined j), hpool, h.served, h.defined,
    h.tracked⟩

theorem Inv.setEnd {k : Nat} (h : Inv n s) (hd : s.dtor = .setEnd k) :
    Inv n { s with ends := update s.ends k true, dtor := .clearJob k } := by
  have hpool := h.inPool
  rw [hd] at hpool
  refine ⟨fun j hj => ?_, hpool, h.served, h.defined, h.tracked⟩
  have hw := h.workers j hj
  -- No flag is taken back.
  have hmono : s.ends j = true → update s.ends k true j = true := by
    intro hend
    by_cases hjk : j = k
    · rw [hjk, update_self]
    · rwa [update_of_ne hjk]
  refine ⟨hw.owns, hw.hasJob, hw.take, fun htest => (hw.test htest).imp_left hmono, fun hleft => hmono (hw.left hleft),
    ?_, ?_, ?_⟩
  · have hending := hw.ending
    rw [hd] at hending
    by_cases hjk : j = k
    · subst hjk
      exact iff_of_true (update_self ..) (Nat.lt_succ_self j)
    · show update s.ends k true j = true ↔ j < k + 1
      rw [update_of_ne hjk, hending]
      exact (Nat.lt_succ_iff_lt_or_eq.trans (or_iff_left hjk)).symm
  · have hsignalled := hw.signalled
    rwa [hd] at hsignalled
  · have hjoined := hw.joined
    rwa [hd] at hjoined

theorem Inv.clearJob {k : Nat} (h : Inv n s) (hd : s.dtor = .clearJob k) (hfree : s.pc k ≠ .run ∧ s.pc k ≠ .setCompleted) :
    Inv n { s with job := update s.job k none, dtor := .signal k } := by
  have hcleared : Inv n { s with job := update s.job k none } := by
    refine ⟨fun j hj => ?_, h.inPool, h.served, h.defined, fun job hmem => ?_⟩
    · by_cases hjk : j = k
      · subst hjk
        have hw := h.workers j hj
        refine ⟨hw.owns, ?_, hw.take, hw.test, hw.left, hw.ending, hw.signalled, hw.joined⟩
        rintro (hrun | hrun)
        · exact absurd hrun hfree.1
        · exact absurd hrun hfree.2
      · exact (h.workers j hj).frame rfl (update_of_ne hjk ..) rfl rfl Iff.rfl fun _ hne => hne
    · refine (h.tracked job hmem).imp_right (Or.imp_left fun hhand => ?_)
      exact hhand.frame hfree (fun _ _ => rfl) (fun j hjk => update_of_ne hjk ..) rfl
  have hpool := h.inPool
  rw [hd] at hpool
  refine hcleared.dtor _ hpool ?_ (fun j hj => ?_) fun j hj => ?_
  · show s.dtor.ending n = _
    rw [hd]
    rfl
  · exact (h.workers j (Nat.lt_trans hj hpool)).signalled (by rw [hd]; exact hj)
  · exact (h.workers j (Nat.lt_trans hj hpool)).joined (by rw [hd]; exact hj)

/-- The worker that quits is not in the monitor, and does not wait after the signal. -/
theorem Inv.signal {k : Nat} {woken : Option Nat} (h : Inv n s) (hd : s.dtor = .signal k) (hfree : s.owner = none)
    (hwake : canWake n s woken = true) (hmeets : s.pc k = .waiting → woken = some k) :
    Inv n { ThreadPool.wake s woken with dtor := .join k } := by
  have hpool := h.inPool
  rw [hd] at hpool
  have hdtor : (ThreadPool.wake s woken).dtor = .signal k := by
    cases woken <;> exact hd
  have howner : (ThreadPool.wake s woken).owner = none := by
    cases woken <;> exact hfree
  have hw := h.wake hwake
  refine hw.dtor _ hpool ?_ (fun j hj => ?_) fun j hj => ?_
  · rw [hdtor]
    rfl
  · have hjn : j < n := Nat.lt_of_lt_of_le hj hpool
    -- The worker that quits is awake, and one in its monitor would own it.
    refine ⟨fun hwait => ?_, fun hcheck => ?_⟩
    · obtain ⟨hwaited, hnot⟩ := wake_waiting hwait
      rcases Nat.lt_succ_iff_lt_or_eq.1 hj with hlt | rfl
      · exact ((h.workers j hjn).signalled (by rw [hd]; exact hlt)).1 hwaited
      · exact hnot (hmeets hwaited)
    · have hown := (hw.workers j hjn).owns.1 (by rw [hcheck]; rfl)
      rw [howner] at hown
      cases hown
  · exact (hw.workers j (Nat.lt_trans hj hpool)).joined (by rw [hdtor]; exact hj)

theorem Inv.join {k : Nat} (h : Inv n s) (hd : s.dtor = .join k) (hdone : s.pc k = .done) :
    Inv n { s with dtor := quitFrom n (k + 1) } := by
  have hpool := h.inPool
  rw [hd] at hpool
  obtain ⟨h1, h2, h3, h4⟩ := quitFrom_counts (Nat.succ_le_of_lt hpool)
  refine h.dtor _ h1 ?_ (fun j hj => ?_) fun j hj => ?_
  · rw [hd, h2]
    rfl
  · rw [h3] at hj
    exact (h.workers j (Nat.lt_of_lt_of_le hj hpool)).signalled (by rw [hd]; exact hj)
  · rw [h4] at hj
    rcases Nat.lt_succ_iff_lt_or_eq.1 hj with hlt | rfl
    · exact (h.workers j (Nat.lt_trans hlt hpool)).joined (by rw [hd]; exact hlt)
    · exact hdone

theorem Inv.broadcast (h : Inv n s) (hd : s.dtor = .broadcast) :
    Inv n { s with pc := fun i => if s.pc i = .waiting then .woken else s.pc i, dtor := .ended } := by
  have hdone : ∀ j < n, s.pc j = .done := fun j hj => (h.workers j hj).joined (by rw [hd]; exact hj)
  -- nobody is left to be woken
  have hpc : ∀ j < n, (if s.pc j = .waiting then .woken else s.pc j) = s.pc j := by
    intro j hj
    rw [hdone j hj]
    rfl
  have hwoken : Inv n { s with pc := fun i => if s.pc i = .waiting then .woken else s.pc i } := by
    refine ⟨fun j hj => ?_, h.inPool, fun hjobs => ?_, h.defined, fun job hmem => ?_⟩
    · exact (h.workers j hj).frame (hpc j hj) rfl rfl rfl Iff.rfl fun _ hne => hne
    · obtain ⟨j, hj, hleft⟩ := h.served hjobs
      exact absurd (hdone j hj) hleft
    · refine (h.tracked job hmem).imp_right (Or.imp_left ?_)
      rintro ⟨j, hj, hjob, hrun⟩
      refine ⟨j, hj, hjob, ?_⟩
      dsimp only
      rw [hpc j hj]
      exact hrun
  -- All workers are done, which the invariant of the destructor asks for.
  refine hwoken.dtor _ trivial ?_ (fun j hj => ?_) fun j hj => ?_
  · show s.dtor.ending n = _
    rw [hd]
    rfl
  · exact (hwoken.workers j hj).signalled (by rw [hd]; exact hj)
  · exact (hwoken.workers j hj).joined (by rw [hd]; exact hj)

theorem dtorStep_inv (h : Inv n s) {woken : Option Nat} (hmeets : Meets n s (.destructor woken))
    (hs : dtorStep n s woken = some s') : Inv n s' := by
  have hpool := h.inPool
  unfold dtorStep at hs
  unfold Meets at hmeets
  cases hd : s.dtor with
  | alive =>
    simp only [hd, Option.some.injEq] at hs
    obtain ⟨h1, h2, h3, h4⟩ := quitFrom_counts (Nat.zero_le n)
    rw [← hs]
    refine h.dtor _ h1 ?_ ?_ ?_
    · rw [hd, h2]
      rfl
    · rw [h3]
      exact nofun
    · rw [h4]
      exact nofun
  | setEnd k =>
    simp only [hd, Option.some.injEq] at hs
    rw [hd] at hpool
    exact hs ▸ h.setEnd hd
  | clearJob k =>
    simp only [hd, Option.some.injEq] at hs
    simp only [hd] at hmeets
    exact hs ▸ h.clearJob hd hmeets
  | signal k =>
    simp only [hd, Option.ite_none_right_eq_some, Option.some.injEq] at hs
    simp only [hd] at hmeets
    obtain ⟨⟨hfree, hwake⟩, rfl⟩ := hs
    exact h.signal hd hfree hwake hmeets
  | join k =>
    simp only [hd, Option.ite_none_right_eq_some, Option.some.injEq] at hs
    exact hs.2 ▸ h.join hd hs.1
  | broadcast =>
    simp only [hd, Option.some.injEq] at hs
    exact hs ▸ h.broadcast hd
  | ended => simp only [hd, reduceCtorEq] at hs

theorem step_inv {l : Label} (h : Inv n s) (hmeets : Meets n s l) (hs : step n s l = some s') : Inv n s' := by
  unfold step at hs
  cases l with
  | worker i =>
    simp only [Option.ite_none_right_eq_some] at hs
    exact workerStep_inv h hs.1 hmeets hs.2
  | wakeUp i =>
    simp only [Option.ite_none_right_eq_some, Option.some.injEq] at hs
    exact hs.2 ▸ h.wakeUp hs.1.1 hs.1.2
  | enqueue job woken =>
    simp only [Option.ite_none_right_eq_some, Option.some.injEq] at hs
    obtain ⟨⟨halive, -, hwake⟩, rfl⟩ := hs
    have hw := h.wake hwake
    cases woken with
    | none => exact hw.enqueue hmeets halive job
    | some i => exact hw.enqueue hmeets halive job
  | destructor woken => exact dtorStep_inv h hmeets hs

theorem init_inv (n : Nat) : Inv n {} := by
  refine ⟨fun i _ => ⟨?_, ?_, nofun, nofun, nofun, ?_, nofun, nofun⟩, trivial, fun h => absurd rfl h, rfl, nofun⟩
  · exact iff_of_false Bool.false_ne_true nofun
  · rintro (h | h) <;> cases h
  · exact iff_of_false Bool.false_ne_true (Nat.not_lt_zero i)

theorem inv_invariant (n : Nat) : Invariant ((system n).meeting (Meets n)) (Inv n) where
  init s hi := by
    obtain rfl := hi
    exact init_inv n
  step _ _ _ h hs := step_inv h hs.1 hs.2

/-- In runs that meet the conditions, for any number of workers and jobs, the destructor is never blocked, and leaves no
job behind. -/
theorem shutdown_safe (n : Nat) (s : State) (hr : Reachable ((system n).meeting (Meets n)) s) : Safe s :=
  ((inv_invariant n).reachable hr).safe

/-! ## Pools of one and two workers -/

/-- A step, if it meets the conditions. -/
def stepMeeting (n : Nat) (s : State) (l : Label) : Option State := if Meets n s l then step n s l else none

theorem stepMeeting_step (n : Nat) (s : State) (l : Label) (s' : State) (h : stepMeeting n s l = some s') :
    ((system n).meeting (Meets n)).step s l s' := by
  unfold stepMeeting at h
  simp only [Option.ite_none_right_eq_some] at h
  exact h

/-- The pool after a run from the start. -/
def after (step : State → Label → Option State) (ls : List Label) : State := (ls.foldlM step {}).getD {}

/-- A worker does a job and waits, and the destructor's signal wakes it. -/
def jobDone : List Label :=
  [.enqueue 7 none] ++ List.replicate 11 (.worker 0) ++ List.replicate 3 (.destructor none) ++ [.destructor (some 0)] ++
    List.replicate 3 (.worker 0) ++ List.replicate 2 (.destructor none)

theorem shutdown_safe_one : ∃ s, Reachable ((system 1).meeting (Meets 1)) s ∧ s.dtor = .ended ∧ s.enqueued = [7] ∧
    Safe s := by
  have hr : Reachable ((system 1).meeting (Meets 1)) (after (stepMeeting 1) jobDone) :=
    .getD_foldlM (stepMeeting_step 1) rfl rfl
  exact ⟨_, hr, rfl, rfl, shutdown_safe 1 _ hr⟩

/-- Two workers wait; the signal for the first wakes the second. -/
def wrongWorker : List Label :=
  List.replicate 3 (.worker 0) ++ List.replicate 3 (.worker 1) ++ List.replicate 3 (.destructor none) ++
    [.destructor (some 1)]

/-- The only worker sees its end before the job that was enqueued. -/
def jobLeft : List Label :=
  [.enqueue 7 none] ++ List.replicate 2 (.destructor none) ++ List.replicate 3 (.worker 0) ++
    List.replicate 4 (.destructor none)

/-- The destructor joins a worker that waits, or ends with a job that was never executed. -/
theorem shutdown_unsafe : (∃ s, Reachable (system 2) s ∧ Blocked s) ∧
    ∃ s, Reachable (system 1) s ∧ s.dtor = .ended ∧ s.enqueued = [7] ∧ s.executed = [] :=
  ⟨⟨after (step 2) wrongWorker, .getD_foldlM (fun _ _ _ => id) rfl rfl, 0, rfl, rfl⟩,
    after (step 1) jobLeft, .getD_foldlM (fun _ _ _ => id) rfl rfl, rfl, rfl, rfl⟩

end OpenCRun.ThreadPool
