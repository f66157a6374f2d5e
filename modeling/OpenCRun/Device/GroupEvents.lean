import Mathlib.Data.List.Nodup
import OpenCRun.Device.ThreadPool
/-!
# Waiting for the copies of a work-group

`AsyncInternalCalls.cpp`: the first work-item of a work-group creates jobs for
the pool, keeps them in events, waits for the jobs of events, and deletes them.
What a thread does in a monitor is one step, and so is what a worker of the pool
does between two accesses to what the threads share. The other work-items have
no part in it: they go to the barrier.
-/
open Lib.Runs Function

namespace OpenCRun.GroupEvents

/-- Where the first work-item is with the job that it awaits. -/
inductive Phase where
  /-- Before the monitor of the job. -/
  | check
  | waiting
  /-- Woken in `Wait`, and to enter the monitor again. -/
  | woken
  | delete
  deriving DecidableEq, Repr

/-- Where the first work-item of a work-group is. In `WaitGroupEvents` it has the jobs of the listed events, and the rest
of them that it is not done with. -/
inductive Item where
  | kernel
  | waits (phase : Phase) (listed rest : List Nat)
  | barrier (listed : List Nat)
  | ended
  deriving DecidableEq, Repr

/-- The work-groups that run, and the pool. Jobs and events are numbered as they are created; the last lists are histories. -/
structure State where
  pool : ThreadPool.State := {}
  created : Nat := 0
  events : Nat := 0
  /-- The work-group that has created an event. -/
  owner : Nat → Nat := fun _ => 0
  /-- `async_copies` -/
  copies : Nat → List Nat := fun _ => []
  items : Nat → Item := fun _ => .kernel
  waited : List Nat := []
  awaited : List Nat := []
  deleted : List Nat := []
  passed : List (List Nat) := []
  /-- A job was used that had been deleted. -/
  undefined : Bool := false

inductive Label where
  /-- `AsyncWorkGroupCopy` or `AsyncWorkGroupStridedCopy`, with the worker that is woken. -/
  | copy (t : Nat) (event : Option Nat) (woken : Option Nat)
  | wait (t : Nat) (eventList : List Nat)
  /-- The next step of a work-item that waits. -/
  | item (t : Nat)
  /-- A wait that returns without a signal. -/
  | wakeUp (t : Nat)
  | worker (i : Nat)
  | workerWakeUp (i : Nat)
  | finish (t : Nat)
  deriving DecidableEq, Repr

/-- `Broadcast` in the monitor of a job. -/
def Item.broadcast (job : Nat) : Item → Item
  | .waits .waiting listed (j :: rest) => .waits (if j = job then .woken else .waiting) listed (j :: rest)
  | item => item

section Steps
variable (n : Nat) (s : State)

def goto (t : Nat) (item : Item) : State := { s with items := update s.items t item }

/-- The job goes to an event, and to the pool. -/
def copy (t : Nat) (event : Option Nat) (woken : Option Nat) : Option State :=
  (ThreadPool.step n s.pool (.enqueue s.created woken)).bind fun pool =>
    match event with
    | some e =>
      if e < s.events ∧ s.owner e = t then
        some { s with pool, created := s.created + 1, copies := update s.copies e (s.copies e ++ [s.created]) }
      else none
    | none => some { s with
        pool
        created := s.created + 1
        events := s.events + 1
        owner := update s.owner s.events t
        copies := update s.copies s.events [s.created] }

def wait (t : Nat) (eventList : List Nat) : Option State :=
  if ∀ e ∈ eventList, e < s.events ∧ s.owner e = t then
    if eventList = [] then some s
    else
      let jobs := eventList.flatMap s.copies
      some { goto s t (.waits .check jobs jobs) with waited := s.waited ++ eventList }
  else none

/-- The next step of a work-item, unless it waits for a signal. -/
def itemStep (t : Nat) : Option State :=
  match s.items t with
  | .waits .check listed [] => some (goto s t (.barrier listed))
  | .waits .check listed (j :: rest) =>
    if j ∈ s.deleted then some { s with undefined := true }
    else if j ∈ s.pool.completed then some { goto s t (.waits .delete listed (j :: rest)) with awaited := s.awaited ++ [j] }
    else some (goto s t (.waits .waiting listed (j :: rest)))
  -- Whether the job is completed is not looked at again.
  | .waits .woken listed (j :: rest) => some { goto s t (.waits .delete listed (j :: rest)) with awaited := s.awaited ++ [j] }
  | .waits .delete listed (j :: rest) => some { goto s t (.waits .check listed rest) with deleted := s.deleted ++ [j] }
  | .barrier listed => some { goto s t .kernel with passed := s.passed ++ [listed] }
  | _ => none

/-- The job that a worker runs, or that it sets completed. -/
def inHand (p : ThreadPool.State) (i : Nat) : Option Nat :=
  if p.pc i = .run ∨ p.pc i = .setCompleted then p.job i else none

def workerStep (i : Nat) : Option State :=
  (ThreadPool.step n s.pool (.worker i)).map fun pool => { s with
    pool
    items := if s.pool.pc i = .setCompleted then fun t => (s.items t).broadcast ((s.pool.job i).getD 0) else s.items
    undefined := s.undefined || (inHand s.pool i).any fun j => decide (j ∈ s.deleted) }

def step : Label → Option State
  | .copy t event woken => if s.items t = .kernel then copy n s t event woken else none
  | .wait t eventList => if s.items t = .kernel then wait s t eventList else none
  | .item t => itemStep s t
  | .wakeUp t =>
    match s.items t with
    | .waits .waiting listed rest => some (goto s t (.waits .woken listed rest))
    | _ => none
  | .worker i => workerStep n s i
  | .workerWakeUp i => (ThreadPool.step n s.pool (.wakeUp i)).map fun pool => { s with pool }
  | .finish t => if s.items t = .kernel then some (goto s t .ended) else none

end Steps

/-- As many workers as there are cores: one, and `n` more. -/
def system (n : Nat) : System State Label where
  init s := s = {}
  step s l s' := step (n + 1) s l = some s'

/-- A job has been run, awaited and deleted. -/
structure Once (s : State) (j : Nat) : Prop where
  executed : s.pool.executed.count j = 1
  awaited : s.awaited.count j = 1
  deleted : s.deleted.count j = 1

/-- No job is used that is deleted, or run, awaited or deleted again. All copies of the events that were waited for are
completed, and when a work-group ends that holds of all of its copies. -/
structure Safe (s : State) : Prop where
  defined : s.undefined = false ∧ s.pool.undefined = false
  again : ∀ j, s.pool.executed.count j ≤ 1 ∧ s.awaited.count j ≤ 1 ∧ s.deleted.count j ≤ 1
  passed : ∀ listed ∈ s.passed, ∀ j ∈ listed, j ∈ s.pool.completed ∧ Once s j
  ended : ∀ t, s.items t = .ended → ∀ e < s.events, s.owner e = t → ∀ j ∈ s.copies e, Once s j

/-- What a step must meet: no wait returns without a signal; an event is listed once, with all its copies; and before a
work-group ends it has waited for its events. -/
def Meets (s : State) : Label → Prop
  | .copy _ (some e) _ => e ∉ s.waited
  | .wait _ eventList => eventList.Nodup ∧ ∀ e ∈ eventList, e ∉ s.waited
  | .wakeUp _ => False
  | .finish t => ∀ e < s.events, s.owner e = t → e ∈ s.waited
  | _ => True

/-! ## Jobs in the pool -/

section Pool
variable {n : Nat} {p p' : ThreadPool.State} {i : Nat}

def Holds (p : ThreadPool.State) (i j : Nat) : Prop := p.job i = some j ∧ (p.pc i = .run ∨ p.pc i = .setCompleted)

/-- What a step of a worker does to the jobs. -/
inductive Handles (p : ThreadPool.State) (i : Nat) (p' : ThreadPool.State) : Prop
  | nothing (hjobs : p'.jobs = p.jobs) (hexecuted : p'.executed = p.executed) (hcompleted : p'.completed = p.completed)
      (hbefore : p.pc i ≠ .run ∧ p.pc i ≠ .setCompleted) (hafter : p'.pc i ≠ .run ∧ p'.pc i ≠ .setCompleted)
  | take (job : Nat) (hjobs : p.jobs = job :: p'.jobs) (hexecuted : p'.executed = p.executed)
      (hcompleted : p'.completed = p.completed) (hbefore : p.pc i = .take) (hafter : p'.pc i = .run ∧ p'.job i = some job)
  | run (job : Nat) (hjobs : p'.jobs = p.jobs) (hexecuted : p'.executed = p.executed ++ [job])
      (hcompleted : p'.completed = p.completed) (hbefore : p.pc i = .run ∧ p.job i = some job)
      (hafter : p'.pc i = .setCompleted ∧ p'.job i = some job)
  | setCompleted (job : Nat) (hjobs : p'.jobs = p.jobs) (hexecuted : p'.executed = p.executed)
      (hcompleted : p'.completed = p.completed ++ [job]) (hbefore : p.pc i = .setCompleted ∧ p.job i = some job)
      (hafter : p'.pc i = .clear)

/-- The others stay as they are, and so does the destructor. -/
structure Apart (p : ThreadPool.State) (i : Nat) (p' : ThreadPool.State) : Prop where
  pc : ∀ k, k ≠ i → p'.pc k = p.pc k
  job : ∀ k, k ≠ i → p'.job k = p.job k
  dtor : p'.dtor = p.dtor

/-- A worker goes on without a job in hand. -/
theorem handles_nothing {pc : ThreadPool.Pc} {owner : Option Nat} {job : Nat → Option Nat} (hjob : ∀ k, k ≠ i → job k = p.job k)
    (hbefore : p.pc i ≠ .run ∧ p.pc i ≠ .setCompleted) (hafter : pc ≠ .run ∧ pc ≠ .setCompleted) :
    Apart p i { ThreadPool.goto p i pc with owner, job } ∧ Handles p i { ThreadPool.goto p i pc with owner, job } := by
  have hpc : ({ ThreadPool.goto p i pc with owner, job } : ThreadPool.State).pc i = pc := update_self ..
  refine ⟨⟨fun k hk => update_of_ne hk .., hjob, rfl⟩, .nothing rfl rfl rfl hbefore ?_⟩
  rw [hpc]
  exact hafter

theorem worker_cases (h : ThreadPool.Inv n p) (hi : i < n) (hs : ThreadPool.workerStep p i = some p') :
    Apart p i p' ∧ Handles p i p' := by
  have hw := h.workers i hi
  have hself : ∀ k, k ≠ i → p.job k = p.job k := fun _ _ => rfl
  unfold ThreadPool.workerStep at hs
  cases hpc : p.pc i with
  | enter =>
    simp only [hpc, Option.ite_none_right_eq_some, Option.some.injEq] at hs
    exact hs.2 ▸ handles_nothing hself (by rw [hpc]; decide) (by decide)
  | woken =>
    simp only [hpc, Option.ite_none_right_eq_some, Option.some.injEq] at hs
    exact hs.2 ▸ handles_nothing hself (by rw [hpc]; decide) (by decide)
  | checkEnd =>
    simp only [hpc, Option.some.injEq] at hs
    refine hs ▸ handles_nothing hself (by rw [hpc]; decide) ?_
    split <;> decide
  | checkJobs =>
    simp only [hpc, Option.some.injEq] at hs
    subst hs
    split
    · exact handles_nothing hself (by rw [hpc]; decide) (by decide)
    · exact handles_nothing hself (by rw [hpc]; decide) (by decide)
  | waiting => simp only [hpc, reduceCtorEq] at hs
  | testEnd =>
    simp only [hpc, Option.some.injEq] at hs
    subst hs
    split
    · exact handles_nothing hself (by rw [hpc]; decide) (by decide)
    · exact handles_nothing hself (by rw [hpc]; decide) (by decide)
  | take =>
    cases hjobs : p.jobs with
    | nil => exact absurd hjobs (hw.take hpc)
    | cons job jobs =>
      simp only [hpc, hjobs, Option.some.injEq] at hs
      subst hs
      exact ⟨⟨fun k hk => update_of_ne hk .., fun k hk => update_of_ne hk .., rfl⟩,
        .take job hjobs rfl rfl hpc ⟨update_self .., update_self ..⟩⟩
  | run =>
    obtain ⟨job, hjob⟩ := Option.isSome_iff_exists.1 (hw.hasJob (.inl hpc))
    simp only [hpc, hjob, Option.some.injEq] at hs
    subst hs
    exact ⟨⟨fun k hk => update_of_ne hk .., hself, rfl⟩, .run job rfl rfl rfl ⟨hpc, hjob⟩ ⟨update_self .., hjob⟩⟩
  | setCompleted =>
    obtain ⟨job, hjob⟩ := Option.isSome_iff_exists.1 (hw.hasJob (.inr hpc))
    simp only [hpc, hjob, Option.some.injEq] at hs
    subst hs
    exact ⟨⟨fun k hk => update_of_ne hk .., hself, rfl⟩, .setCompleted job rfl rfl rfl ⟨hpc, hjob⟩ (update_self ..)⟩
  | clear =>
    simp only [hpc, Option.some.injEq] at hs
    exact hs ▸ handles_nothing (fun k hk => update_of_ne hk ..) (by rw [hpc]; decide) (by decide)
  | done => simp only [hpc, reduceCtorEq] at hs

theorem nodup_snoc {l : List Nat} {j : Nat} (hj : j ∉ l) (h : l.Nodup) : (l ++ [j]).Nodup := by
  refine List.nodup_append.2 ⟨h, List.nodup_singleton j, fun a ha b hb heq => hj ?_⟩
  exact List.mem_singleton.1 hb ▸ heq ▸ ha

/-- Each job is in the queue, in the hands of one worker, or done. -/
structure Jobs (n : Nat) (p : ThreadPool.State) (created : Nat) : Prop where
  inv : ThreadPool.Inv n p
  alive : p.dtor = .alive
  queue : p.jobs.Nodup
  queued : ∀ j ∈ p.jobs, j < created ∧ j ∉ p.executed ∧ ∀ i < n, ¬ Holds p i j
  held : ∀ i < n, ∀ j, Holds p i j → j < created ∧ j ∉ p.completed ∧ (j ∈ p.executed ↔ p.pc i = .setCompleted)
  alone : ∀ i < n, ∀ k < n, ∀ j, Holds p i j → Holds p k j → k = i
  executed : p.executed.Nodup ∧ ∀ j ∈ p.executed, j < created
  completed : ∀ j ∈ p.completed, j ∈ p.executed

theorem Apart.holds (h : Apart p i p') {k j : Nat} (hk : k ≠ i) : Holds p' k j ↔ Holds p k j := by
  unfold Holds
  rw [h.pc k hk, h.job k hk]

theorem not_holds {j : Nat} (h : p.pc i ≠ .run ∧ p.pc i ≠ .setCompleted) : ¬ Holds p i j := fun hh => hh.2.elim h.1 h.2

theorem Apart.other (h : Apart p i p') {k j : Nat} (hk : k ≠ i) (hj : Holds p' k j) : Holds p k j ∧ p'.pc k = p.pc k :=
  ⟨(h.holds hk).1 hj, h.pc k hk⟩

/-- What the worker has in hand after a step, it has taken from the queue or just run. -/
theorem Handles.holds (hs : Handles p i p') {j : Nat} (hj : Holds p' i j) :
    (p.jobs = j :: p'.jobs ∧ p'.executed = p.executed ∧ p'.completed = p.completed ∧ p'.pc i = .run) ∨
      (Holds p i j ∧ p'.executed = p.executed ++ [j] ∧ p'.completed = p.completed ∧ p'.pc i = .setCompleted) := by
  cases hs with
  | nothing _ _ _ _ hafter => exact absurd hj (not_holds hafter)
  | take job hjobs hexecuted hcompleted _ hafter =>
    obtain rfl : job = j := Option.some.inj (hafter.2.symm.trans hj.1)
    exact .inl ⟨hjobs, hexecuted, hcompleted, hafter.1⟩
  | run job hjobs hexecuted hcompleted hbefore hafter =>
    obtain rfl : job = j := Option.some.inj (hafter.2.symm.trans hj.1)
    exact .inr ⟨⟨hbefore.2, .inl hbefore.1⟩, hexecuted, hcompleted, hafter.1⟩
  | setCompleted _ _ _ _ _ hafter =>
    refine absurd hj (not_holds ?_)
    rw [hafter]
    decide

section Handled
variable {created : Nat} (h : Jobs n p created) (hi : i < n) (hapart : Apart p i p') (hs : Handles p i p')
include h hi hs

theorem Handles.fresh {k j : Nat} (hj : Holds p' i j) (hk : k < n) (hki : k ≠ i) : ¬ Holds p k j := by
  intro hh
  rcases hs.holds hj with ⟨hjobs, -⟩ | ⟨hmine, -⟩
  · exact (h.queued j (hjobs ▸ List.mem_cons_self)).2.2 k hk hh
  · exact hki (h.alone i hi k hk j hmine hh)

omit hi in
theorem Handles.queue : p'.jobs.Nodup := by
  cases hs with
  | take job hjobs => exact (List.nodup_cons.1 (hjobs ▸ h.queue)).2
  | nothing hjobs | run _ hjobs | setCompleted _ hjobs => exact hjobs ▸ h.queue

include hapart

theorem Handles.alone : ∀ k < n, ∀ l < n, ∀ j, Holds p' k j → Holds p' l j → l = k := by
  intro k hk l hl j hj hj'
  by_cases hki : k = i
  · by_cases hli : l = i
    · exact hli.trans hki.symm
    · exact absurd (hapart.other hli hj').1 (hs.fresh h hi (hki ▸ hj) hl hli)
  · by_cases hli : l = i
    · exact absurd (hapart.other hki hj).1 (hs.fresh h hi (hli ▸ hj') hk hki)
    · exact h.alone k hk l hl j (hapart.other hki hj).1 (hapart.other hli hj').1

theorem Handles.queued : ∀ j ∈ p'.jobs, j < created ∧ j ∉ p'.executed ∧ ∀ k < n, ¬ Holds p' k j := by
  intro j hj
  have hmem : j ∈ p.jobs := by
    cases hs with
    | take job hjobs => exact hjobs ▸ List.mem_cons_of_mem job hj
    | nothing hjobs | run _ hjobs | setCompleted _ hjobs => exact hjobs ▸ hj
  obtain ⟨hlt, hnot, hfree⟩ := h.queued j hmem
  refine ⟨hlt, ?_, fun k hk hh => ?_⟩
  · cases hs with
    | run job _ hexecuted _ hbefore =>
      rw [hexecuted, List.mem_append, List.mem_singleton]
      rintro (hmem | rfl)
      · exact hnot hmem
      · exact hfree i hi ⟨hbefore.2, .inl hbefore.1⟩
    | nothing _ hexecuted | take _ _ hexecuted | setCompleted _ _ hexecuted => exact hexecuted ▸ hnot
  · by_cases hki : k = i
    · rcases hs.holds (hki ▸ hh) with ⟨hjobs, -⟩ | ⟨hmine, -⟩
      · exact (List.nodup_cons.1 (hjobs ▸ h.queue)).1 hj
      · exact hfree i hi hmine
    · exact hfree k hk (hapart.other hki hh).1

theorem Handles.held : ∀ k < n, ∀ j, Holds p' k j →
    j < created ∧ j ∉ p'.completed ∧ (j ∈ p'.executed ↔ p'.pc k = .setCompleted) := by
  intro k hk j hj
  by_cases hki : k = i
  · subst hki
    rcases hs.holds hj with ⟨hjobs, hexecuted, hcompleted, hpc⟩ | ⟨hmine, hexecuted, hcompleted, hpc⟩
    · obtain ⟨hlt, hnot, -⟩ := h.queued j (hjobs ▸ List.mem_cons_self)
      rw [hexecuted, hcompleted, hpc]
      exact ⟨hlt, fun hc => hnot (h.completed j hc), iff_of_false hnot (by decide)⟩
    · obtain ⟨hlt, hnot, -⟩ := h.held k hk j hmine
      rw [hexecuted, hcompleted, hpc]
      exact ⟨hlt, hnot, iff_of_true (List.mem_append_right _ (List.mem_singleton_self j)) rfl⟩
  · obtain ⟨hh, hpc⟩ := hapart.other hki hj
    obtain ⟨hlt, hnot, hiff⟩ := h.held k hk j hh
    -- What is in the hands of another is not what this worker has run.
    have hne : ∀ job, Holds p i job → j ≠ job := fun job hmine heq => hki (h.alone i hi k hk job hmine (heq ▸ hh))
    rw [hpc]
    cases hs with
    | nothing _ hexecuted hcompleted | take _ _ hexecuted hcompleted =>
      rw [hexecuted, hcompleted]
      exact ⟨hlt, hnot, hiff⟩
    | run job _ hexecuted hcompleted hbefore =>
      rw [hexecuted, hcompleted, List.mem_append, List.mem_singleton, ← hiff]
      exact ⟨hlt, hnot, or_iff_left (hne job ⟨hbefore.2, .inl hbefore.1⟩)⟩
    | setCompleted job _ hexecuted hcompleted hbefore =>
      rw [hexecuted, hcompleted, List.mem_append, List.mem_singleton]
      exact ⟨hlt, fun hmem => hmem.elim hnot (hne job ⟨hbefore.2, .inr hbefore.1⟩), hiff⟩

omit hapart

theorem Handles.executed : p'.executed.Nodup ∧ ∀ j ∈ p'.executed, j < created := by
  cases hs with
  | nothing _ hexecuted | take _ _ hexecuted | setCompleted _ _ hexecuted =>
    rw [hexecuted]
    exact h.executed
  | run job _ hexecuted _ hbefore =>
    obtain ⟨hlt, -, hiff⟩ := h.held i hi job ⟨hbefore.2, .inl hbefore.1⟩
    have hnot : job ∉ p.executed := by
      rw [hiff, hbefore.1]
      decide
    rw [hexecuted]
    refine ⟨nodup_snoc hnot h.executed.1, fun j hj => ?_⟩
    rcases List.mem_append.1 hj with hj | hj
    · exact h.executed.2 j hj
    · exact List.mem_singleton.1 hj ▸ hlt

theorem Handles.completed : ∀ j ∈ p'.completed, j ∈ p'.executed := by
  cases hs with
  | nothing _ hexecuted hcompleted | take _ _ hexecuted hcompleted =>
    rw [hexecuted, hcompleted]
    exact h.completed
  | run job _ hexecuted hcompleted =>
    rw [hexecuted, hcompleted]
    exact fun j hj => List.mem_append_left _ (h.completed j hj)
  | setCompleted job _ hexecuted hcompleted hbefore =>
    rw [hexecuted, hcompleted]
    intro j hj
    rcases List.mem_append.1 hj with hj | hj
    · exact h.completed j hj
    · obtain ⟨-, -, hiff⟩ := h.held i hi job ⟨hbefore.2, .inr hbefore.1⟩
      exact List.mem_singleton.1 hj ▸ hiff.2 hbefore.1

end Handled

/-- A step of a worker keeps every job at one place. -/
theorem Handles.jobs {created : Nat} (h : Jobs n p created) (hi : i < n) (hinv : ThreadPool.Inv n p') (hapart : Apart p i p')
    (hs : Handles p i p') : Jobs n p' created where
  inv := hinv
  alive := hapart.dtor.trans h.alive
  queue := hs.queue h
  queued := hs.queued h hi hapart
  held := hs.held h hi hapart
  alone := hs.alone h hi hapart
  executed := hs.executed h hi
  completed := hs.completed h hi

theorem Jobs.worker {created : Nat} (h : Jobs n p created) (hs : ThreadPool.step n p (.worker i) = some p') :
    i < n ∧ Jobs n p' created ∧ Handles p i p' := by
  have hstep := hs
  unfold ThreadPool.step at hs
  simp only [Option.ite_none_right_eq_some] at hs
  obtain ⟨hi, hs⟩ := hs
  have hmeets : ThreadPool.Meets n p (.worker i) := by
    intro _ hend
    have hlt := (h.inv.workers i hi).ending.1 hend
    rw [h.alive] at hlt
    exact absurd hlt (Nat.not_lt_zero i)
  obtain ⟨hapart, hhandles⟩ := worker_cases h.inv hi hs
  exact ⟨hi, hhandles.jobs h hi (ThreadPool.step_inv h.inv hmeets hstep) hapart, hhandles⟩

/-- Waking a worker leaves the jobs as they are. -/
theorem Jobs.woken {created : Nat} (h : Jobs n p created) (hi : i < n) (hpc : p.pc i = .waiting) :
    Jobs n (ThreadPool.goto p i .woken) created := by
  have hholds : ∀ k j, Holds (ThreadPool.goto p i .woken) k j → Holds p k j ∧ (ThreadPool.goto p i .woken).pc k = p.pc k := by
    intro k j hj
    by_cases hki : k = i
    · subst hki
      refine absurd hj (not_holds ?_)
      rw [ThreadPool.goto_self]
      decide
    · rw [Holds, ThreadPool.goto_of_ne hki] at hj
      exact ⟨hj, ThreadPool.goto_of_ne hki⟩
  refine ⟨h.inv.wakeUp hi hpc, h.alive, h.queue, fun j hj => ?_, fun k hk j hj => ?_, fun k hk l hl j hj hj' => ?_, h.executed,
    h.completed⟩
  · obtain ⟨hlt, hnot, hfree⟩ := h.queued j hj
    exact ⟨hlt, hnot, fun k hk hh => hfree k hk (hholds k j hh).1⟩
  · obtain ⟨hh, hpc'⟩ := hholds k j hj
    rw [hpc']
    exact h.held k hk j hh
  · exact h.alone k hk l hl j (hholds k j hj).1 (hholds l j hj').1

/-- A new job is enqueued. -/
theorem Jobs.enqueue {created : Nat} {woken : Option Nat} (h : Jobs (n + 1) p created)
    (hs : ThreadPool.step (n + 1) p (.enqueue created woken) = some p') :
    Jobs (n + 1) p' (created + 1) ∧ p'.executed = p.executed ∧ p'.completed = p.completed := by
  have hmeets : ThreadPool.Meets (n + 1) p (.enqueue created woken) := Nat.succ_pos n
  have hinv := ThreadPool.step_inv h.inv hmeets hs
  unfold ThreadPool.step at hs
  simp only [Option.ite_none_right_eq_some, Option.some.injEq] at hs
  obtain ⟨⟨halive, -, hwake⟩, rfl⟩ := hs
  have hwoken : Jobs (n + 1) (ThreadPool.wake p woken) created := by
    cases woken with
    | none => exact h
    | some i =>
      simp only [ThreadPool.canWake, Bool.and_eq_true, decide_eq_true_eq, beq_iff_eq] at hwake
      exact h.woken hwake.1 hwake.2
  have hjobs : (ThreadPool.wake p woken).jobs = p.jobs ∧ (ThreadPool.wake p woken).executed = p.executed ∧
      (ThreadPool.wake p woken).completed = p.completed := by
    cases woken <;> exact ⟨rfl, rfl, rfl⟩
  have hnew : created ∉ p.jobs := fun hmem => absurd (h.queued created hmem).1 (Nat.lt_irrefl created)
  refine ⟨⟨hinv, hwoken.alive, nodup_snoc hnew h.queue, fun j hj => ?_, fun k hk j hj => ?_, hwoken.alone, ?_,
      hwoken.completed⟩,
    hjobs.2.1, hjobs.2.2⟩
  · rcases List.mem_append.1 hj with hj | hj
    · obtain ⟨hlt, hnot, hfree⟩ := hwoken.queued j (hjobs.1.symm ▸ hj)
      exact ⟨Nat.lt_succ_of_lt hlt, hnot, hfree⟩
    · obtain rfl := List.mem_singleton.1 hj
      refine ⟨Nat.lt_succ_self j, fun hmem => ?_, fun k hk hh => ?_⟩
      · exact absurd (hwoken.executed.2 j hmem) (Nat.lt_irrefl j)
      · exact absurd (hwoken.held k hk j hh).1 (Nat.lt_irrefl j)
  · obtain ⟨hlt, hrest⟩ := hwoken.held k hk j hj
    exact ⟨Nat.lt_succ_of_lt hlt, hrest⟩
  · exact ⟨hwoken.executed.1, fun j hj => Nat.lt_succ_of_lt (hwoken.executed.2 j hj)⟩

theorem jobs_init (n : Nat) : Jobs n {} 0 := by
  have hholds : ∀ k j, ¬ Holds {} k j := fun k j hj => by cases hj.1
  exact ⟨ThreadPool.init_inv n, rfl, .nil, nofun, fun k _ j hj => absurd hj (hholds k j),
    fun k _ l _ j hj => absurd hj (hholds k j), ⟨.nil, nofun⟩, nofun⟩

end Pool

/-! ## Work-groups -/

namespace Item

def rest : Item → List Nat
  | .waits _ _ rest => rest
  | _ => []

def listed : Item → List Nat
  | .waits _ listed _ => listed
  | .barrier listed => listed
  | _ => []

/-- The job that is not waited for any more. -/
def deleting : Item → Option Nat
  | .waits .delete _ (j :: _) => some j
  | _ => none

/-- The job that is completed. -/
def ready : Item → Option Nat
  | .waits .delete _ (j :: _) | .waits .woken _ (j :: _) => some j
  | _ => none

end Item

/-- A job of an event that the work-group has waited for. -/
def Awaits (s : State) (t j : Nat) : Prop := ∃ e ∈ s.waited, s.owner e = t ∧ j ∈ s.copies e

structure ItemInv (s : State) (t : Nat) (item : Item) : Prop where
  rest : item.rest.Nodup ∧ ∀ j ∈ item.rest, j ∉ s.deleted ∧ Awaits s t j
  listed : ∀ j ∈ item.listed, j ∈ s.deleted ∨ j ∈ item.rest
  deleting : ∀ j, item.deleting = some j → j ∈ s.awaited
  waiting : ∀ j ∈ item.rest, item.deleting ≠ some j → j ∉ s.awaited
  ready : ∀ j, item.ready = some j → j ∈ s.pool.completed
  ended : item = .ended → ∀ e < s.events, s.owner e = t → e ∈ s.waited

/-- Each job is in one event. -/
structure Events (s : State) : Prop where
  copies : ∀ e, (s.copies e).Nodup ∧ ∀ j ∈ s.copies e, e < s.events ∧ j < s.created
  apart : ∀ e e' j, j ∈ s.copies e → j ∈ s.copies e' → e = e'
  waited : ∀ e ∈ s.waited, e < s.events

structure Inv (n : Nat) (s : State) : Prop where
  jobs : Jobs (n + 1) s.pool s.created
  defined : s.undefined = false
  events : Events s
  items : ∀ t, ItemInv s t (s.items t)
  /-- The jobs of an event are deleted, or will be. -/
  outstanding : ∀ e ∈ s.waited, ∀ j ∈ s.copies e, j ∈ s.deleted ∨ j ∈ (s.items (s.owner e)).rest
  awaited : s.awaited.Nodup ∧ ∀ j ∈ s.awaited, ∃ t, Awaits s t j
  deleted : s.deleted.Nodup ∧ ∀ j ∈ s.deleted, j ∈ s.pool.completed ∧ j ∈ s.awaited
  passed : ∀ listed ∈ s.passed, ∀ j ∈ listed, j ∈ s.deleted

variable {n : Nat} {s s' : State} {t : Nat}

/-- A job belongs to one work-group. -/
theorem Awaits.unique (h : Events s) {t' j : Nat} (ht : Awaits s t j) (ht' : Awaits s t' j) : t = t' := by
  obtain ⟨e, -, rfl, hj⟩ := ht
  obtain ⟨e', -, rfl, hj'⟩ := ht'
  rw [h.apart e e' j hj hj']

theorem Inv.once (h : Inv n s) {j : Nat} (hj : j ∈ s.deleted) : Once s j := by
  obtain ⟨hcompleted, hawaited⟩ := h.deleted.2 j hj
  exact ⟨List.count_eq_one_of_mem h.jobs.executed.1 (h.jobs.completed j hcompleted),
    List.count_eq_one_of_mem h.awaited.1 hawaited, List.count_eq_one_of_mem h.deleted.1 hj⟩

/-- What the invariant gives. -/
theorem Inv.safe (h : Inv n s) : Safe s := by
  refine ⟨⟨h.defined, h.jobs.inv.defined⟩, fun j => ⟨?_, ?_, ?_⟩, fun listed hl j hj => ?_, fun t ht e he howner j hj => ?_⟩
  · exact List.nodup_iff_count_le_one.1 h.jobs.executed.1 j
  · exact List.nodup_iff_count_le_one.1 h.awaited.1 j
  · exact List.nodup_iff_count_le_one.1 h.deleted.1 j
  · have hdeleted := h.passed listed hl j hj
    exact ⟨(h.deleted.2 j hdeleted).1, h.once hdeleted⟩
  · have hwaited := (h.items t).ended ht e he howner
    rcases h.outstanding e hwaited j hj with hdeleted | hrest
    · exact h.once hdeleted
    · rw [howner, ht] at hrest
      cases hrest

/-! ## The steps of a work-item that waits -/

/-- A work-item goes on, and may have awaited or deleted a job of its own. -/
theorem Inv.move (h : Inv n s) {item : Item} {awaited deleted : List Nat} {passed : List (List Nat)}
    (hitem : ItemInv { s with awaited, deleted } t item)
    (houtstanding : ∀ j, j ∈ s.deleted ∨ j ∈ (s.items t).rest → j ∈ deleted ∨ j ∈ item.rest)
    (hawaited : awaited.Nodup ∧ s.awaited ⊆ awaited ∧ ∀ j ∈ awaited, j ∈ s.awaited ∨ Awaits s t j)
    (hdeleted : deleted.Nodup ∧ s.deleted ⊆ deleted ∧ ∀ j ∈ deleted, j ∈ s.deleted ∨ Awaits s t j)
    (hdone : ∀ j ∈ deleted, j ∈ s.pool.completed ∧ j ∈ awaited) (hpassed : ∀ listed ∈ passed, ∀ j ∈ listed, j ∈ deleted) :
    Inv n { goto s t item with awaited, deleted, passed } := by
  refine ⟨h.jobs, h.defined, ⟨h.events.copies, h.events.apart, h.events.waited⟩, fun t' => ?_, fun e he j hj => ?_,
    ⟨hawaited.1, fun j hj => ?_⟩, ⟨hdeleted.1, hdone⟩, hpassed⟩
  · by_cases ht : t' = t
    · subst ht
      have hself : ({ goto s t' item with awaited, deleted, passed } : State).items t' = item := update_self ..
      rw [hself]
      exact ⟨hitem.rest, hitem.listed, hitem.deleting, hitem.waiting, hitem.ready, hitem.ended⟩
    · have hother : ({ goto s t item with awaited, deleted, passed } : State).items t' = s.items t' := update_of_ne ht ..
      have hi := h.items t'
      -- the jobs of the others are not awaited or deleted here
      have hnot : ∀ j ∈ (s.items t').rest, ¬ Awaits s t j := fun j hj haw => ht ((hi.rest.2 j hj).2.unique h.events haw)
      rw [hother]
      refine ⟨⟨hi.rest.1, fun j hj => ⟨fun hmem => ?_, (hi.rest.2 j hj).2⟩⟩, fun j hj => ?_,
        fun j hj => hawaited.2.1 (hi.deleting j hj),
        fun j hj hne hmem => ?_, hi.ready, hi.ended⟩
      · exact (hdeleted.2.2 j hmem).elim (hi.rest.2 j hj).1 (hnot j hj)
      · exact (hi.listed j hj).imp_left fun hmem => hdeleted.2.1 hmem
      · exact (hawaited.2.2 j hmem).elim (hi.waiting j hj hne) (hnot j hj)
  · change j ∈ deleted ∨ j ∈ (update s.items t item (s.owner e)).rest
    have hjob := h.outstanding e he j hj
    by_cases ht : s.owner e = t
    · rw [ht, update_self]
      exact houtstanding j (ht ▸ hjob)
    · rw [update_of_ne ht]
      exact hjob.imp_left fun hmem => hdeleted.2.1 hmem
  · exact (hawaited.2.2 j hj).elim (h.awaited.2 j) fun haw => ⟨t, haw⟩

/-- A work-item goes on, with no job awaited or deleted. -/
theorem Inv.goto (h : Inv n s) {item : Item} (hitem : ItemInv s t item)
    (houtstanding : ∀ j, j ∈ s.deleted ∨ j ∈ (s.items t).rest → j ∈ s.deleted ∨ j ∈ item.rest) :
    Inv n (GroupEvents.goto s t item) :=
  h.move hitem houtstanding ⟨h.awaited.1, List.Subset.refl _, fun _ => .inl⟩ ⟨h.deleted.1, List.Subset.refl _, fun _ => .inl⟩
    h.deleted.2 h.passed

theorem mem_snoc {l : List Nat} {j k : Nat} : k ∈ l ++ [j] ↔ k ∈ l ∨ k = j := by
  rw [List.mem_append, List.mem_singleton]

/-- The job at the head has been awaited. -/
theorem Inv.await (h : Inv n s) {phase : Phase} {listed rest : List Nat} {j : Nat}
    (hat : s.items t = .waits phase listed (j :: rest)) (hphase : phase ≠ .delete) (hcompleted : j ∈ s.pool.completed) :
    Inv n { GroupEvents.goto s t (.waits .delete listed (j :: rest)) with awaited := s.awaited ++ [j] } := by
  have hi := h.items t
  rw [hat] at hi
  have hnone : (Item.waits phase listed (j :: rest)).deleting = none := by
    cases phase with
    | delete => exact absurd rfl hphase
    | check | waiting | woken => rfl
  have hnot : ∀ k ∈ j :: rest, k ∉ s.awaited := fun k hk => hi.waiting k hk (by rw [hnone]; exact nofun)
  have hmine : Awaits s t j := (hi.rest.2 j List.mem_cons_self).2
  refine h.move ⟨hi.rest, hi.listed, fun k hk => ?_, fun k hk hne => ?_, fun k hk => ?_, nofun⟩ (fun k hk => ?_)
    ⟨nodup_snoc (hnot j List.mem_cons_self) h.awaited.1, List.subset_append_left _ _, fun k hk => ?_⟩
    ⟨h.deleted.1, List.Subset.refl _, fun _ => .inl⟩ (fun k hk => ?_) h.passed
  · exact mem_snoc.2 (.inr (Option.some.inj hk).symm)
  · intro hmem
    rcases mem_snoc.1 hmem with hmem | rfl
    · exact hnot k hk hmem
    · exact hne rfl
  · exact Option.some.inj hk ▸ hcompleted
  · rwa [hat] at hk
  · rcases mem_snoc.1 hk with hk | rfl
    · exact .inl hk
    · exact .inr hmine
  · obtain ⟨hdone, haw⟩ := h.deleted.2 k hk
    exact ⟨hdone, mem_snoc.2 (.inl haw)⟩

/-- The job at the head is deleted. -/
theorem Inv.delete (h : Inv n s) {listed rest : List Nat} {j : Nat} (hat : s.items t = .waits .delete listed (j :: rest)) :
    Inv n { GroupEvents.goto s t (.waits .check listed rest) with deleted := s.deleted ++ [j] } := by
  have hi := h.items t
  rw [hat] at hi
  obtain ⟨hj, hrest⟩ := List.nodup_cons.1 hi.rest.1
  obtain ⟨hnot, hmine⟩ := hi.rest.2 j List.mem_cons_self
  refine h.move ⟨⟨hrest, fun k hk => ⟨fun hmem => ?_, (hi.rest.2 k (List.mem_cons_of_mem j hk)).2⟩⟩, fun k hk => ?_, nofun,
    fun k hk _ => ?_, nofun, nofun⟩ (fun k hk => ?_) ⟨h.awaited.1, List.Subset.refl _, fun _ => .inl⟩
    ⟨nodup_snoc hnot h.deleted.1, List.subset_append_left _ _, fun k hk => ?_⟩ (fun k hk => ?_)
    (fun l hl k hk => mem_snoc.2 (.inl (h.passed l hl k hk)))
  · rcases mem_snoc.1 hmem with hmem | rfl
    · exact (hi.rest.2 k (List.mem_cons_of_mem j hk)).1 hmem
    · exact hj hk
  · rcases hi.listed k hk with hmem | hmem
    · exact .inl (mem_snoc.2 (.inl hmem))
    · rcases List.mem_cons.1 hmem with rfl | hmem
      · exact .inl (mem_snoc.2 (.inr rfl))
      · exact .inr hmem
  · refine hi.waiting k (List.mem_cons_of_mem j hk) fun heq => hj ?_
    exact Option.some.inj heq ▸ hk
  · rw [hat] at hk
    rcases hk with hmem | hmem
    · exact .inl (mem_snoc.2 (.inl hmem))
    · rcases List.mem_cons.1 hmem with rfl | hmem
      · exact .inl (mem_snoc.2 (.inr rfl))
      · exact .inr hmem
  · rcases mem_snoc.1 hk with hk | rfl
    · exact .inl hk
    · exact .inr hmine
  · rcases mem_snoc.1 hk with hk | rfl
    · exact h.deleted.2 k hk
    · exact ⟨hi.ready k rfl, hi.deleting k rfl⟩

/-- A work-item of which nothing is listed. -/
theorem itemInv_idle {item : Item} (hrest : item.rest = []) (hlisted : ∀ j ∈ item.listed, j ∈ s.deleted)
    (hended : item = .ended → ∀ e < s.events, s.owner e = t → e ∈ s.waited) : ItemInv s t item := by
  cases item with
  | waits phase listed rest =>
    obtain rfl : rest = [] := hrest
    refine ⟨⟨.nil, nofun⟩, fun j hj => .inl (hlisted j hj), fun j hj => ?_, nofun, fun j hj => ?_, nofun⟩
    · cases phase <;> cases hj
    · cases phase <;> cases hj
  | kernel => exact ⟨⟨.nil, nofun⟩, nofun, nofun, nofun, nofun, nofun⟩
  | barrier listed => exact ⟨⟨.nil, nofun⟩, fun j hj => .inl (hlisted j hj), nofun, nofun, nofun, nofun⟩
  | ended => exact ⟨⟨.nil, nofun⟩, nofun, nofun, nofun, nofun, hended⟩

theorem Inv.itemStep (h : Inv n s) (hs : GroupEvents.itemStep s t = some s') : Inv n s' := by
  have hi := h.items t
  unfold GroupEvents.itemStep at hs
  split at hs
  · next listed hat =>
    obtain rfl := Option.some.inj hs
    rw [hat] at hi
    refine h.goto (itemInv_idle rfl (fun j hj => ?_) nofun) fun j hj => ?_
    · exact (hi.listed j hj).resolve_right List.not_mem_nil
    · rwa [hat] at hj
  · next listed j rest hat =>
    have hnot : j ∉ s.deleted := by
      rw [hat] at hi
      exact (hi.rest.2 j List.mem_cons_self).1
    rw [if_neg hnot] at hs
    split at hs
    · next hcompleted =>
      obtain rfl := Option.some.inj hs
      exact h.await hat (by decide) hcompleted
    · obtain rfl := Option.some.inj hs
      rw [hat] at hi
      exact h.goto ⟨hi.rest, hi.listed, nofun, hi.waiting, nofun, nofun⟩ fun k hk => by rwa [hat] at hk
  · next listed j rest hat =>
    obtain rfl := Option.some.inj hs
    rw [hat] at hi
    exact h.await hat (by decide) (hi.ready j rfl)
  · next listed j rest hat =>
    obtain rfl := Option.some.inj hs
    exact h.delete hat
  · next listed hat =>
    obtain rfl := Option.some.inj hs
    rw [hat] at hi
    refine h.move (itemInv_idle rfl nofun nofun) (fun j hj => ?_) ⟨h.awaited.1, List.Subset.refl _, fun _ => .inl⟩
      ⟨h.deleted.1, List.Subset.refl _, fun _ => .inl⟩ h.deleted.2 fun l hl j hj => ?_
    · rwa [hat] at hj
    · rcases List.mem_append.1 hl with hl | hl
      · exact h.passed l hl j hj
      · obtain rfl := List.mem_singleton.1 hl
        exact (hi.listed j hj).resolve_right List.not_mem_nil
  · cases hs

/-! ## The steps of a kernel -/

/-- A wait for events that have not been waited for. -/
theorem Inv.wait (h : Inv n s) {eventList : List Nat} (hkernel : s.items t = .kernel)
    (hmeets : eventList.Nodup ∧ ∀ e ∈ eventList, e ∉ s.waited) (hs : GroupEvents.wait s t eventList = some s') : Inv n s' := by
  unfold GroupEvents.wait at hs
  split at hs
  · next howned =>
    split at hs
    · exact Option.some.inj hs ▸ h
    · obtain rfl := Option.some.inj hs
      have hjob : ∀ j ∈ eventList.flatMap s.copies, ∃ e ∈ eventList, s.owner e = t ∧ j ∈ s.copies e := by
        intro j hj
        obtain ⟨e, he, hj⟩ := List.mem_flatMap.1 hj
        exact ⟨e, he, (howned e he).2, hj⟩
      -- a job that has been awaited is of an event that has been waited for
      have hfresh : ∀ j ∈ eventList.flatMap s.copies, j ∉ s.awaited := by
        intro j hj hmem
        obtain ⟨e, he, -, hj⟩ := hjob j hj
        obtain ⟨-, e', he', -, hj'⟩ := h.awaited.2 j hmem
        exact hmeets.2 e he (h.events.apart e e' j hj hj' ▸ he')
      have hnodup : (eventList.flatMap s.copies).Nodup := by
        refine List.nodup_flatMap.2 ⟨fun e _ => (h.events.copies e).1, hmeets.1.imp fun {e e'} hne => ?_⟩
        exact fun j hj hj' => hne (h.events.apart e e' j hj hj')
      have hmore : ∀ t' j, Awaits s t' j →
          Awaits { GroupEvents.goto s t (.waits .check (eventList.flatMap s.copies) (eventList.flatMap s.copies)) with
            waited := s.waited ++ eventList } t' j :=
        fun t' j ⟨e, he, hrest⟩ => ⟨e, List.mem_append_left _ he, hrest⟩
      refine ⟨h.jobs, h.defined, ⟨h.events.copies, h.events.apart, fun e he => ?_⟩, fun t' => ?_, fun e he j hj => ?_,
        ⟨h.awaited.1, fun j hj => (h.awaited.2 j hj).imp fun t' => hmore t' j⟩, h.deleted, h.passed⟩
      · exact (List.mem_append.1 he).elim (h.events.waited e) fun he => (howned e he).1
      · by_cases ht : t' = t
        · subst ht
          change ItemInv _ t' (update s.items t' _ t')
          rw [update_self]
          refine ⟨⟨hnodup, fun j hj => ⟨fun hmem => hfresh j hj (h.deleted.2 j hmem).2, ?_⟩⟩, fun j hj => .inr hj, nofun,
            fun j hj _ => hfresh j hj, nofun, nofun⟩
          obtain ⟨e, he, hjob⟩ := hjob j hj
          exact ⟨e, List.mem_append_right _ he, hjob⟩
        · have hi := h.items t'
          change ItemInv _ t' (update s.items t _ t')
          rw [update_of_ne ht]
          refine ⟨⟨hi.rest.1, fun j hj => ⟨(hi.rest.2 j hj).1, hmore t' j (hi.rest.2 j hj).2⟩⟩, hi.listed, hi.deleting,
            hi.waiting,
            hi.ready, fun hended e he howner => List.mem_append_left _ (hi.ended hended e he howner)⟩
      · change j ∈ s.deleted ∨ j ∈ (update s.items t _ (s.owner e)).rest
        by_cases ht : s.owner e = t
        · rw [ht, update_self]
          rcases List.mem_append.1 he with he | he
          · refine .inl ((h.outstanding e he j hj).resolve_right fun hrest => ?_)
            rw [ht, hkernel] at hrest
            cases hrest
          · exact .inr (List.mem_flatMap.2 ⟨e, he, hj⟩)
        · rw [update_of_ne ht]
          refine h.outstanding e ((List.mem_append.1 he).resolve_right fun he => ht (howned e he).2) j hj
  · cases hs

/-- A new job goes to an event that has not been waited for. -/
theorem Inv.attach (h : Inv n s) {pool : ThreadPool.State} {e₀ events : Nat} {owner : Nat → Nat} (hkernel : s.items t = .kernel)
    (hjobs : Jobs (n + 1) pool (s.created + 1)) (hcompleted : pool.completed = s.pool.completed) (hfresh : e₀ ∉ s.waited)
    (hevents : s.events ≤ events ∧ e₀ < events ∧ ∀ e < events, e ≠ e₀ → e < s.events)
    (howner : owner e₀ = t ∧ ∀ e, e ≠ e₀ → owner e = s.owner e) :
    Inv n { s with
      pool, created := s.created + 1, events, owner, copies := update s.copies e₀ (s.copies e₀ ++ [s.created]) } := by
  have hne : ∀ e ∈ s.waited, e ≠ e₀ := fun e he heq => hfresh (heq ▸ he)
  have hawaits : ∀ t j, Awaits s t j → Awaits { s with
      pool, created := s.created + 1, events, owner, copies := update s.copies e₀ (s.copies e₀ ++ [s.created]) } t j := by
    rintro t j ⟨e, he, ht, hj⟩
    refine ⟨e, he, (howner.2 e (hne e he)).trans ht, ?_⟩
    change j ∈ update s.copies e₀ _ e
    rwa [update_of_ne (hne e he)]
  -- a copy of the event is one of before, or the new one
  have hcopy : ∀ e j, j ∈ update s.copies e₀ (s.copies e₀ ++ [s.created]) e → j ∈ s.copies e ∨ (e = e₀ ∧ j = s.created) := by
    intro e j hj
    by_cases he : e = e₀
    · subst he
      rw [update_self] at hj
      exact (mem_snoc.1 hj).imp_right fun hj => ⟨rfl, hj⟩
    · rw [update_of_ne he] at hj
      exact .inl hj
  have hnew : ∀ e, s.created ∉ s.copies e := fun e hmem => Nat.lt_irrefl _ ((h.events.copies e).2 _ hmem).2
  refine ⟨hjobs, h.defined, ⟨fun e => ⟨?_, fun j hj => ?_⟩, fun e e' j hj hj' => ?_, fun e he => ?_⟩, fun t' => ?_,
    fun e he j hj => ?_,
    ⟨h.awaited.1, fun j hj => (h.awaited.2 j hj).imp fun t' => hawaits t' j⟩,
    ⟨h.deleted.1, fun j hj => ⟨hcompleted ▸ (h.deleted.2 j hj).1, (h.deleted.2 j hj).2⟩⟩, h.passed⟩
  · change (update s.copies e₀ _ e).Nodup
    by_cases he : e = e₀
    · subst he
      rw [update_self]
      exact nodup_snoc (hnew e) (h.events.copies e).1
    · rw [update_of_ne he]
      exact (h.events.copies e).1
  · rcases hcopy e j hj with hj | ⟨rfl, rfl⟩
    · obtain ⟨hlt, hcreated⟩ := (h.events.copies e).2 j hj
      exact ⟨Nat.lt_of_lt_of_le hlt hevents.1, Nat.lt_succ_of_lt hcreated⟩
    · exact ⟨hevents.2.1, Nat.lt_succ_self _⟩
  · rcases hcopy e j hj with hold | ⟨he, hlast⟩
    · rcases hcopy e' j hj' with hold' | ⟨-, hlast⟩
      · exact h.events.apart e e' j hold hold'
      · exact absurd (hlast ▸ hold) (hnew e)
    · rcases hcopy e' j hj' with hold' | ⟨he', -⟩
      · exact absurd (hlast ▸ hold') (hnew e')
      · exact he.trans he'.symm
  · exact Nat.lt_of_lt_of_le (h.events.waited e he) hevents.1
  · have hi := h.items t'
    refine ⟨⟨hi.rest.1, fun j hj => ⟨(hi.rest.2 j hj).1, hawaits t' j (hi.rest.2 j hj).2⟩⟩, hi.listed, hi.deleting, hi.waiting,
      fun j hj => hcompleted ▸ hi.ready j hj, fun hended e he ht => ?_⟩
    have he₀ : e ≠ e₀ := by
      intro heq
      have hitem : s.items t' = .kernel := (congrArg s.items (ht.symm.trans (heq ▸ howner.1))).trans hkernel
      cases hitem.symm.trans hended
    exact hi.ended hended e (hevents.2.2 e he he₀) ((howner.2 e he₀).symm.trans ht)
  · change j ∈ update s.copies e₀ _ e at hj
    rw [update_of_ne (hne e he)] at hj
    change j ∈ s.deleted ∨ j ∈ (s.items (owner e)).rest
    rw [howner.2 e (hne e he)]
    exact h.outstanding e he j hj

theorem Inv.copy (h : Inv n s) {event woken : Option Nat} (hkernel : s.items t = .kernel)
    (hmeets : Meets s (.copy t event woken)) (hs : GroupEvents.copy (n + 1) s t event woken = some s') : Inv n s' := by
  unfold GroupEvents.copy at hs
  obtain ⟨pool, hpool, hs⟩ := Option.bind_eq_some_iff.1 hs
  obtain ⟨hjobs, -, hcompleted⟩ := h.jobs.enqueue hpool
  cases event with
  | some e =>
    simp only [Option.ite_none_right_eq_some, Option.some.injEq] at hs
    obtain ⟨⟨he, ht⟩, rfl⟩ := hs
    exact h.attach hkernel hjobs hcompleted hmeets ⟨Nat.le_refl _, he, fun _ hlt _ => hlt⟩ ⟨ht, fun _ _ => rfl⟩
  | none =>
    obtain rfl := Option.some.inj hs
    have hempty : s.copies s.events = [] := by
      refine List.eq_nil_iff_forall_not_mem.2 fun j hj => ?_
      exact Nat.lt_irrefl _ ((h.events.copies _).2 j hj).1
    have hfresh : s.events ∉ s.waited := fun hmem => Nat.lt_irrefl _ (h.events.waited _ hmem)
    have hevents : ∀ e < s.events + 1, e ≠ s.events → e < s.events := fun e hlt hne => by omega
    have hattach := h.attach hkernel hjobs hcompleted hfresh ⟨Nat.le_succ _, Nat.lt_succ_self _, hevents⟩
      ⟨update_self s.events t s.owner, fun e he => update_of_ne he ..⟩
    rwa [hempty, List.nil_append] at hattach

/-! ## The steps of the workers -/

/-- A broadcast wakes a work-item, and changes nothing else. -/
structure Rouses (item item' : Item) : Prop where
  rest : item'.rest = item.rest
  listed : item'.listed = item.listed
  deleting : item'.deleting = item.deleting
  ended : item' = .ended → item = .ended

theorem rouses_refl (item : Item) : Rouses item item := ⟨rfl, rfl, rfl, id⟩

theorem rouses_broadcast (job : Nat) (item : Item) : Rouses item (item.broadcast job) := by
  unfold Item.broadcast
  split
  · next listed j rest =>
    refine ⟨rfl, rfl, ?_, nofun⟩
    by_cases hj : j = job
    · rw [if_pos hj]
      rfl
    · rw [if_neg hj]
  · exact rouses_refl item

theorem ready_broadcast {job j : Nat} {item : Item} (h : (item.broadcast job).ready = some j) :
    item.ready = some j ∨ j = job := by
  unfold Item.broadcast at h
  split at h
  · next listed k rest =>
    by_cases hk : k = job
    · rw [if_pos hk] at h
      exact .inr ((Option.some.inj h).symm.trans hk)
    · rw [if_neg hk] at h
      cases h
  · exact .inl h

theorem Inv.rouse (h : Inv n s) {pool : ThreadPool.State} {items : Nat → Item} (hjobs : Jobs (n + 1) pool s.created)
    (hcompleted : s.pool.completed ⊆ pool.completed) (hitems : ∀ t, Rouses (s.items t) (items t))
    (hready : ∀ t j, (items t).ready = some j → j ∈ pool.completed) : Inv n { s with pool, items } := by
  refine ⟨hjobs, h.defined, ⟨h.events.copies, h.events.apart, h.events.waited⟩, fun t => ?_, fun e he j hj => ?_, h.awaited,
    ⟨h.deleted.1, fun j hj => ⟨hcompleted (h.deleted.2 j hj).1, (h.deleted.2 j hj).2⟩⟩, h.passed⟩
  · have hi := h.items t
    obtain ⟨hrest, hlisted, hdeleting, hended⟩ := hitems t
    refine ⟨?_, ?_, ?_, ?_, hready t, fun h => hi.ended (hended h)⟩
    · rw [hrest]
      exact hi.rest
    · rw [hrest, hlisted]
      exact hi.listed
    · rw [hdeleting]
      exact hi.deleting
    · rw [hrest, hdeleting]
      exact hi.waiting
  · rw [(hitems (s.owner e)).rest]
    exact h.outstanding e he j hj

theorem inHand_eq_some {p : ThreadPool.State} {i j : Nat} (h : inHand p i = some j) : Holds p i j := by
  unfold inHand at h
  split at h
  · next hpc => exact ⟨h, hpc⟩
  · cases h

theorem Inv.worker (h : Inv n s) {i : Nat} (hs : GroupEvents.workerStep (n + 1) s i = some s') : Inv n s' := by
  unfold GroupEvents.workerStep at hs
  obtain ⟨pool, hpool, rfl⟩ := Option.map_eq_some_iff.1 hs
  obtain ⟨hi, hjobs, hhandles⟩ := h.jobs.worker hpool
  -- what is deleted is completed, and no worker has it
  have hused : (inHand s.pool i).any (fun j => decide (j ∈ s.deleted)) = false := by
    cases hhand : inHand s.pool i with
    | none => rfl
    | some j =>
      have hfree := (h.jobs.held i hi j (inHand_eq_some hhand)).2.1
      exact decide_eq_false fun hmem => hfree (h.deleted.2 j hmem).1
  rw [hused, Bool.or_false]
  have hsame : ∀ completed, pool.completed = completed → completed = s.pool.completed → s.pool.pc i ≠ .setCompleted →
      Inv n { s with
        pool
        items := if s.pool.pc i = .setCompleted then fun t => (s.items t).broadcast ((s.pool.job i).getD 0) else s.items } := by
    intro completed hc hc' hpc
    rw [if_neg hpc]
    refine h.rouse hjobs (by rw [hc, hc']; exact List.Subset.refl _) (fun t => rouses_refl _) fun t j hj => ?_
    rw [hc, hc']
    exact (h.items t).ready j hj
  cases hhandles with
  | nothing _ _ hc hbefore => exact hsame _ hc rfl hbefore.2
  | take _ _ _ hc hbefore => exact hsame _ hc rfl (by rw [hbefore]; decide)
  | run _ _ _ hc hbefore => exact hsame _ hc rfl (by rw [hbefore.1]; decide)
  | setCompleted job _ _ hc hbefore =>
    rw [if_pos hbefore.1, hbefore.2, Option.getD_some]
    refine h.rouse hjobs (by rw [hc]; exact List.subset_append_left _ _) (fun t => rouses_broadcast job _) fun t j hj => ?_
    rw [hc]
    rcases ready_broadcast hj with hj | rfl
    · exact mem_snoc.2 (.inl ((h.items t).ready j hj))
    · exact mem_snoc.2 (.inr rfl)

theorem Inv.workerWakeUp (h : Inv n s) {i : Nat} {pool : ThreadPool.State}
    (hs : ThreadPool.step (n + 1) s.pool (.wakeUp i) = some pool) : Inv n { s with pool } := by
  unfold ThreadPool.step at hs
  simp only [Option.ite_none_right_eq_some, Option.some.injEq] at hs
  obtain ⟨⟨hi, hpc⟩, rfl⟩ := hs
  exact h.rouse (h.jobs.woken hi hpc) (List.Subset.refl _) (fun t => rouses_refl _) fun t => (h.items t).ready

/-! ## Runs -/

theorem step_inv {l : Label} (h : Inv n s) (hmeets : Meets s l) (hs : step (n + 1) s l = some s') : Inv n s' := by
  unfold step at hs
  cases l with
  | copy t event woken =>
    simp only [Option.ite_none_right_eq_some] at hs
    exact h.copy hs.1 hmeets hs.2
  | wait t eventList =>
    simp only [Option.ite_none_right_eq_some] at hs
    exact h.wait hs.1 hmeets hs.2
  | item t => exact h.itemStep hs
  | wakeUp t => exact hmeets.elim
  | worker i => exact h.worker hs
  | workerWakeUp i =>
    obtain ⟨pool, hpool, rfl⟩ := Option.map_eq_some_iff.1 hs
    exact h.workerWakeUp hpool
  | finish t =>
    simp only [Option.ite_none_right_eq_some, Option.some.injEq] at hs
    obtain ⟨hkernel, rfl⟩ := hs
    refine h.goto (itemInv_idle rfl nofun fun _ => hmeets) fun j hj => ?_
    rwa [hkernel] at hj

theorem init_inv (n : Nat) : Inv n {} :=
  ⟨jobs_init (n + 1), rfl, ⟨fun _ => ⟨.nil, nofun⟩, nofun, nofun⟩, fun _ => itemInv_idle rfl nofun nofun, nofun, ⟨.nil, nofun⟩,
    ⟨.nil, nofun⟩, nofun⟩

theorem inv_invariant (n : Nat) : Invariant ((system n).meeting Meets) (Inv n) where
  init s hi := by
    obtain rfl := hi
    exact init_inv n
  step _ _ _ h hs := step_inv h hs.1 hs.2

/-- In runs that meet the conditions, with any number of work-groups and workers, a wait passes its barrier after the copies
of its events, and every job is run, awaited and deleted once. -/
theorem group_events_safe (n : Nat) (s : State) (hr : Reachable ((system n).meeting Meets) s) : Safe s :=
  ((inv_invariant n).reachable hr).safe

/-! ## One work-group and one worker -/

instance (s : State) (l : Label) : Decidable (Meets s l) :=
  match l with
  | .copy _ (some e) _ => inferInstanceAs (Decidable (e ∉ s.waited))
  | .copy _ none _ => .isTrue trivial
  | .wait _ eventList => inferInstanceAs (Decidable (eventList.Nodup ∧ ∀ e ∈ eventList, e ∉ s.waited))
  | .item _ | .worker _ | .workerWakeUp _ => .isTrue trivial
  | .wakeUp _ => .isFalse id
  | .finish t => inferInstanceAs (Decidable (∀ e < s.events, s.owner e = t → e ∈ s.waited))

/-- A step, if it meets the conditions. -/
def stepMeeting (n : Nat) (s : State) (l : Label) : Option State := if Meets s l then step (n + 1) s l else none

theorem stepMeeting_step (n : Nat) (s : State) (l : Label) (s' : State) (h : stepMeeting n s l = some s') :
    ((system n).meeting Meets).step s l s' := by
  unfold stepMeeting at h
  simp only [Option.ite_none_right_eq_some] at h
  exact h

/-- The state after a run from the start. -/
def after (step : State → Label → Option State) (ls : List Label) : State := (ls.foldlM step {}).getD {}

/-- A copy that the worker has done, and a wait for it. -/
def copyAndWait : List Label :=
  [.copy 0 none none] ++ List.replicate 7 (.worker 0) ++ [.wait 0 [0]] ++ List.replicate 4 (.item 0)

theorem group_events_safe_one :
    ∃ s, Reachable ((system 0).meeting Meets) s ∧ s.items 0 = .ended ∧ s.passed = [[0]] ∧ Safe s := by
  have hr : Reachable ((system 0).meeting Meets) (after (stepMeeting 0) (copyAndWait ++ [.finish 0])) :=
    .getD_foldlM (stepMeeting_step 0) rfl rfl
  exact ⟨_, hr, rfl, rfl, group_events_safe 0 _ hr⟩

/-- The event is waited for again. -/
def waitTwice : List Label := copyAndWait ++ [.wait 0 [0], .item 0]

/-- The wait returns without a signal, before the copy has begun. -/
def wakeEarly : List Label :=
  [.copy 0 none none, .wait 0 [0], .item 0, .wakeUp 0] ++ List.replicate 4 (.item 0)

/-- A deleted job is used, or a barrier is passed before a copy that was waited for. -/
theorem group_events_unsafe : (∃ s, Reachable (system 0) s ∧ ¬ Safe s ∧ s.undefined = true) ∧
    ∃ s, Reachable (system 0) s ∧ ¬ Safe s ∧ s.passed = [[0]] ∧ s.pool.executed = [] := by
  refine ⟨⟨after (step 1) waitTwice, .getD_foldlM (fun _ _ _ => id) rfl rfl, fun h => ?_, rfl⟩,
    after (step 1) wakeEarly, .getD_foldlM (fun _ _ _ => id) rfl rfl, fun h => ?_, rfl, rfl⟩
  · cases h.defined.1
  · cases (h.passed [0] List.mem_cons_self 0 List.mem_cons_self).1

end OpenCRun.GroupEvents
