import Mathlib.Data.Int.Order.Basic
/-!
# Event statuses

`Event.cpp`. A status only ever goes down, from `CL_QUEUED` to `CL_COMPLETE` or
below it to an error, and a completed event stays completed.
-/
namespace OpenCRun

namespace EventStatus

/-! Execution statuses are integers; negative ones are errors. -/

def complete : Int := 0
def running : Int := 1
def submitted : Int := 2
def queued : Int := 3

def hasCompleted (status : Int) : Bool := status == complete || decide (status < 0)

def isError (status : Int) : Bool := decide (status < 0)

/-- `Event::Signal`: a logically previous event that comes late is filtered out. -/
def signal (current status : Int) : Int := if current > status then status else current

/-- `InternalEvent::MarkSubmitted`. -/
def markSubmitted (current : Int) : Int := signal current submitted

/-- `InternalEvent::MarkRunning`. -/
def markRunning (current : Int) : Int := signal current running

/-- `InternalEvent::MarkCompleted`. -/
def markCompleted (current status : Int) : Int :=
  if status != complete && decide (status ≥ 0) then current else signal current status

/-- `UserEvent::SetStatus`, and whether it set it. -/
def setStatus (current status : Int) : Int × Bool :=
  if current != submitted then (current, false) else (signal current status, true)

theorem hasCompleted_iff {s : Int} : hasCompleted s = true ↔ s ≤ 0 := by
  simp only [hasCompleted, complete, Bool.or_eq_true, beq_iff_eq, decide_eq_true_eq]
  omega

theorem signal_eq_min (current status : Int) : signal current status = min current status := by
  unfold signal
  split <;> omega

theorem signal_le (current status : Int) : signal current status ≤ current := by
  rw [signal_eq_min]
  exact min_le_left _ _

theorem hasCompleted_signal {current : Int} (status : Int) (h : hasCompleted current = true) :
    hasCompleted (signal current status) = true := by
  rw [hasCompleted_iff] at h ⊢
  exact le_trans (signal_le current status) h

end EventStatus

end OpenCRun
