import Mathlib.Data.List.Count
import OpenCRun.Core.EventObject
/-!
# Delivery of callbacks

A callback is due once the status is at or past the one it was registered for.
The ones that wait are stored under that status, and a signal calls those under
its own value: all is well as long as no signal jumps over a status that some
wait for, and none comes again for one whose callbacks have been called.
-/
namespace OpenCRun.Event

open EventStatus

variable {ty : EventType}

/-- Each callback has been called once for each time it was registered, if it is due, and never if it is not. -/
def Delivered (e : Event ty) : Prop :=
  ∀ callback callbackType, e.notified.count (callback, callbackType) =
    if e.status ≤ callbackType then e.registered.count (callback, callbackType) else 0

/-- A call that signals past a status that callbacks wait for, or again the status of some that were called. -/
def Misdelivers (e : Event ty) (c : Call ty) : Prop :=
  ∃ status callbackType, c.signals e = some status ∧ e.callbacks callbackType ≠ [] ∧
    (status < callbackType ∧ callbackType < e.status ∨ callbackType = status ∧ e.status ≤ callbackType)

/-- What the containers hold: of a status not yet reached, all that was registered and not called. -/
def Stored (e : Event ty) : Prop :=
  ∀ callback callbackType, callbackType < e.status →
    (e.callbacks callbackType).count callback = e.registered.count (callback, callbackType) ∧
      e.notified.count (callback, callbackType) = 0

theorem count_map_pair (l : List EventCallbackClojure) (status : Int) (callback : EventCallbackClojure)
    (callbackType : Int) :
    (l.map (fun c => (c, status))).count (callback, callbackType) =
      if callbackType = status then l.count callback else 0 := by
  split
  · rename_i h
    rw [h]
    exact List.count_map_of_injective l _ (fun _ _ he => (Prod.mk.inj he).1) callback
  · rename_i h
    rw [List.count_eq_zero]
    intro hm
    obtain ⟨c, -, he⟩ := List.mem_map.1 hm
    exact h (Prod.mk.inj he).2.symm

theorem notified_signal (e : Event ty) (status : Int) (callback : EventCallbackClojure) (callbackType : Int) :
    (e.signal status).notified.count (callback, callbackType) =
      e.notified.count (callback, callbackType) +
        if callbackType = status then (e.callbacks callbackType).count callback else 0 := by
  simp only [signal, List.count_append, count_map_pair]
  split
  · rename_i h
    rw [h]
  · rfl

theorem stored_signal {e : Event ty} (h : Stored e) (status : Int) : Stored (e.signal status) := by
  intro callback callbackType hlt
  have hmin : callbackType < min e.status status := by
    rw [← signal_eq_min]
    exact hlt
  obtain ⟨hc, hn⟩ := h callback callbackType (lt_of_lt_of_le hmin (min_le_left _ _))
  refine ⟨hc, ?_⟩
  rw [notified_signal, hn, if_neg (lt_of_lt_of_le hmin (min_le_right _ _)).ne]

theorem stored_addEventCallback {e : Event ty} (h : Stored e) (type : Int) (added : EventCallbackClojure) :
    Stored (e.addEventCallback type added) := by
  intro callback callbackType hlt
  unfold addEventCallback at hlt ⊢
  split at hlt
  · rename_i hle
    have hne : (added, type) ≠ (callback, callbackType) := fun he => absurd hle (by
      rw [(Prod.mk.inj he).2]
      exact not_le.2 hlt)
    obtain ⟨hc, hn⟩ := h callback callbackType hlt
    simp only [hle, if_true, List.count_append, List.count_singleton, beq_iff_eq, hne, if_false, Nat.add_zero]
    exact ⟨hc, hn⟩
  · rename_i hle
    obtain ⟨hc, hn⟩ := h callback callbackType hlt
    simp only [hle, if_false, List.count_append, List.count_singleton]
    refine ⟨?_, hn⟩
    split
    · rename_i heq
      rw [heq] at hc
      simp [List.count_append, List.count_singleton, hc, heq]
    · rename_i heq
      simp [hc, Ne.symm heq]

theorem stored_perform {e : Event ty} (h : Stored e) (c : Call ty) : Stored (c.perform e).1 := by
  cases hs : c.signals e with
  | some status =>
    rw [perform_of_signals e hs]
    exact stored_signal h status
  | none =>
    rcases perform_of_silent e hs with he | ⟨thread, he⟩ | ⟨type, callback, he⟩ <;> rw [he]
    · exact h
    · unfold wait
      split <;> exact h
    · exact stored_addEventCallback h type callback

/-! ## A step delivers what falls due -/

theorem delivered_addEventCallback {e : Event ty} (hd : Delivered e) (type : Int) (added : EventCallbackClojure) :
    Delivered (e.addEventCallback type added) := by
  intro callback callbackType
  have h := hd callback callbackType
  unfold addEventCallback
  split
  · rename_i hle
    simp only [List.count_append, List.count_singleton, h]
    by_cases hc : e.status ≤ callbackType
    · simp only [hc, if_true]
    · have hne : (added, type) ≠ (callback, callbackType) := fun he => hc (by rw [← (Prod.mk.inj he).2]; exact hle)
      simp [hc, hne]
  · rename_i hle
    simp only [List.count_append, List.count_singleton, h]
    by_cases hc : e.status ≤ callbackType
    · have hne : (added, type) ≠ (callback, callbackType) := fun he => hle (by rw [(Prod.mk.inj he).2]; exact hc)
      simp [hc, hne]
    · simp only [hc, if_false]

/-- Of the callbacks for one status: whether a signal leaves them as they should be. -/
theorem delivered_signal_iff {e : Event ty} (h : Stored e) (hd : Delivered e) (status : Int) :
    Delivered (e.signal status) ↔ ¬ ∃ callbackType, e.callbacks callbackType ≠ [] ∧
      (status < callbackType ∧ callbackType < e.status ∨ callbackType = status ∧ e.status ≤ callbackType) := by
  have hstatus : (e.signal status).status = min e.status status := signal_eq_min _ _
  have hreg : (e.signal status).registered = e.registered := rfl
  constructor
  · rintro hd' ⟨type, hne, hbad⟩
    obtain ⟨callback, hmem⟩ := List.exists_mem_of_ne_nil _ hne
    have hpos := List.count_pos_iff.2 hmem
    have h' := hd' callback type
    rw [notified_signal, hstatus, hreg, hd callback type] at h'
    rcases hbad with ⟨hlt, hlt'⟩ | ⟨rfl, hle⟩
    · -- jumped over: due, and not called
      rw [if_neg (not_le.2 hlt'), if_neg hlt.ne', if_pos ((min_le_right _ _).trans hlt.le),
        ← (h callback type hlt').1] at h'
      omega
    · -- called once more
      rw [if_pos hle, if_pos rfl, if_pos ((min_le_left _ _).trans hle)] at h'
      omega
  · intro hgood callback type
    have hnone : (status < type ∧ type < e.status ∨ type = status ∧ e.status ≤ type) →
        (e.callbacks type).count callback = 0 := by
      intro hbad
      by_contra hc
      refine hgood ⟨type, fun hnil => hc ?_, hbad⟩
      rw [hnil, List.count_nil]
    rw [notified_signal, hstatus, hreg, hd callback type]
    by_cases hle : e.status ≤ type
    · rw [if_pos hle, if_pos ((min_le_left _ _).trans hle)]
      split
      · rename_i heq
        rw [hnone (.inr ⟨heq, hle⟩), Nat.add_zero]
      · rfl
    · have hlt := not_le.1 hle
      rw [if_neg hle, Nat.zero_add, ← (h callback type hlt).1]
      by_cases heq : type = status
      · rw [if_pos heq, if_pos (heq ▸ min_le_right _ _)]
      · rw [if_neg heq]
        split
        · rename_i hmin
          have hs : status < type := by
            rcases min_le_iff.1 hmin with he | hs
            · exact absurd he hle
            · exact lt_of_le_of_ne hs (Ne.symm heq)
          exact (hnone (.inl ⟨hs, hlt⟩)).symm
        · rfl

theorem delivered_perform_iff {e : Event ty} (h : Stored e) (hd : Delivered e) (c : Call ty) :
    Delivered (c.perform e).1 ↔ ¬ Misdelivers e c := by
  cases hs : c.signals e with
  | some status =>
    rw [perform_of_signals e hs, delivered_signal_iff h hd]
    simp only [Misdelivers, hs, Option.some.injEq, exists_and_left, exists_eq_left']
  | none =>
    have hgood : ¬ Misdelivers e c := by
      rintro ⟨status, -, hs', -⟩
      rw [hs] at hs'
      cases hs'
    refine iff_of_true ?_ hgood
    rcases perform_of_silent e hs with he | ⟨thread, he⟩ | ⟨type, callback, he⟩ <;> rw [he]
    · exact hd
    · unfold wait
      split <;> exact hd
    · exact delivered_addEventCallback hd type callback

/-- All along a run each callback is called once and when it is due, exactly when no call of the run
signals past a status that callbacks wait for, or again one whose callbacks were called. -/
theorem delivered_iff (calls : List (Call ty)) :
    (∀ done, done <+: calls → Delivered (after done)) ↔
      ∀ done c, done ++ [c] <+: calls → ¬ Misdelivers (after done) c := by
  have hstored : Stored (create ty) := by
    intro callback callbackType _
    cases ty <;> exact ⟨rfl, rfl⟩
  have hdelivered : Delivered (create ty) := by
    intro callback callbackType
    cases ty <;> exact (ite_self _).symm
  exact Lib.Runs.prefixes_iff (fun e c => (Call.perform e c).1) hstored hdelivered
    (fun e c h => stored_perform h c) (fun e c h hd => delivered_perform_iff h hd c) calls

/-- A callback for completion is never called when the command fails. -/
theorem failure_skips_completion :
    ¬ ∀ done, done <+: [Call.setEventCallback complete (some 1) 0, Call.markCompleted (-5)] → Delivered (after done) := by
  intro h
  have hd := h _ (List.prefix_refl _) ⟨1, 0⟩ complete
  exact absurd hd (by decide)

end OpenCRun.Event
