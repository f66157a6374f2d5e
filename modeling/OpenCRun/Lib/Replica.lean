import Mathlib.Data.Set.Insert
import Mathlib.Logic.Basic
/-!
# Replicated memory

Several locations hold copies of the same addresses. The valid copies of an
address are meant to hold its latest value. Before an accessor works on one
location, a synchronisation refreshes that location from valid copies
(`Refreshes`) and then says which copies are valid from there on (`Synced`).
-/
namespace Lib.Replica

variable {L ι β : Type}

/-- What each location holds, which copies are valid, and what was written last, if anything was. -/
structure State (L ι β : Type) where
  mem : L → ι → β
  valid : ι → Set L
  latest : ι → Option β

def HoldsLatest (s : State L ι β) (l : L) (a : ι) : Prop := ∀ b, s.latest a = some b → s.mem l a = b

/-- Every valid copy of the address holds its latest value, and there is one once it was written. -/
structure Coherent (s : State L ι β) (a : ι) : Prop where
  holds : ∀ l ∈ s.valid a, HoldsLatest s l a
  live : s.latest a ≠ none → (s.valid a).Nonempty

/-! ## Refreshing a location -/

/-- `dst` takes the addresses of `A` from valid copies, as far as there are any. -/
structure Refreshes (valid : ι → Set L) (mem mem' : L → ι → β) (dst : L) (A : Set ι) : Prop where
  frame : ∀ l a, l ≠ dst ∨ a ∉ A → mem' l a = mem l a
  copied : ∀ a ∈ A, (valid a).Nonempty → ∃ l ∈ valid a, mem' dst a = mem l a
  kept : ∀ a, ¬ (valid a).Nonempty → mem' dst a = mem dst a

variable {valid : ι → Set L} {mem mem' mem'' : L → ι → β} {dst : L} {A B : Set ι}

/-- Nothing is copied where the location is valid already. -/
theorem Refreshes.of_valid (h : ∀ a ∈ A, (valid a).Nonempty → dst ∈ valid a) : Refreshes valid mem mem dst A :=
  ⟨fun _ _ _ => rfl, fun a ha hn => ⟨dst, h a ha hn, rfl⟩, fun _ _ => rfl⟩

theorem Refreshes.trans (h : Refreshes valid mem mem' dst A) (h' : Refreshes valid mem' mem'' dst B) :
    Refreshes valid mem mem'' dst (A ∪ B) := by
  -- every byte of `dst` between the two steps is its old one or that of a valid copy
  have mid : ∀ a, (valid a).Nonempty → mem' dst a = mem dst a ∨ ∃ l ∈ valid a, mem' dst a = mem l a := by
    intro a hn
    by_cases ha : a ∈ A
    · exact .inr (h.copied a ha hn)
    · exact .inl (h.frame dst a (.inr ha))
  refine ⟨fun l a hl => ?_, fun a ha hn => ?_, fun a hn => (h'.kept a hn).trans (h.kept a hn)⟩
  · have hl' : (l ≠ dst ∨ a ∉ A) ∧ (l ≠ dst ∨ a ∉ B) := by simpa [or_and_left] using hl
    exact (h'.frame l a hl'.2).trans (h.frame l a hl'.1)
  · by_cases hb : a ∈ B
    · obtain ⟨l, hl, he⟩ := h'.copied a hb hn
      by_cases hd : l = dst
      · subst hd
        rcases mid a hn with hm | ⟨k, hk, hm⟩
        · exact ⟨l, hl, he.trans hm⟩
        · exact ⟨k, hk, he.trans hm⟩
      · exact ⟨l, hl, he.trans (h.frame l a (.inl hd))⟩
    · obtain ⟨l, hl, he⟩ := h.copied a (ha.resolve_right hb) hn
      exact ⟨l, hl, (h'.frame dst a (.inr hb)).trans he⟩

/-! ## A synchronisation -/

/-- From `s` to `s'`, the copy at `sel` becomes valid for the addresses of `T` after it was
refreshed for those of `A`; when the accessor writes, all others become invalid. -/
structure Synced (s s' : State L ι β) (sel : L) (T A : Set ι) (writes : Prop) : Prop where
  refreshes : Refreshes s.valid s.mem s'.mem sel A
  valid : ∀ a l, l ∈ s'.valid a ↔ (a ∈ T ∧ l = sel) ∨ (l ∈ s.valid a ∧ ¬ (a ∈ T ∧ writes))
  latest : s'.latest = s.latest

variable {s s' : State L ι β} {sel : L} {T : Set ι} {writes : Prop} {a : ι}

/-- No copy loses a latest value. -/
theorem Synced.keeps (h : Synced s s' sel T A writes) (hc : Coherent s a) {l : L} (hl : HoldsLatest s l a) :
    HoldsLatest s' l a := by
  intro b hb
  rw [h.latest] at hb
  by_cases hm : l = sel ∧ a ∈ A
  · obtain ⟨rfl, ha⟩ := hm
    obtain ⟨k, hk, he⟩ := h.refreshes.copied a ha (hc.live (by simp [hb]))
    exact he.trans (hc.holds k hk b hb)
  · exact (h.refreshes.frame l a (not_and_or.1 hm)).trans (hl b hb)

/-- The refreshed addresses hold their latest value. -/
theorem Synced.fresh (h : Synced s s' sel T A writes) (hc : Coherent s a) (ha : a ∈ A) : HoldsLatest s' sel a := by
  intro b hb
  rw [h.latest] at hb
  obtain ⟨k, hk, he⟩ := h.refreshes.copied a ha (hc.live (by simp [hb]))
  exact he.trans (hc.holds k hk b hb)

/-- An address stays coherent if the copy that becomes valid is refreshed, or was the latest before. -/
theorem Synced.coherent (h : Synced s s' sel T A writes) (hc : Coherent s a)
    (hT : a ∈ T → a ∈ A ∨ HoldsLatest s sel a) : Coherent s' a := by
  refine ⟨fun l hl => ?_, fun hn => ?_⟩
  · rcases (h.valid a l).1 hl with ⟨ha, rfl⟩ | ⟨hv, -⟩
    · rcases hT ha with hA | hs
      · exact h.fresh hc hA
      · exact h.keeps hc hs
    · exact h.keeps hc (hc.holds l hv)
  · rw [h.latest] at hn
    obtain ⟨l, hl⟩ := hc.live hn
    by_cases ha : a ∈ T
    · exact ⟨sel, (h.valid a sel).2 (.inl ⟨ha, rfl⟩)⟩
    · exact ⟨l, (h.valid a l).2 (.inr ⟨hl, fun h => ha h.1⟩)⟩

/-- After a synchronisation for writing, the selected copy is the only one. -/
theorem Synced.valid_write (h : Synced s s' sel T A writes) (hw : writes) (ha : a ∈ T) : s'.valid a = {sel} := by
  ext l
  simp [h.valid, ha, hw]

/-! ## The access itself -/

variable [DecidableEq L]

/-- The accessor overwrites the addresses that `w` gives a value. -/
def State.overwrite (s : State L ι β) (dst : L) (w : ι → Option β) : State L ι β :=
  { s with
    mem := fun l a => if l = dst then (w a).getD (s.mem l a) else s.mem l a
    latest := fun a => (w a).or (s.latest a) }

theorem write_coherent {w : ι → Option β} (hw : w a ≠ none → s.valid a = {sel}) (hc : w a = none → Coherent s a) :
    Coherent (s.overwrite sel w) a := by
  cases hwa : w a with
  | none =>
    have h := hc hwa
    refine ⟨fun l hl b hb => ?_, fun hn => h.live (by simpa [State.overwrite, hwa] using hn)⟩
    simpa [State.overwrite, hwa] using h.holds l hl b (by simpa [State.overwrite, hwa] using hb)
  | some x =>
    have h := hw (by simp [hwa])
    refine ⟨fun l hl b hb => ?_, fun _ => ⟨sel, by simp [State.overwrite, h]⟩⟩
    have : l = sel := by simpa [State.overwrite, h] using hl
    simpa [State.overwrite, hwa, this] using hb

end Lib.Replica
