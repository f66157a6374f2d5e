import Mathlib.Algebra.Group.Nat.Defs
import Mathlib.Data.Multiset.AddSub
import Mathlib.Data.Multiset.Count
import OpenCRun.Lib.Runs
/-!
# Reference counts

Threads retain and release an object in any order. `Release` is an atomic
subtraction and then a test of the value it gave; other threads run in between.
A reference belongs to a holder, and a holder gives back only what it took. No
constructor counts a reference of its own.
-/
namespace OpenCRun

/-- `Refs` is an `llvm::sys::cas_flag`, of 32 bits. `MTRefCountedBaseVPTR` differs in its destructor only. -/
structure MTRefCountedBase where
  refs : BitVec 32
  deriving DecidableEq, Repr

abbrev MTRefCountedBaseVPTR := MTRefCountedBase

namespace MTRefCountedBase

def create : MTRefCountedBase := ⟨0⟩

def retain (r : MTRefCountedBase) : MTRefCountedBase := ⟨r.refs + 1⟩

/-- `Refs.fetch_sub(1)` gives the value before the subtraction. -/
def fetchSub (r : MTRefCountedBase) : MTRefCountedBase × BitVec 32 := (⟨r.refs - 1⟩, r.refs)

/-- What `Release` tests before it deletes the object. -/
def isLast (fetched : BitVec 32) : Bool := fetched == 0

/-! ## Threads -/

structure State (T H : Type) where
  object : MTRefCountedBase
  /-- The references taken and not given back, by holder. -/
  outstanding : Multiset H
  /-- The threads inside `Release` that have not tested the value they fetched. -/
  releasing : Multiset (T × BitVec 32)
  deleted : Nat
  /-- How often the outstanding references dropped to zero. -/
  dropped : Nat

inductive Op (T H : Type) where
  | retain (t : T) (h : H)
  | fetchSub (t : T) (h : H)
  | test (t : T) (fetched : BitVec 32)

variable {T H : Type}

namespace State

def initial : State T H := ⟨create, 0, 0, 0, 0⟩

/-- A thread outside `Release`, on an object that is still there. -/
def Free (s : State T H) (t : T) : Prop := s.deleted = 0 ∧ ∀ p ∈ s.releasing, p.1 ≠ t

def Enabled (s : State T H) : Op T H → Prop
  | .retain t _ => s.Free t
  | .fetchSub t h => s.Free t ∧ h ∈ s.outstanding
  | .test t fetched => (t, fetched) ∈ s.releasing

/-- The threads that are going to delete the object. -/
def deleting (s : State T H) : Nat := s.releasing.countP (fun p => isLast p.2)

/-- Each time the last reference was given back, and at no other time, a thread set out to delete
the object. -/
def Exact (s : State T H) : Prop := s.deleted + s.deleting = s.dropped

/-- The counter is that of the outstanding references, as far as 32 bits hold it. -/
def Counts (s : State T H) : Prop := s.object.refs = BitVec.ofNat 32 s.outstanding.card

/-- The test is of the value before the subtraction, so it takes the last reference for one of others. -/
theorem isLast_refs {s : State T H} (hs : s.Counts) : isLast s.object.refs = true ↔ 2 ^ 32 ∣ s.outstanding.card := by
  unfold isLast
  rw [beq_iff_eq, hs, ← BitVec.toNat_inj, BitVec.toNat_ofNat]
  exact (Nat.dvd_iff_mod_eq_zero).symm

theorem countP_isLast_cons (m : Multiset (T × BitVec 32)) (t : T) (fetched : BitVec 32) :
    ((t, fetched) ::ₘ m).countP (fun p => isLast p.2) =
      m.countP (fun p => isLast p.2) + if isLast fetched then 1 else 0 :=
  Multiset.countP_cons _ _ _

theorem initial_counts : (initial : State T H).Counts := rfl

theorem initial_exact : (initial : State T H).Exact := rfl

variable [DecidableEq T] [DecidableEq H]

instance (s : State T H) (t : T) : Decidable (s.Free t) := inferInstanceAs (Decidable (_ ∧ _))

instance (s : State T H) (o : Op T H) : Decidable (s.Enabled o) :=
  match o with
  | .retain t _ => inferInstanceAs (Decidable (s.Free t))
  | .fetchSub _ _ => inferInstanceAs (Decidable (_ ∧ _))
  | .test t fetched => inferInstanceAs (Decidable ((t, fetched) ∈ s.releasing))

def next (s : State T H) : Op T H → State T H
  | .retain _ h => { s with object := s.object.retain, outstanding := h ::ₘ s.outstanding }
  | .fetchSub t h =>
    -- The subtraction; the test comes later, and other threads may take steps in between.
    let (object, fetched) := s.object.fetchSub
    let left := s.outstanding.erase h
    { s with object, outstanding := left, releasing := (t, fetched) ::ₘ s.releasing
             dropped := if left.card = 0 then s.dropped + 1 else s.dropped }
  | .test t fetched =>
    { s with releasing := s.releasing.erase (t, fetched)
             deleted := if isLast fetched then s.deleted + 1 else s.deleted }

/-- A step that cannot be taken leaves the state. -/
def run (s : State T H) (o : Op T H) : State T H := if s.Enabled o then s.next o else s

/-- A reference is given back that is the only one, or one of a multiple of 2^32. -/
def Misjudged (s : State T H) (o : Op T H) : Prop :=
  s.Enabled o ∧ (∃ t h, o = .fetchSub t h) ∧ (s.outstanding.card = 1 ∨ 2 ^ 32 ∣ s.outstanding.card)

/-! ## What a step does -/

theorem run_enabled {s : State T H} {o : Op T H} (h : s.Enabled o) : s.run o = s.next o := if_pos h

theorem run_counts (s : State T H) (o : Op T H) (hs : s.Counts) : (s.run o).Counts := by
  unfold run
  split
  · next he =>
    unfold Counts at hs ⊢
    cases o with
    | retain t h =>
      simp only [next, MTRefCountedBase.retain, Multiset.card_cons, hs]
      rw [BitVec.ofNat_add]
      rfl
    | fetchSub t h =>
      simp only [next, MTRefCountedBase.fetchSub, hs]
      rw [← Multiset.card_erase_add_one he.2, BitVec.ofNat_add]
      exact BitVec.add_sub_cancel _ _
    | test t fetched => exact hs
  · exact hs

/-- A thread that tests what it fetched deletes the object if it set out to. -/
theorem test_exact {s : State T H} {t : T} {fetched : BitVec 32} (he : (t, fetched) ∈ s.releasing) :
    (s.next (.test t fetched)).Exact ↔ s.Exact := by
  have hsplit : s.deleting =
      (s.releasing.erase (t, fetched)).countP (fun p => isLast p.2) + if isLast fetched then 1 else 0 := by
    rw [deleting, ← countP_isLast_cons, Multiset.cons_erase he]
  simp only [Exact, next, hsplit]
  simp only [deleting]
  split <;> omega

/-- Giving back a reference is exact unless the counter misjudges which one it is. -/
theorem fetchSub_exact {s : State T H} (hs : s.Counts) (hexact : s.Exact) {t : T} {h : H} (hh : h ∈ s.outstanding) :
    (s.next (.fetchSub t h)).Exact ↔ ¬ (s.outstanding.card = 1 ∨ 2 ^ 32 ∣ s.outstanding.card) := by
  have hpos : 0 < s.outstanding.card := Multiset.card_pos_iff_exists_mem.2 ⟨h, hh⟩
  have hleft : (s.outstanding.erase h).card = s.outstanding.card - 1 := Multiset.card_erase_of_mem hh
  have hlast := isLast_refs hs
  unfold Exact at hexact
  simp only [Exact, next, MTRefCountedBase.fetchSub, hleft]
  rw [deleting, countP_isLast_cons, ← deleting]
  by_cases hdvd : 2 ^ 32 ∣ s.outstanding.card
  · -- so many references are never the last one
    have hmany := Nat.le_of_dvd hpos hdvd
    rw [if_pos (hlast.2 hdvd), if_neg (by omega)]
    simp only [hdvd, or_true, not_true_eq_false, iff_false]
    omega
  · rw [if_neg (fun hl => hdvd (hlast.1 hl))]
    by_cases hone : s.outstanding.card = 1
    · rw [if_pos (by omega)]
      simp only [hone, true_or, not_true_eq_false, iff_false]
      omega
    · rw [if_neg (by omega)]
      simp only [hone, hdvd, or_self, not_false_eq_true, iff_true]
      omega

theorem run_exact {s : State T H} {o : Op T H} (hs : s.Counts) (hexact : s.Exact) :
    (s.run o).Exact ↔ ¬ s.Misjudged o := by
  by_cases he : s.Enabled o
  · rw [run_enabled he]
    cases o with
    | retain t h =>
      have hkeeps : (s.next (.retain t h)).Exact := hexact
      simpa [Misjudged] using hkeeps
    | fetchSub t h =>
      rw [fetchSub_exact hs hexact he.2]
      simp only [Misjudged, he, true_and]
      exact not_congr ⟨fun h => ⟨⟨_, _, rfl⟩, h⟩, And.right⟩
    | test t fetched =>
      rw [test_exact he]
      simpa [Misjudged] using hexact
  · rw [run, if_neg he]
    exact ⟨fun _ hm => he hm.1, fun _ => hexact⟩

/-! ## All interleavings -/

/-- The object is deleted when the outstanding references drop to zero, and only then, all along a
run in which none is given back that is the only one, or one of a multiple of 2^32. -/
theorem deleted_at_last_release_iff (ops : List (Op T H)) :
    (∀ done, done <+: ops → (done.foldl run (initial : State T H)).Exact) ↔
      ∀ done o, done ++ [o] <+: ops → ¬ (done.foldl run (initial : State T H)).Misjudged o :=
  Lib.Runs.prefixes_iff run initial_counts initial_exact run_counts
    (fun _ _ => run_exact) ops

/-- One holder takes a reference and gives it back. -/
theorem last_release_leaks :
    ¬ ∀ ops : List (Op Unit Unit), ∀ done, done <+: ops → (done.foldl run (initial : State Unit Unit)).Exact := by
  intro hall
  have := hall [.retain () (), .fetchSub () (), .test () 1] _ (List.prefix_refl _)
  revert this
  unfold Exact deleting
  decide

end State

end MTRefCountedBase

end OpenCRun
