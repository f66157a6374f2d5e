import Mathlib.Data.Set.Lattice
import Mathlib.Order.CompletePartialOrder
import OpenCRun.Lib.Bytes
/-!
# Footprints of updates

An update of a memory with the addresses that it writes and those that it
reads. Updates one after the other are an update. If they write apart, and read
what none of them writes, each leaves what it leaves alone.
-/
namespace Lib.Footprint

variable {A V ι : Type}

structure Update (A V : Type) where
  run : (A → V) → A → V
  writes : Set A
  reads : Set A
  frame : ∀ m, ∀ a ∉ writes, run m a = m a
  depends : ∀ m m', Set.EqOn m m' reads → Set.EqOn (run m) (run m') writes

namespace Update

def nothing : Update A V where
  run m := m
  writes := ∅
  reads := ∅
  frame _ _ _ := rfl
  depends _ _ _ := Set.eqOn_empty _ _

/-- What the second update reads, the first one has written or has left as it was. -/
theorem eqOn_run (u : Update A V) {m m' : A → V} {s : Set A} (hreads : Set.EqOn m m' u.reads) (hs : Set.EqOn m m' s) :
    Set.EqOn (u.run m) (u.run m') s := by
  intro a ha
  by_cases hw : a ∈ u.writes
  · exact u.depends m m' hreads hw
  · rw [u.frame m a hw, u.frame m' a hw]
    exact hs ha

def andThen (u v : Update A V) : Update A V where
  run m := v.run (u.run m)
  writes := u.writes ∪ v.writes
  reads := u.reads ∪ v.reads
  frame m a ha := by
    rw [Set.mem_union, not_or] at ha
    rw [v.frame _ a ha.2, u.frame m a ha.1]
  depends m m' h := by
    rw [Set.eqOn_union] at h
    have hmid : Set.EqOn (u.run m) (u.run m') v.reads := u.eqOn_run h.1 h.2
    rw [Set.eqOn_union]
    exact ⟨v.eqOn_run hmid (u.depends m m' h.1), v.depends _ _ hmid⟩

/-- Updates in turn. -/
def all : List (Update A V) → Update A V
  | [] => nothing
  | u :: us => u.andThen (all us)

theorem mem_all_writes {f : ι → Update A V} {is : List ι} {a : A} :
    a ∈ (all (is.map f)).writes ↔ ∃ i ∈ is, a ∈ (f i).writes := by
  induction is with
  | nil => simp [all, nothing]
  | cons i is ih => simp [all, andThen, ih]

theorem mem_all_reads {f : ι → Update A V} {is : List ι} {a : A} :
    a ∈ (all (is.map f)).reads ↔ ∃ i ∈ is, a ∈ (f i).reads := by
  induction is with
  | nil => simp [all, nothing]
  | cons i is ih => simp [all, andThen, ih]

/-- Of updates that do not interfere, each leaves what it leaves alone. -/
theorem all_run_of_mem {f : ι → Update A V} {is : List ι} (hnodup : is.Nodup)
    (hwrites : ∀ i ∈ is, ∀ j ∈ is, i ≠ j → Disjoint (f i).writes (f j).writes)
    (hreads : ∀ i ∈ is, ∀ j ∈ is, Disjoint (f i).reads (f j).writes) {i : ι} (hi : i ∈ is) {a : A}
    (ha : a ∈ (f i).writes) (m : A → V) : (all (is.map f)).run m a = (f i).run m a := by
  induction is generalizing m with
  | nil => cases hi
  | cons k is ih =>
    obtain ⟨hk, hnodup⟩ := List.nodup_cons.1 hnodup
    have hwrites' : ∀ i ∈ is, ∀ j ∈ is, i ≠ j → Disjoint (f i).writes (f j).writes := fun i hi j hj =>
      hwrites i (List.mem_cons_of_mem k hi) j (List.mem_cons_of_mem k hj)
    have hreads' : ∀ i ∈ is, ∀ j ∈ is, Disjoint (f i).reads (f j).writes := fun i hi j hj =>
      hreads i (List.mem_cons_of_mem k hi) j (List.mem_cons_of_mem k hj)
    change (all (is.map f)).run ((f k).run m) a = (f i).run m a
    rcases List.mem_cons.1 hi with rfl | hi
    · -- none of the later ones writes there
      refine (all (is.map f)).frame _ a fun hlater => ?_
      obtain ⟨j, hj, haj⟩ := mem_all_writes.1 hlater
      have hne : i ≠ j := fun h => hk (h ▸ hj)
      exact Set.disjoint_left.1 (hwrites i List.mem_cons_self j (List.mem_cons_of_mem i hj) hne) ha haj
    · -- what it reads is not written before it
      rw [ih hnodup hwrites' hreads' hi]
      refine (f i).depends _ _ (fun b hb => (f k).frame m b fun hbk => ?_) ha
      exact Set.disjoint_left.1 (hreads i (List.mem_cons_of_mem k hi) k List.mem_cons_self) hb hbk

end Update

/-! ## Bytes -/

open Lib.Bytes

variable {w : Nat}

/-- The addresses of some bytes. -/
def range (a : BitVec w) (n : Nat) : Set (BitVec w) := { p | ∃ k < n, p = a + BitVec.ofNat w k }

theorem load_congr {m m' : Memory w} {a : BitVec w} {n : Nat} (h : Set.EqOn m m' (range a n)) : load m a n = load m' a n := by
  unfold load
  exact List.map_congr_left fun k hk => h ⟨k, List.mem_range.1 hk, rfl⟩

/-- Bytes that do not depend on the memory. -/
def storing (a : BitVec w) (bs : List (BitVec 8)) : Update (BitVec w) (BitVec 8) where
  run m := store m a bs
  writes := range a bs.length
  reads := ∅
  frame m p hp := store_frame fun k hk h => hp ⟨k, hk, h⟩
  depends m m' _ := by
    rintro _ ⟨k, hk, rfl⟩
    exact store_stored hk

def copying (target source : BitVec w) (n : Nat) : Update (BitVec w) (BitVec 8) where
  run m := store m target (load m source n)
  writes := range target n
  reads := range source n
  frame m p hp := store_frame fun k hk h => hp ⟨k, by rwa [length_load] at hk, h⟩
  depends m m' h := by
    rintro _ ⟨k, hk, rfl⟩
    rw [load_congr h]
    exact store_stored (by rwa [length_load])

theorem copying_run (m : Memory w) (target source : BitVec w) {n k : Nat} (hn : n ≤ 2 ^ w) (hk : k < n) :
    (copying target source n).run m (target + BitVec.ofNat w k) = m (source + BitVec.ofNat w k) :=
  store_at (by rwa [length_load]) (getElem?_load m source hk)

end Lib.Footprint
