import Mathlib.Algebra.Order.Group.Nat
import Mathlib.Data.List.Basic
/-!
# Bytes in memory

Numbers as bytes, the lowest first, and what is loaded from a memory after
bytes have been stored in it. Addresses wrap around.
-/
namespace Lib.Bytes

/-- The lowest bytes of a number. -/
def toBytes : Nat → Nat → List (BitVec 8)
  | 0, _ => []
  | size + 1, n => BitVec.ofNat 8 n :: toBytes size (n / 256)

def ofBytes : List (BitVec 8) → Nat
  | [] => 0
  | b :: bs => b.toNat + 256 * ofBytes bs

@[simp] theorem length_toBytes (size n : Nat) : (toBytes size n).length = size := by
  induction size generalizing n with
  | zero => rfl
  | succ size ih => rw [toBytes, List.length_cons, ih]

theorem ofBytes_toBytes {size n : Nat} (h : n < 256 ^ size) : ofBytes (toBytes size n) = n := by
  induction size generalizing n with
  | zero =>
    rw [Nat.pow_zero] at h
    rw [toBytes, ofBytes]
    omega
  | succ size ih =>
    have hdiv : n / 256 < 256 ^ size := Nat.div_lt_of_lt_mul (by rwa [Nat.pow_succ, Nat.mul_comm] at h)
    rw [toBytes, ofBytes, ih hdiv, BitVec.toNat_ofNat]
    omega

theorem toBytes_inj {size n n' : Nat} (h : n < 256 ^ size) (h' : n' < 256 ^ size) :
    toBytes size n = toBytes size n' ↔ n = n' := by
  constructor
  · intro heq
    rw [← ofBytes_toBytes h, heq, ofBytes_toBytes h']
  · exact congrArg (toBytes size)

abbrev Memory (w : Nat) := BitVec w → BitVec 8

variable {w : Nat}

def load (m : Memory w) (a : BitVec w) (n : Nat) : List (BitVec 8) := (List.range n).map fun k => m (a + BitVec.ofNat w k)

def store (m : Memory w) (a : BitVec w) (bs : List (BitVec 8)) : Memory w := fun p => bs[(p - a).toNat]?.getD (m p)

@[simp] theorem length_load (m : Memory w) (a : BitVec w) (n : Nat) : (load m a n).length = n := by
  rw [load, List.length_map, List.length_range]

theorem getElem?_load (m : Memory w) (a : BitVec w) {n k : Nat} (hk : k < n) :
    (load m a n)[k]? = some (m (a + BitVec.ofNat w k)) := by
  rw [load, List.getElem?_map, List.getElem?_range hk, Option.map_some]

/-- Only the addresses of the bytes change. -/
theorem store_frame {m : Memory w} {a p : BitVec w} {bs : List (BitVec 8)}
    (h : ∀ k < bs.length, p ≠ a + BitVec.ofNat w k) : store m a bs p = m p := by
  have hlast : bs.length ≤ (p - a).toNat := by
    by_contra hlt
    refine h _ (not_le.1 hlt) ?_
    rw [BitVec.ofNat_toNat, BitVec.setWidth_eq, BitVec.add_comm, BitVec.sub_add_cancel]
  rw [store, List.getElem?_eq_none hlast, Option.getD_none]

theorem index_of_offset (a : BitVec w) (k : Nat) : (a + BitVec.ofNat w k - a).toNat = k % 2 ^ w := by
  rw [BitVec.add_comm, BitVec.add_sub_cancel, BitVec.toNat_ofNat]

/-- At the addresses of the bytes nothing is left of the memory. -/
theorem store_stored {m m' : Memory w} {a : BitVec w} {bs : List (BitVec 8)} {k : Nat} (hk : k < bs.length) :
    store m a bs (a + BitVec.ofNat w k) = store m' a bs (a + BitVec.ofNat w k) := by
  have hindex : (a + BitVec.ofNat w k - a).toNat < bs.length := by
    rw [index_of_offset]
    exact lt_of_le_of_lt (Nat.mod_le _ _) hk
  simp only [store, List.getElem?_eq_getElem hindex, Option.getD_some]

theorem store_at {m : Memory w} {a : BitVec w} {bs : List (BitVec 8)} (hlength : bs.length ≤ 2 ^ w) {k : Nat} {b : BitVec 8}
    (hb : bs[k]? = some b) : store m a bs (a + BitVec.ofNat w k) = b := by
  have hk : k < bs.length := (List.getElem?_eq_some_iff.1 hb).1
  rw [store, index_of_offset, Nat.mod_eq_of_lt (by omega), hb, Option.getD_some]

theorem exists_offset (a p : BitVec w) : ∃ k < 2 ^ w, p = a + BitVec.ofNat w k := by
  refine ⟨(p - a).toNat, (p - a).isLt, ?_⟩
  rw [BitVec.ofNat_toNat, BitVec.setWidth_eq, BitVec.add_comm, BitVec.sub_add_cancel]

theorem offset_inj {a : BitVec w} {j k : Nat} (hj : j < 2 ^ w) (hk : k < 2 ^ w)
    (h : a + BitVec.ofNat w j = a + BitVec.ofNat w k) : j = k := by
  have hnat := congrArg BitVec.toNat ((BitVec.add_right_inj a).1 h)
  rwa [BitVec.toNat_ofNat, BitVec.toNat_ofNat, Nat.mod_eq_of_lt hj, Nat.mod_eq_of_lt hk] at hnat

/-- Bytes that follow those of a store. -/
theorem store_append (m : Memory w) (a : BitVec w) {bs cs : List (BitVec 8)} (h : bs.length + cs.length ≤ 2 ^ w) :
    store m a (bs ++ cs) = store (store m a bs) (a + BitVec.ofNat w bs.length) cs := by
  have hboth : (bs ++ cs).length ≤ 2 ^ w := List.length_append ▸ h
  have hshift : ∀ j, a + BitVec.ofNat w (bs.length + j) = a + BitVec.ofNat w bs.length + BitVec.ofNat w j := fun j => by
    rw [BitVec.ofNat_add, BitVec.add_assoc]
  funext p
  obtain ⟨k, hk, rfl⟩ := exists_offset a p
  by_cases hlast : k < bs.length + cs.length
  · rcases lt_or_ge k bs.length with hbs | hcs
    · have hb := List.getElem?_eq_getElem hbs
      rw [store_at hboth ((List.getElem?_append_left hbs).trans hb), store_frame, store_at (by omega) hb]
      intro j hj heq
      rw [← hshift] at heq
      have hkj := offset_inj hk (by omega) heq
      omega
    · obtain ⟨j, rfl⟩ := Nat.exists_eq_add_of_le hcs
      have hj : j < cs.length := by omega
      have hc := List.getElem?_eq_getElem hj
      have hboth_j : (bs ++ cs)[bs.length + j]? = some cs[j] := by
        rw [List.getElem?_append_right hcs, Nat.add_sub_cancel_left, hc]
      rw [store_at hboth hboth_j, hshift, store_at (by omega) hc]
  · rw [store_frame, store_frame, store_frame]
    · intro j hj heq
      have hkj := offset_inj hk (by omega) heq
      omega
    · intro j hj heq
      rw [← hshift] at heq
      have hkj := offset_inj hk (by omega) heq
      omega
    · intro j hj heq
      rw [List.length_append] at hj
      have hkj := offset_inj hk (by omega) heq
      omega

/-- What has been stored, or a part of it, is loaded. -/
theorem load_store {m : Memory w} {a : BitVec w} {bs : List (BitVec 8)} (hlength : bs.length ≤ 2 ^ w) {i n : Nat}
    (h : i + n ≤ bs.length) : load (store m a bs) (a + BitVec.ofNat w i) n = (bs.drop i).take n := by
  refine List.ext_getElem? fun k => ?_
  by_cases hk : k < n
  · have hdiff : (a + BitVec.ofNat w i + BitVec.ofNat w k - a).toNat = i + k := by
      rw [BitVec.add_assoc, ← BitVec.ofNat_add, index_of_offset]
      exact Nat.mod_eq_of_lt (by omega)
    have hlt : i + k < bs.length := by omega
    rw [getElem?_load _ _ hk, store, hdiff, List.getElem?_take_of_lt hk, List.getElem?_drop, List.getElem?_eq_getElem hlt]
    rfl
  · rw [List.getElem?_eq_none (by rw [length_load]; omega),
      List.getElem?_eq_none (by rw [List.length_take]; omega)]

@[simp] theorem store_nil (m : Memory w) (a : BitVec w) : store m a [] = m := rfl

theorem load_store_all (m : Memory w) (a : BitVec w) {bs : List (BitVec 8)} {n : Nat} (hn : bs.length = n)
    (hlength : n ≤ 2 ^ w) : load (store m a bs) a n = bs := by
  subst hn
  have hall := load_store (m := m) (a := a) (i := 0) hlength (Nat.zero_add _).le
  rwa [BitVec.add_zero, List.drop_zero, List.take_length] at hall

/-- A part of what is loaded is loaded from there. -/
theorem take_drop_load {m : Memory w} {a : BitVec w} {i n size : Nat} (h : i + size ≤ n) :
    ((load m a n).drop i).take size = load m (a + BitVec.ofNat w i) size := by
  refine List.ext_getElem? fun k => ?_
  rcases Nat.lt_or_ge k size with hk | hk
  · rw [List.getElem?_take_of_lt hk, List.getElem?_drop, getElem?_load _ _ (by omega), getElem?_load _ _ hk,
      BitVec.ofNat_add, BitVec.add_assoc]
  · rw [List.getElem?_eq_none (by rw [List.length_take]; omega), List.getElem?_eq_none (by rw [length_load]; exact hk)]

/-- The pieces of a list that is put together from pieces of one length. -/
theorem take_drop_flatMap {α β : Type} {f : α → List β} {size : Nat} (hf : ∀ a, (f a).length = size) (l : List α) {i : Nat}
    {a : α} (h : l[i]? = some a) : ((l.flatMap f).drop (i * size)).take size = f a := by
  induction l generalizing i with
  | nil => cases h
  | cons b l ih =>
    rw [List.flatMap_cons]
    cases i with
    | zero =>
      obtain rfl := Option.some.inj h
      rw [Nat.zero_mul, List.drop_zero, List.take_append_of_le_length (hf b).ge, List.take_of_length_le (hf b).le]
    | succ i =>
      have hsucc : (i + 1) * size = (f b).length + i * size := by rw [hf, Nat.succ_mul, Nat.add_comm]
      rw [hsucc, List.drop_length_add_append]
      exact ih h

theorem length_flatMap {α β : Type} {f : α → List β} {size : Nat} (hf : ∀ a, (f a).length = size) (l : List α) :
    (l.flatMap f).length = l.length * size := by
  induction l with
  | nil => rw [List.flatMap_nil, List.length_nil, List.length_nil, Nat.zero_mul]
  | cons a l ih => rw [List.flatMap_cons, List.length_append, ih, hf, List.length_cons, Nat.succ_mul, Nat.add_comm]

/-- Pieces of one length are told apart. -/
theorem flatMap_inj_iff {α β : Type} {f g : α → List β} {size : Nat} (hf : ∀ a, (f a).length = size)
    (hg : ∀ a, (g a).length = size) (l : List α) : l.flatMap f = l.flatMap g ↔ ∀ a ∈ l, f a = g a := by
  induction l with
  | nil => simp
  | cons a l ih =>
    rw [List.flatMap_cons, List.flatMap_cons, List.forall_mem_cons, ← ih]
    constructor
    · exact fun h => List.append_inj h ((hf a).trans (hg a).symm)
    · rintro ⟨hhead, htail⟩
      rw [hhead, htail]

/-- A number of some that have been stored one after the other. -/
theorem load_store_number {m : Memory w} {a : BitVec w} {size : Nat} {ns : List Nat} (hlength : ns.length * size ≤ 2 ^ w)
    {i n : Nat} (hn : ns[i]? = some n) (hlt : n < 256 ^ size) :
    ofBytes (load (store m a (ns.flatMap (toBytes size))) (a + BitVec.ofNat w (i * size)) size) = n := by
  have hall : (ns.flatMap (toBytes size)).length = ns.length * size := length_flatMap (length_toBytes size) ns
  have hi : i < ns.length := (List.getElem?_eq_some_iff.1 hn).1
  have hle : i * size + size ≤ ns.length * size := by
    rw [← Nat.succ_mul]
    exact Nat.mul_le_mul_right size hi
  rw [load_store (hall ▸ hlength) (hall ▸ hle), take_drop_flatMap (length_toBytes size) ns hn, ofBytes_toBytes hlt]

end Lib.Bytes
