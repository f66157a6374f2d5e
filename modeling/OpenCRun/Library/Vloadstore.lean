import OpenCRun.Lib.Footprint
import OpenCRun.Library.ConvertReal
/-!
# Loads and stores of vectors

The bodies of `Vloadstore.td` step over elements, and then access a whole
vector: of three components that is four elements, and a vector is aligned to
its size.
-/
open Lib Lib.Bytes Lib.Footprint

namespace OpenCRun.Library.Vloadstore

/-! ## Vectors -/

/-- The members of `ocl_sgentype_vldst`. -/
inductive Element where
  | integer (t : CInteger.IntType)
  | real (r : RealType)
  deriving DecidableEq, Repr

def Element.size : Element → Nat
  | integer t => t.width / 8
  | real .float => 4
  | real .double => 8

/-- The numbers of components. -/
inductive Width where
  | two | three | four | eight | sixteen
  deriving DecidableEq, Repr

def Width.lanes : Width → Nat
  | two => 2
  | three => 3
  | four => 4
  | eight => 8
  | sixteen => 16

/-- The elements that a vector occupies. -/
def Width.slots : Width → Nat
  | three => 4
  | n => n.lanes

/-- `sizeof` of a vector, which is its alignment too. -/
def sizeof (e : Element) (n : Width) : Nat := n.slots * e.size

/-- A vector by its bytes. Those of a vector of three components have a rest that no lane has. -/
@[ext] structure Vector (e : Element) (n : Width) where
  bytes : List (BitVec 8)
  length_bytes : bytes.length = sizeof e n

def Vector.lane {e : Element} {n : Width} (v : Vector e n) (k : Nat) : List (BitVec 8) :=
  (v.bytes.drop (k * e.size)).take e.size

/-! ## The code -/

abbrev Address := BitVec 64

/-- What is loaded, and where from. -/
structure Fetch (α : Type) where
  value : Memory 64 → α
  reads : Set Address

/-- `*(const RETTYPE *)a` -/
def deref (e : Element) (n : Width) (a : Address) : Checked (Fetch (Vector e n)) := do
  Checked.check (a.toNat % sizeof e n == 0)
  pure ⟨fun m => ⟨load m a (sizeof e n), length_load m a _⟩, range a (sizeof e n)⟩

/-- `*(RETTYPE *)a = v` -/
def assign {e : Element} {n : Width} (a : Address) (v : Vector e n) : Checked (Update Address (BitVec 8)) := do
  Checked.check (a.toNat % sizeof e n == 0)
  pure (storing a v.bytes)

/-- `p + k`, of a pointer to elements. -/
def index (e : Element) (p : Address) (k : BitVec 64) : Address := p + k * BitVec.ofNat 64 e.size

section Bodies
variable (e : Element)

-- The variants differ in the address space that they name.
def vload2 (param1 : BitVec 64) (param2 : Address) := deref e .two (index e param2 (param1 * 2))
def vload3 (param1 : BitVec 64) (param2 : Address) := deref e .three (index e param2 (param1 * 3))
def vload4 (param1 : BitVec 64) (param2 : Address) := deref e .four (index e param2 (param1 * 4))
def vload8 (param1 : BitVec 64) (param2 : Address) := deref e .eight (index e param2 (param1 * 8))
def vload16 (param1 : BitVec 64) (param2 : Address) := deref e .sixteen (index e param2 (param1 * 16))

def vstore2 (param1 : Vector e .two) (param2 : BitVec 64) (param3 : Address) := assign (index e param3 (param2 * 2)) param1
def vstore3 (param1 : Vector e .three) (param2 : BitVec 64) (param3 : Address) := assign (index e param3 (param2 * 3)) param1
def vstore4 (param1 : Vector e .four) (param2 : BitVec 64) (param3 : Address) := assign (index e param3 (param2 * 4)) param1
def vstore8 (param1 : Vector e .eight) (param2 : BitVec 64) (param3 : Address) := assign (index e param3 (param2 * 8)) param1
def vstore16 (param1 : Vector e .sixteen) (param2 : BitVec 64) (param3 : Address) :=
  assign (index e param3 (param2 * 16)) param1

end Bodies

def vload (e : Element) : (n : Width) → BitVec 64 → Address → Checked (Fetch (Vector e n))
  | .two => vload2 e
  | .three => vload3 e
  | .four => vload4 e
  | .eight => vload8 e
  | .sixteen => vload16 e

def vstore (e : Element) : (n : Width) → Vector e n → BitVec 64 → Address → Checked (Update Address (BitVec 8))
  | .two => vstore2 e
  | .three => vstore3 e
  | .four => vstore4 e
  | .eight => vstore8 e
  | .sixteen => vstore16 e

/-! ## Elements -/

/-- The address of `p[k]`. -/
def element (e : Element) (p : Address) (k : Nat) : Address := p + BitVec.ofNat 64 (k * e.size)

/-- The addresses of the elements that belong to one index. -/
def elements (e : Element) (n : Width) (i : BitVec 64) (p : Address) : Set Address :=
  { a | ∃ k < n.lanes, a ∈ range (element e p (n.lanes * i.toNat + k)) e.size }

/-- The elements of the index lie in the address space. -/
def InSpace (e : Element) (n : Width) (i : BitVec 64) (p : Address) : Prop :=
  p.toNat + n.lanes * (i.toNat + 1) * e.size ≤ 2 ^ 64

section Elements
variable {e : Element} {n : Width} {i j : BitVec 64} {p : Address}

theorem size_bounds (e : Element) : 0 < e.size ∧ e.size ≤ 8 := by
  rcases e with ⟨rank, signed⟩ | r
  · cases rank <;> cases signed <;> decide
  · cases r <;> decide

theorem sizeof_le (e : Element) (n : Width) : sizeof e n ≤ 2 ^ 64 := by
  have hslots : n.slots ≤ 16 := by cases n <;> decide
  calc n.slots * e.size ≤ 16 * 8 := Nat.mul_le_mul hslots (size_bounds e).2
    _ ≤ 2 ^ 64 := by decide

theorem lanes_le_slots (n : Width) : n.lanes ≤ n.slots := by cases n <;> decide

theorem index_eq (e : Element) (i : BitVec 64) (c : Nat) (p : Address) :
    index e p (i * BitVec.ofNat 64 c) = element e p (c * i.toNat) := by
  have hi : i = BitVec.ofNat 64 i.toNat := by rw [BitVec.ofNat_toNat, BitVec.setWidth_eq]
  unfold index element
  conv_lhs => rw [hi]
  rw [← BitVec.ofNat_mul, ← BitVec.ofNat_mul, Nat.mul_comm i.toNat]

theorem vload_eq (e : Element) (n : Width) (i : BitVec 64) (p : Address) :
    vload e n i p = deref e n (element e p (n.lanes * i.toNat)) := by
  cases n <;> exact congrArg (deref e _) (index_eq e i _ p)

theorem vstore_eq (v : Vector e n) (i : BitVec 64) (p : Address) :
    vstore e n v i p = assign (element e p (n.lanes * i.toNat)) v := by
  cases n <;> exact congrArg (assign · v) (index_eq e i _ p)

theorem element_add (e : Element) (p : Address) (c k : Nat) :
    element e p (c + k) = element e p c + BitVec.ofNat 64 (k * e.size) := by
  rw [element, element, Nat.add_mul, BitVec.ofNat_add, BitVec.add_assoc]

/-- The elements follow one another. -/
theorem elements_eq (e : Element) (n : Width) (i : BitVec 64) (p : Address) :
    elements e n i p = range (element e p (n.lanes * i.toNat)) (n.lanes * e.size) := by
  have hpos := (size_bounds e).1
  ext a
  constructor
  · rintro ⟨k, hk, b, hb, rfl⟩
    refine ⟨k * e.size + b, ?_, ?_⟩
    · calc k * e.size + b < k * e.size + e.size := Nat.add_lt_add_left hb _
        _ = (k + 1) * e.size := (Nat.succ_mul k e.size).symm
        _ ≤ n.lanes * e.size := Nat.mul_le_mul_right _ hk
    · rw [element_add, BitVec.ofNat_add, BitVec.add_assoc]
  · rintro ⟨c, hc, rfl⟩
    refine ⟨c / e.size, Nat.div_lt_of_lt_mul (by rwa [Nat.mul_comm]), c % e.size, Nat.mod_lt c hpos, ?_⟩
    rw [element_add, BitVec.add_assoc, ← BitVec.ofNat_add, Nat.div_add_mod']

/-- A vector of three components has one element more than lanes. -/
theorem range_sizeof_eq_iff (e : Element) (n : Width) (a : Address) :
    range a (sizeof e n) = range a (n.lanes * e.size) ↔ n ≠ .three := by
  constructor
  · rintro h rfl
    have hpos := (size_bounds e).1
    have hlast : a + BitVec.ofNat 64 (3 * e.size) ∈ range a (sizeof e .three) :=
      ⟨_, Nat.mul_lt_mul_of_pos_right (by decide) hpos, rfl⟩
    rw [h] at hlast
    obtain ⟨k, hk, heq⟩ := hlast
    have hle := sizeof_le e .three
    have hslots : sizeof e .three = 3 * e.size + e.size := Nat.succ_mul 3 e.size
    have hlanes : Width.three.lanes * e.size = 3 * e.size := rfl
    have hk' := offset_inj (by omega) (by omega) heq
    omega
  · intro h
    cases n <;> first | rfl | exact absurd rfl h

/-- Different indices have no address in common. -/
theorem elements_disjoint (hne : i ≠ j) (hi : InSpace e n i p) (hj : InSpace e n j p) :
    Disjoint (elements e n i p) (elements e n j p) := by
  rw [Set.disjoint_left]
  intro a hai haj
  rw [elements_eq] at hai haj
  obtain ⟨b, hb, rfl⟩ := hai
  obtain ⟨c, hc, heq⟩ := haj
  unfold InSpace at hi hj
  have hsplit : ∀ k : Nat, n.lanes * (k + 1) * e.size = n.lanes * k * e.size + n.lanes * e.size := fun k => by
    rw [Nat.mul_succ, Nat.add_mul]
  rw [hsplit] at hi hj
  rw [element, element, BitVec.add_assoc, BitVec.add_assoc, ← BitVec.ofNat_add, ← BitVec.ofNat_add] at heq
  have hoffset := offset_inj (by omega) (by omega) heq
  -- The index is the quotient of the offset by the size of the lanes.
  have hquot : ∀ k b : Nat, b < n.lanes * e.size → (n.lanes * k * e.size + b) / (n.lanes * e.size) = k := fun k b hb => by
    rw [Nat.mul_right_comm, Nat.mul_add_div (by omega), Nat.div_eq_of_lt hb, Nat.add_zero]
  have hij := congrArg (· / (n.lanes * e.size)) hoffset
  simp only [hquot _ _ hb, hquot _ _ hc] at hij
  exact hne (BitVec.eq_of_toNat_eq hij)

end Elements

/-! ## Loads and stores -/

section Accesses
variable {e : Element} {n : Width}

/-- The store writes the elements of the index, with the lanes in order. -/
structure StoresLanes (e : Element) (n : Width) (v : Vector e n) (i : BitVec 64) (p : Address) : Prop where
  ok : (vstore e n v i p).ok = true
  lane : ∀ m, ∀ k < n.lanes, load ((vstore e n v i p).val.run m) (element e p (n.lanes * i.toNat + k)) e.size = v.lane k
  writes : (vstore e n v i p).val.writes = elements e n i p

/-- The load reads the elements of the index. -/
structure LoadsLanes (e : Element) (n : Width) (i : BitVec 64) (p : Address) : Prop where
  ok : (vload e n i p).ok = true
  lane : ∀ m, ∀ k < n.lanes, ((vload e n i p).val.value m).lane k = load m (element e p (n.lanes * i.toNat + k)) e.size
  reads : (vload e n i p).val.reads = elements e n i p

/-- A load and a store at an index, beside those at other ones. -/
structure Accesses (e : Element) (n : Width) (v : Vector e n) (i : BitVec 64) (p : Address) : Prop where
  stores : StoresLanes e n v i p
  loads : LoadsLanes e n i p
  roundTrip : ∀ m, ∀ k < n.lanes, ((vload e n i p).val.value ((vstore e n v i p).val.run m)).lane k = v.lane k
  load_apart : ∀ j, i ≠ j → InSpace e n i p → InSpace e n j p → ∀ m,
    (vload e n j p).val.value ((vstore e n v i p).val.run m) = (vload e n j p).val.value m
  store_apart : ∀ j v', i ≠ j → InSpace e n i p → InSpace e n j p → ∀ m,
    (vstore e n v i p).val.run ((vstore e n v' j p).val.run m) = (vstore e n v' j p).val.run ((vstore e n v i p).val.run m)

/-- A vector of other than three components, on an address that its size divides. -/
def Accessible (e : Element) (n : Width) (i : BitVec 64) (p : Address) : Prop :=
  n ≠ .three ∧ (element e p (n.lanes * i.toNat)).toNat % sizeof e n = 0

theorem ok_vload (i : BitVec 64) (p : Address) :
    (vload e n i p).ok = true ↔ (element e p (n.lanes * i.toNat)).toNat % sizeof e n = 0 := by
  rw [vload_eq, deref, Checked.ok_bind, Checked.ok_check, Checked.ok_pure, Bool.and_true, beq_iff_eq]

theorem ok_vstore (v : Vector e n) (i : BitVec 64) (p : Address) :
    (vstore e n v i p).ok = true ↔ (element e p (n.lanes * i.toNat)).toNat % sizeof e n = 0 := by
  rw [vstore_eq, assign, Checked.ok_bind, Checked.ok_check, Checked.ok_pure, Bool.and_true, beq_iff_eq]

theorem val_vload (i : BitVec 64) (p : Address) (m : Memory 64) :
    ((vload e n i p).val.value m).bytes = load m (element e p (n.lanes * i.toNat)) (sizeof e n) := by
  rw [vload_eq]
  rfl

theorem val_vstore (v : Vector e n) (i : BitVec 64) (p : Address) :
    (vstore e n v i p).val = storing (element e p (n.lanes * i.toNat)) v.bytes := by
  rw [vstore_eq]
  rfl

theorem writes_vstore (v : Vector e n) (i : BitVec 64) (p : Address) :
    (vstore e n v i p).val.writes = range (element e p (n.lanes * i.toNat)) (sizeof e n) := by
  rw [val_vstore, ← v.length_bytes]
  rfl

theorem reads_vload (i : BitVec 64) (p : Address) :
    (vload e n i p).val.reads = range (element e p (n.lanes * i.toNat)) (sizeof e n) := by
  rw [vload_eq]
  rfl

theorem lane_end {k : Nat} (hk : k < n.lanes) : k * e.size + e.size ≤ sizeof e n := by
  rw [← Nat.succ_mul]
  exact Nat.mul_le_mul_right _ (hk.trans_le (lanes_le_slots n))

theorem load_vstore (v : Vector e n) (i : BitVec 64) (p : Address) (m : Memory 64) {k : Nat} (hk : k < n.lanes) :
    load ((vstore e n v i p).val.run m) (element e p (n.lanes * i.toNat + k)) e.size = v.lane k := by
  have hlength := v.length_bytes
  rw [val_vstore, element_add]
  exact load_store (hlength ▸ sizeof_le e n) (hlength ▸ lane_end hk)

/-- A lane of what is loaded is an element. -/
theorem lane_vload (i : BitVec 64) (p : Address) (m : Memory 64) {k : Nat} (hk : k < n.lanes) :
    ((vload e n i p).val.value m).lane k = load m (element e p (n.lanes * i.toNat + k)) e.size := by
  have hend := lane_end (e := e) hk
  rw [Vector.lane, val_vload, element_add]
  refine List.ext_getElem? fun c => ?_
  by_cases hc : c < e.size
  · rw [List.getElem?_take_of_lt hc, List.getElem?_drop, getElem?_load _ _ (by omega), getElem?_load _ _ hc,
      BitVec.ofNat_add, BitVec.add_assoc]
  · rw [List.getElem?_eq_none (by rw [List.length_take]; omega), List.getElem?_eq_none (by rw [length_load]; omega)]

theorem writes_eq (h : n ≠ .three) (v : Vector e n) (i : BitVec 64) (p : Address) :
    (vstore e n v i p).val.writes = elements e n i p := by
  rw [writes_vstore, elements_eq]
  exact (range_sizeof_eq_iff e n _).2 h

theorem reads_eq (h : n ≠ .three) (i : BitVec 64) (p : Address) : (vload e n i p).val.reads = elements e n i p := by
  rw [reads_vload, elements_eq]
  exact (range_sizeof_eq_iff e n _).2 h

theorem load_vstore_apart (h : n ≠ .three) (v : Vector e n) {i j : BitVec 64} {p : Address} (hne : i ≠ j)
    (hi : InSpace e n i p) (hj : InSpace e n j p) (m : Memory 64) :
    (vload e n j p).val.value ((vstore e n v i p).val.run m) = (vload e n j p).val.value m := by
  apply Vector.ext
  rw [val_vload, val_vload]
  refine load_congr fun a ha => (vstore e n v i p).val.frame m a fun hwrite => ?_
  rw [writes_eq h] at hwrite
  rw [← reads_vload, reads_eq h] at ha
  exact Set.disjoint_left.1 (elements_disjoint hne hi hj) hwrite ha

theorem vstore_vstore_apart (h : n ≠ .three) (v v' : Vector e n) {i j : BitVec 64} {p : Address} (hne : i ≠ j)
    (hi : InSpace e n i p) (hj : InSpace e n j p) (m : Memory 64) :
    (vstore e n v i p).val.run ((vstore e n v' j p).val.run m) =
      (vstore e n v' j p).val.run ((vstore e n v i p).val.run m) := by
  have hdisjoint := elements_disjoint hne hi hj
  have hreads : ∀ (v : Vector e n) i, (vstore e n v i p).val.reads = ∅ := fun v i => by
    rw [val_vstore]
    rfl
  -- Neither store reads, so each writes the same whatever the other has done.
  have hstored : ∀ (v : Vector e n) i m m', Set.EqOn ((vstore e n v i p).val.run m) ((vstore e n v i p).val.run m')
      (elements e n i p) := fun v i m m' => by
    rw [← writes_eq h v]
    exact (vstore e n v i p).val.depends m m' (by rw [hreads]; exact Set.eqOn_empty _ _)
  have hframe : ∀ (v : Vector e n) i m, ∀ a ∉ elements e n i p, (vstore e n v i p).val.run m a = m a :=
    fun v i m a ha => (vstore e n v i p).val.frame m a (by rwa [writes_eq h])
  funext a
  by_cases hai : a ∈ elements e n i p
  · rw [hframe v' j _ a (Set.disjoint_left.1 hdisjoint hai)]
    exact hstored v i _ _ hai
  · rw [hframe v i _ a hai]
    by_cases haj : a ∈ elements e n j p
    · exact hstored v' j _ _ haj
    · rw [hframe v' j _ a haj, hframe v' j _ a haj, hframe v i _ a hai]

theorem accesses_iff (e : Element) (n : Width) (v : Vector e n) (i : BitVec 64) (p : Address) :
    Accesses e n v i p ↔ Accessible e n i p := by
  constructor
  · intro h
    have hwrites := h.stores.writes
    rw [writes_vstore, elements_eq, range_sizeof_eq_iff] at hwrites
    exact ⟨hwrites, (ok_vstore v i p).1 h.stores.ok⟩
  · rintro ⟨hn, haligned⟩
    exact {
      stores := ⟨(ok_vstore v i p).2 haligned, fun m k hk => load_vstore v i p m hk, writes_eq hn v i p⟩
      loads := ⟨(ok_vload i p).2 haligned, fun m k hk => lane_vload i p m hk, reads_eq hn i p⟩
      roundTrip := fun m k hk => (lane_vload i p _ hk).trans (load_vstore v i p m hk)
      load_apart := fun j hne hi hj m => load_vstore_apart hn v hne hi hj m
      store_apart := fun j v' hne hi hj m => vstore_vstore_apart hn v v' hne hi hj m }

/-- The vector of zeros. -/
def Vector.zero (e : Element) (n : Width) : Vector e n := ⟨List.replicate (sizeof e n) 0, List.length_replicate⟩

/-- The second pair of numbers in a buffer of an odd number of them before it, and any three numbers. -/
theorem accesses_float :
    ¬ Accesses (.real .float) .two (.zero _ _) 1 4 ∧ ¬ Accesses (.real .float) .three (.zero _ _) 0 64 := by
  constructor
  · rintro ⟨⟨hok, -, -⟩, -⟩
    exact absurd hok (by decide +kernel)
  · rintro ⟨⟨-, -, hwrites⟩, -⟩
    rw [writes_vstore, elements_eq] at hwrites
    exact (range_sizeof_eq_iff _ _ _).1 hwrites rfl

end Accesses

end OpenCRun.Library.Vloadstore
