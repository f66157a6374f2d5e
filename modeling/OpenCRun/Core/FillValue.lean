import Mathlib.Data.List.TakeWhile
import OpenCRun.Lib.Buffer
import OpenCRun.Lib.Bytes
/-!
# Sizes of what a query returns

`clFillValue` of `tools/libOpenCRun/Utils.h`, for the kinds of values that a
query has. A check says where a byte is accessed that is not of the source or
of the destination.
-/
open Lib Lib.Bytes

namespace OpenCRun.FillValue

abbrev Byte := BitVec 8

/-! ## Sources and destinations -/

/-- A `llvm::StringRef`. The byte after its characters may be a null character that ends it. -/
structure Text where
  chars : List Byte
  terminated : Bool

def Text.readable (s : Text) : List Byte := if s.terminated then s.chars ++ [0] else s.chars

/-- The bytes of the destination, and the buffers that its entries may point to. -/
@[ext] structure Destination where
  bytes : List Byte
  buffers : BitVec 64 → List Byte

/-- `Dst[I]`, of pointers. -/
def Destination.entry (d : Destination) (I : Nat) : BitVec 64 := BitVec.ofNat 64 (ofBytes ((d.bytes.drop (8 * I)).take 8))

inductive Status where
  | success | invalidValue
  deriving DecidableEq, Repr

/-- What a call leaves behind. -/
structure Outcome where
  status : Status
  rightSizeRet : Option Nat
  dst : Option Destination

/-- What there is to fill in. `F` is the type of a property, or what an iterator refers to. -/
inductive Source (F : Type) where
  | scalar (v : F)
  | string (s : Text)
  | sizes (xs : List (BitVec 64))
  | binaries (xs : List (List Byte))
  | partitionProperties (xs : List (BitVec 64))
  | range (vs : List F)

/-! ## The overloads -/

/-- `std::strncpy`, up to a count: what it writes. -/
def strncpy : List Byte → Nat → Checked (List Byte)
  | _, 0 => pure []
  | [], n + 1 => do
    Checked.check false
    pure (List.replicate (n + 1) 0)
  | c :: src, n + 1 =>
    if c = 0 then pure (List.replicate (n + 1) 0)
    else do
      let rest ← strncpy src n
      pure (c :: rest)

namespace Destination

def put (d : Destination) (i : Nat) (bs : List Byte) : Checked Destination := do
  let bytes ← Buffer.put d.bytes i bs
  pure { d with bytes }

def putAll (d : Destination) (size : Nat) (vs : List (List Byte)) : Checked Destination := do
  let bytes ← Buffer.putAll size vs 0 d.bytes
  pure { d with bytes }

def getEntry (d : Destination) (I : Nat) : Checked (BitVec 64) := do
  let bs ← Buffer.get d.bytes (8 * I) 8
  pure (BitVec.ofNat 64 (ofBytes bs))

def setBuffer (d : Destination) (p : BitVec 64) (bs : List Byte) : Destination :=
  { d with buffers := Function.update d.buffers p bs }

/-- `std::copy` to where a pointer points. -/
def copyTo (d : Destination) (p : BitVec 64) (bs : List Byte) : Checked Destination := do
  let buffer ← Buffer.put (d.buffers p) 0 bs
  pure (d.setBuffer p buffer)

end Destination

/-- What the overloads have in common. A result of a body is none if the body has not returned yet. -/
def fill (rightSize : Nat) (body : Destination → Checked (Option Destination)) (dst : Option Destination)
    (rightSizeRet : Bool) : Checked (Option Outcome) :=
  let ret := if rightSizeRet then some rightSize else none
  match dst with
  | none => pure (some ⟨.success, ret, none⟩)
  | some d =>
    if d.bytes.length < rightSize then pure (some ⟨.invalidValue, ret, some d⟩)
    else do
      let d ← body d
      pure (d.map fun d => ⟨.success, ret, some d⟩)

section Overloads
variable {F : Type} {size : Nat} (clReadValue : F → Vector Byte size)

def scalarBody (v : F) (d : Destination) : Checked (Option Destination) := some <$> d.put 0 (clReadValue v).toList

def stringBody (s : Text) (rightSize : Nat) (d : Destination) : Checked (Option Destination) := do
  let cs ← strncpy s.readable rightSize
  let d ← d.put 0 cs
  some <$> d.put (rightSize - 1) [0]

def sizesBody (xs : List (BitVec 64)) (d : Destination) : Checked (Option Destination) :=
  some <$> d.putAll 8 (xs.map fun x => toBytes 8 x.toNat)

def copyBinary (x : List Byte) (I : Nat) (d : Destination) : Checked Destination := do
  let d ← if x.length = 0 then d.put (8 * I) (toBytes 8 0) else pure d
  let p ← d.getEntry I
  d.copyTo p x

/-- The loop over the binaries, with an `unsigned` that counts. -/
def binariesBody (xs : List (List Byte)) : Nat → BitVec 32 → Destination → Checked (Option Destination)
  | 0, I, d => pure (if I.toNat < xs.length then none else some d)
  | fuel + 1, I, d =>
    if I.toNat < xs.length then do
      let d ← copyBinary (xs.getD I.toNat []) I.toNat d
      binariesBody xs fuel (I + 1) d
    else pure (some d)

def partitionPropertiesBody (xs : List (BitVec 64)) (rightSize : Nat) (d : Destination) : Checked (Option Destination) := do
  let d ← if rightSize = 0 then d.put 0 (toBytes 8 0) else pure d
  some <$> d.putAll 8 (xs.map fun x => toBytes 8 x.toNat)

def rangeBody (vs : List F) (d : Destination) : Checked (Option Destination) :=
  some <$> d.putAll size (vs.map fun v => (clReadValue v).toList)

/-- The size of what is filled in. -/
def Source.extent (size : Nat) : Source F → Nat
  | .scalar _ => size
  | .string s => s.chars.length + 1
  | .sizes xs => 8 * xs.length
  | .binaries xs => 8 * xs.length
  | .partitionProperties xs => 8 * xs.length
  | .range vs => size * vs.length

def Source.body (rightSize fuel : Nat) : Source F → Destination → Checked (Option Destination)
  | .scalar v => scalarBody clReadValue v
  | .string s => stringBody s rightSize
  | .sizes xs => sizesBody xs
  | .binaries xs => binariesBody xs fuel 0
  | .partitionProperties xs => partitionPropertiesBody xs rightSize
  | .range vs => rangeBody clReadValue vs

def clFillValue (src : Source F) (fuel : Nat) : Option Destination → Bool → Checked (Option Outcome) :=
  let rightSize := src.extent size % 2 ^ 64
  fill rightSize (src.body clReadValue rightSize fuel)

end Overloads

/-! ## The protocol -/

/-- The characters up to the first that is null, and null characters. -/
def Text.cString (s : Text) : List Byte :=
  let cs := s.chars.takeWhile (· ≠ 0)
  cs ++ List.replicate (s.chars.length - cs.length) 0 ++ [0]

section Protocol
variable {F : Type} {size : Nat} (clReadValue : F → Vector Byte size)

/-- Where there is a binary, the entry points to a buffer of its size. -/
def Source.Fits : Source F → Destination → Prop
  | .binaries xs, d => ∀ I (h : I < xs.length), xs[I] ≠ [] → (d.buffers (d.entry I)).length = xs[I].length
  | _, _ => True

/-- The destination holds the value afterwards. If two entries point to one buffer, it has a binary of one of them. -/
def Source.Fills : Source F → Destination → Destination → Prop
  | .scalar v, _, d' => d'.bytes = (clReadValue v).toList
  | .string s, _, d' => d'.bytes = s.cString
  | .sizes xs, _, d' => d'.bytes = (xs.map fun x => toBytes 8 x.toNat).flatten
  | .binaries xs, d, d' => ∀ I (h : I < xs.length), xs[I] ≠ [] →
      ∃ J, ∃ h : J < xs.length, d.entry J = d.entry I ∧ d'.buffers (d.entry I) = xs[J]
  | .partitionProperties xs, _, d' => d'.bytes = (xs.map fun x => toBytes 8 x.toNat).flatten
  | .range vs, _, d' => d'.bytes = (vs.map fun v => (clReadValue v).toList).flatten

end Protocol

/-- The calls with one source, of which the one without a destination reports a size. -/
structure Reports (call : Nat → Option Destination → Bool → Checked (Option Outcome)) (fits : Destination → Prop)
    (fills : Destination → Destination → Prop) (n : Nat) : Prop where
  query : ∀ fuel, call fuel none true = pure (some ⟨.success, some n, none⟩)
  tooSmall : ∀ fuel d ret, d.bytes.length < n →
    call fuel (some d) ret = pure (some ⟨.invalidValue, if ret then some n else none, some d⟩)
  inBounds : ∀ fuel d ret, fits d → (call fuel (some d) ret).ok = true
  filled : ∀ d ret, fits d → d.bytes.length = n →
    ∃ fuel d', call fuel (some d) ret = pure (some ⟨.success, if ret then some n else none, some d'⟩) ∧ fills d d'

section Protocol
variable {F : Type} {size : Nat} (clReadValue : F → Vector Byte size)

def Source.Protocol (src : Source F) : Prop := ∃ n, Reports (clFillValue clReadValue src) src.Fits (src.Fills clReadValue) n

end Protocol

/-! ## Bodies -/

section Bodies
variable {n : Nat} {body : Nat → Destination → Checked (Option Destination)} {d : Destination}

theorem fill_tooSmall (b : Destination → Checked (Option Destination)) (h : d.bytes.length < n) (ret : Bool) :
    fill n b (some d) ret = pure (some ⟨.invalidValue, if ret then some n else none, some d⟩) := by
  unfold fill
  exact if_pos h

theorem fill_large (b : Destination → Checked (Option Destination)) (h : n ≤ d.bytes.length) (ret : Bool) :
    fill n b (some d) ret = b d >>= fun r => pure (r.map fun d => ⟨.success, if ret then some n else none, some d⟩) := by
  unfold fill
  exact if_neg (Nat.not_lt.2 h)

/-- Of calls that fill a size, the bodies decide. -/
theorem reports_fill_iff {fits : Destination → Prop} {fills : Destination → Destination → Prop} :
    (∃ m, Reports (fun fuel => fill n (body fuel)) fits fills m) ↔
      (∀ fuel d, fits d → n ≤ d.bytes.length → (body fuel d).ok = true) ∧
        ∀ d, fits d → d.bytes.length = n → ∃ fuel d', body fuel d = pure (some d') ∧ fills d d' := by
  constructor
  · rintro ⟨m, h⟩
    obtain rfl : n = m := by
      have hval := congrArg Checked.val (h.query 0)
      exact Option.some.inj (congrArg Outcome.rightSizeRet (Option.some.inj hval))
    constructor
    · intro fuel d hfits hn
      have hok := h.inBounds fuel d false hfits
      rwa [fill_large _ hn, Checked.ok_bind, Checked.ok_pure, Bool.and_true] at hok
    · intro d hfits hn
      obtain ⟨fuel, d', hcall, hfills⟩ := h.filled d false hfits hn
      have hok := h.inBounds fuel d false hfits
      have hval := congrArg Checked.val hcall
      rw [fill_large _ hn.ge] at hok hval
      rw [Checked.ok_bind, Checked.ok_pure, Bool.and_true] at hok
      obtain ⟨d'', hbody, hd⟩ := Option.map_eq_some_iff.1 hval
      obtain rfl : d'' = d' := Option.some.inj (congrArg Outcome.dst hd)
      exact ⟨fuel, d'', Checked.ext hbody hok, hfills⟩
  · rintro ⟨hok, hfilled⟩
    refine ⟨n, fun fuel => rfl, fun fuel d ret hn => fill_tooSmall _ hn ret, fun fuel d ret hfits => ?_,
      fun d ret hfits hn => ?_⟩
    · rcases Nat.lt_or_ge d.bytes.length n with hlt | hge
      · rw [fill_tooSmall _ hlt, Checked.ok_pure]
      · rw [fill_large _ hge, Checked.ok_bind, hok fuel d hfits hge, Checked.ok_pure, Bool.and_true]
    · obtain ⟨fuel, d', hbody, hfills⟩ := hfilled d hfits hn
      refine ⟨fuel, d', ?_, hfills⟩
      rw [fill_large _ hn.ge, hbody, pure_bind, Option.map_some]

end Bodies

/-! ## Lists -/

section Lists
variable {d : Destination} {size : Nat}

theorem put_ok {i : Nat} {bs : List Byte} (h : i + bs.length ≤ d.bytes.length) :
    d.put i bs = pure { d with bytes := d.bytes.take i ++ bs ++ d.bytes.drop (i + bs.length) } := by
  unfold Destination.put
  rw [Buffer.put_eq h, pure_bind]

theorem putAll_ok {vs : List (List Byte)} (hsize : ∀ v ∈ vs, v.length = size) (h : size * vs.length ≤ d.bytes.length) :
    d.putAll size vs = pure { d with bytes := vs.flatten ++ d.bytes.drop (size * vs.length) } := by
  unfold Destination.putAll
  rw [Buffer.putAll_eq hsize (by omega), pure_bind, List.take_zero, List.nil_append, Nat.zero_add]

/-- Elements are filled in. -/
theorem putAll_fills {vs : List (List Byte)} (hsize : ∀ v ∈ vs, v.length = size) :
    (∀ d : Destination, size * vs.length ≤ d.bytes.length → (some <$> d.putAll size vs).ok = true) ∧
      ∀ d : Destination, d.bytes.length = size * vs.length →
        some <$> d.putAll size vs = pure (some { d with bytes := vs.flatten }) := by
  constructor
  · intro d h
    rw [Checked.ok_map, putAll_ok hsize h, Checked.ok_pure]
  · intro d h
    rw [putAll_ok hsize h.ge, List.drop_eq_nil_of_le h.le, List.append_nil, map_pure]

end Lists

/-! ## Strings -/

/-- The string ends with the null character that is written last. -/
theorem cString_eq (s : Text) : ∃ cs, s.cString = cs ++ [0] ∧ cs.length = s.chars.length := by
  refine ⟨_, rfl, ?_⟩
  have htake := (s.chars.takeWhile_sublist (· ≠ 0)).length_le
  rw [List.length_append, List.length_replicate]
  omega

theorem length_cString (s : Text) : s.cString.length = s.chars.length + 1 := by
  obtain ⟨cs, hcs, hlength⟩ := cString_eq s
  rw [hcs, List.length_append, hlength, List.length_singleton]

/-- What is copied is the string, and a character is read behind it unless one of its own is null. -/
theorem strncpy_readable (s : Text) :
    strncpy s.readable (s.chars.length + 1) = ⟨s.cString, s.terminated || s.chars.contains 0⟩ := by
  obtain ⟨cs, terminated⟩ := s
  induction cs with
  | nil => cases terminated <;> rfl
  | cons c cs ih =>
    have hreadable : Text.readable ⟨c :: cs, terminated⟩ = c :: Text.readable ⟨cs, terminated⟩ := by
      cases terminated <;> rfl
    rw [hreadable, List.length_cons, strncpy]
    by_cases hc : c = 0
    · rw [if_pos hc]
      unfold Text.cString
      rw [hc, List.takeWhile_cons_of_neg (by decide)]
      refine Checked.ext ?_ (by simp)
      rw [Checked.val_pure, List.replicate_succ']
      rfl
    · rw [if_neg hc, ih]
      unfold Text.cString
      rw [List.takeWhile_cons_of_pos (by simpa using hc)]
      refine Checked.ext ?_ ?_
      · simp
      · have hne : ¬ (0#8 = c) := fun h => hc h.symm
        simp [hne]

theorem stringBody_eq (s : Text) {d : Destination} (h : s.chars.length + 1 ≤ d.bytes.length) :
    stringBody s (s.chars.length + 1) d =
      ⟨some { d with bytes := s.cString ++ d.bytes.drop (s.chars.length + 1) }, s.terminated || s.chars.contains 0⟩ := by
  obtain ⟨cs, hcs, hlength⟩ := cString_eq s
  have hput : d.put 0 s.cString = pure { d with bytes := s.cString ++ d.bytes.drop (s.chars.length + 1) } := by
    rw [put_ok (by rw [length_cString]; omega), length_cString, List.take_zero, List.nil_append, Nat.zero_add]
  have hlast : ({ d with bytes := s.cString ++ d.bytes.drop (s.chars.length + 1) } : Destination).put s.chars.length [0] =
      pure { d with bytes := s.cString ++ d.bytes.drop (s.chars.length + 1) } := by
    unfold Destination.put
    rw [hcs, ← hlength, Buffer.put_same, pure_bind]
  unfold stringBody
  rw [strncpy_readable, Nat.add_sub_cancel]
  refine Checked.ext ?_ ?_
  · rw [Checked.val_bind, hput, pure_bind, hlast, map_pure, Checked.val_pure]
  · rw [Checked.ok_bind, hput, pure_bind, hlast, map_pure, Checked.ok_pure, Bool.and_true]

/-! ## Binaries -/

section Binaries
variable {xs : List (List Byte)} {d d' : Destination}

@[simp] theorem buffers_setBuffer (d : Destination) (p : BitVec 64) (bs : List Byte) : (d.setBuffer p bs).buffers p = bs :=
  Function.update_self _ _ _

theorem buffers_setBuffer_of_ne (d : Destination) {p q : BitVec 64} (h : q ≠ p) (bs : List Byte) :
    (d.setBuffer p bs).buffers q = d.buffers q := Function.update_of_ne h _ _

theorem setBuffer_same (d : Destination) (p : BitVec 64) : d.setBuffer p (d.buffers p) = d := by
  unfold Destination.setBuffer
  rw [Function.update_eq_self]

theorem copyTo_eq {p : BitVec 64} {bs : List Byte} (h : bs.length ≤ (d.buffers p).length) :
    d.copyTo p bs = pure (d.setBuffer p (bs ++ (d.buffers p).drop bs.length)) := by
  unfold Destination.copyTo
  rw [Buffer.put_eq (by omega), pure_bind, List.take_zero, List.nil_append, Nat.zero_add]

theorem getEntry_eq {I : Nat} (h : 8 * I + 8 ≤ d.bytes.length) : d.getEntry I = pure (d.entry I) := by
  unfold Destination.getEntry
  rw [Buffer.get_eq h, pure_bind]
  rfl

/-- A binary that is empty sets its entry to null. -/
theorem copyBinary_nil {I : Nat} (h : 8 * I + 8 ≤ d.bytes.length) :
    ∃ bytes, copyBinary [] I d = pure { d with bytes } ∧ bytes.length = d.bytes.length ∧
      ∀ J, I < J → ({ d with bytes } : Destination).entry J = d.entry J := by
  have hlength : (d.bytes.take (8 * I) ++ toBytes 8 0 ++ d.bytes.drop (8 * I + 8)).length = d.bytes.length := by
    simp
    omega
  refine ⟨_, ?_, hlength, fun J hJ => ?_⟩
  · unfold copyBinary
    rw [List.length_nil, if_pos rfl, put_ok h, pure_bind, length_toBytes]
    refine (congrArg (· >>= _) (getEntry_eq (by rwa [hlength]))).trans ?_
    rw [pure_bind, copyTo_eq (Nat.zero_le _), List.nil_append, List.length_nil, List.drop_zero, setBuffer_same]
  · have hhead : (d.bytes.take (8 * I) ++ toBytes 8 0).length = 8 * I + 8 := by
      simp
      omega
    have hplace : 8 * I + 8 + (8 * J - (8 * I + 8)) = 8 * J := by omega
    unfold Destination.entry
    rw [List.drop_append, hhead, List.drop_eq_nil_of_le (by omega), List.nil_append, List.drop_drop, hplace]

/-- Another binary is copied to the buffer of its entry. -/
theorem copyBinary_cons {I : Nat} {x : List Byte} (h : 8 * I + 8 ≤ d.bytes.length) (hx : x ≠ [])
    (hbuffer : (d.buffers (d.entry I)).length = x.length) :
    copyBinary x I d = pure (d.setBuffer (d.entry I) x) := by
  unfold copyBinary
  rw [if_neg (fun h => hx (List.length_eq_zero_iff.1 h)), pure_bind]
  refine (congrArg (· >>= _) (getEntry_eq h)).trans ?_
  rw [pure_bind, copyTo_eq hbuffer.ge, List.drop_eq_nil_of_le hbuffer.le, List.append_nil]

/-- The binaries before one are copied, and the entries from it on are as they were. -/
structure Copied (xs : List (List Byte)) (d : Destination) (I : Nat) (d' : Destination) : Prop where
  length : d'.bytes.length = d.bytes.length
  entries : ∀ J, I ≤ J → d'.entry J = d.entry J
  lengths : ∀ p, (d'.buffers p).length = (d.buffers p).length
  filled : ∀ J (h : J < xs.length), J < I → xs[J] ≠ [] →
    ∃ K, ∃ h : K < xs.length, d.entry K = d.entry J ∧ d'.buffers (d.entry J) = xs[K]

theorem copied_zero (xs : List (List Byte)) (d : Destination) : Copied xs d 0 d :=
  ⟨rfl, fun _ _ => rfl, fun _ => rfl, fun J _ h => absurd h (Nat.not_lt_zero J)⟩

theorem copied_succ (hfits : Source.Fits (F := Unit) (.binaries xs) d) (hlength : 8 * xs.length ≤ d.bytes.length) {I : Nat}
    (hI : I < xs.length) (h : Copied xs d I d') : ∃ d'', copyBinary xs[I] I d' = pure d'' ∧ Copied xs d (I + 1) d'' := by
  have hroom : 8 * I + 8 ≤ d'.bytes.length := by
    rw [h.length]
    omega
  by_cases hx : xs[I] = []
  · obtain ⟨bytes, hcopy, hbytes, hentries⟩ := copyBinary_nil hroom
    refine ⟨_, hx ▸ hcopy, hbytes.trans h.length, fun J hJ => (hentries J hJ).trans (h.entries J (by omega)), h.lengths,
      fun J hlt hJ hne => h.filled J hlt ?_ hne⟩
    rcases Nat.lt_succ_iff_lt_or_eq.1 hJ with hJ | rfl
    · exact hJ
    · exact absurd hx hne
  · have hentry : d'.entry I = d.entry I := h.entries I (Nat.le_refl I)
    have hbuffer : (d'.buffers (d'.entry I)).length = xs[I].length := by
      rw [h.lengths, hentry]
      exact hfits I hI hx
    refine ⟨_, copyBinary_cons hroom hx hbuffer, h.length, fun J hJ => h.entries J (by omega), fun p => ?_,
      fun J hlt hJ hne => ?_⟩
    · by_cases hp : p = d'.entry I
      · rw [hp, buffers_setBuffer, ← hbuffer, h.lengths]
      · rw [buffers_setBuffer_of_ne d' hp, h.lengths]
    · by_cases hsame : d.entry J = d'.entry I
      · exact ⟨I, hI, hentry.symm.trans hsame.symm, by rw [hsame, buffers_setBuffer]⟩
      · rcases Nat.lt_succ_iff_lt_or_eq.1 hJ with hJ | rfl
        · obtain ⟨K, hK, hentries, hfilled⟩ := h.filled J hlt hJ hne
          exact ⟨K, hK, hentries, (buffers_setBuffer_of_ne d' hsame _).trans hfilled⟩
        · exact absurd hentry.symm hsame

/-- The loop stays in bounds, and returns with enough fuel, unless the counter wraps around. -/
theorem binariesBody_copied (hfits : Source.Fits (F := Unit) (.binaries xs) d) (hlength : 8 * xs.length ≤ d.bytes.length)
    (hcount : xs.length < 2 ^ 32) (fuel : Nat) {I : BitVec 32} (hI : I.toNat ≤ xs.length) (h : Copied xs d I.toNat d') :
    (binariesBody xs fuel I d').ok = true ∧
      (xs.length - I.toNat ≤ fuel → ∃ d'', binariesBody xs fuel I d' = pure (some d'') ∧ Copied xs d xs.length d'') := by
  induction fuel generalizing I d' with
  | zero =>
    refine ⟨rfl, fun hfuel => ⟨d', ?_, ?_⟩⟩
    · rw [binariesBody, if_neg (by omega)]
    · exact (by omega : I.toNat = xs.length) ▸ h
  | succ fuel ih =>
    rw [binariesBody]
    by_cases hlt : I.toNat < xs.length
    · obtain ⟨d'', hcopy, hcopied⟩ := copied_succ hfits hlength hlt h
      have hnext : (I + 1).toNat = I.toNat + 1 := by
        rw [BitVec.toNat_add]
        exact Nat.mod_eq_of_lt (by omega : I.toNat + 1 < 2 ^ 32)
      have hget : xs.getD I.toNat [] = xs[I.toNat] := by
        rw [List.getD_eq_getElem?_getD, List.getElem?_eq_getElem hlt, Option.getD_some]
      rw [if_pos hlt, hget, hcopy, pure_bind]
      obtain ⟨hok, hdone⟩ := ih (by omega) (hnext.symm ▸ hcopied)
      exact ⟨hok, fun hfuel => hdone (by omega)⟩
    · rw [if_neg hlt]
      exact ⟨rfl, fun _ => ⟨d', rfl, (by omega : I.toNat = xs.length) ▸ h⟩⟩

/-- No value of the counter is as large as the number of binaries. -/
theorem binariesBody_loops (hcount : 2 ^ 32 ≤ xs.length) (fuel : Nat) (I : BitVec 32) (d : Destination) :
    (binariesBody xs fuel I d).val = none := by
  have hlt : I.toNat < xs.length := lt_of_lt_of_le I.isLt hcount
  induction fuel generalizing I d with
  | zero => rw [binariesBody, if_pos hlt, Checked.val_pure]
  | succ fuel ih =>
    rw [binariesBody, if_pos hlt, Checked.val_bind]
    exact ih _ _ (lt_of_lt_of_le (I + 1).isLt hcount)

/-- There is a destination with a buffer for each binary. -/
theorem exists_fits (hspace : 8 * xs.length < 2 ^ 64) :
    ∃ d : Destination, Source.Fits (F := Unit) (.binaries xs) d ∧ d.bytes.length = 8 * xs.length := by
  have hsize : ∀ v ∈ (List.range xs.length).map (toBytes 8), v.length = 8 := by
    intro v hv
    obtain ⟨I, -, rfl⟩ := List.mem_map.1 hv
    exact length_toBytes 8 I
  refine ⟨⟨((List.range xs.length).map (toBytes 8)).flatten, fun p => xs.getD p.toNat []⟩, fun I hI _ => ?_, ?_⟩
  · have hentry : (Destination.mk ((List.range xs.length).map (toBytes 8)).flatten fun p => xs.getD p.toNat []).entry I =
        BitVec.ofNat 64 I := by
      unfold Destination.entry
      rw [Buffer.get_flatten hsize (by simpa using hI), List.getElem_map, List.getElem_range, ofBytes_toBytes (by omega)]
    rw [hentry]
    change (xs.getD (BitVec.ofNat 64 I).toNat []).length = xs[I].length
    rw [BitVec.toNat_ofNat, Nat.mod_eq_of_lt (by omega), List.getD_eq_getElem?_getD, List.getElem?_eq_getElem hI,
      Option.getD_some]
  · exact (Buffer.flatten_length hsize).trans (by rw [List.length_map, List.length_range])

end Binaries

/-! ## The sizes that are reported -/

/-- A source whose value is smaller than the address space. -/
structure Query (F : Type) (size : Nat) where
  src : Source F
  inSpace : src.extent size < 2 ^ 64

section Main
variable {F : Type} {size : Nat} (clReadValue : F → Vector Byte size)

/-- There is a null character to stop at, a property to copy, or a number of binaries that the counter reaches. -/
def Source.Sound : Source F → Prop
  | .string s => s.terminated = true ∨ 0 ∈ s.chars
  | .partitionProperties xs => xs ≠ []
  | .binaries xs => xs.length < 2 ^ 32
  | _ => True

theorem protocol_iff_body {src : Source F} (hspace : src.extent size < 2 ^ 64) :
    src.Protocol clReadValue ↔
      (∀ fuel d, src.Fits d → src.extent size ≤ d.bytes.length → (src.body clReadValue (src.extent size) fuel d).ok = true) ∧
      ∀ d, src.Fits d → d.bytes.length = src.extent size →
        ∃ fuel d', src.body clReadValue (src.extent size) fuel d = pure (some d') ∧ src.Fills clReadValue d d' := by
  unfold Source.Protocol clFillValue
  rw [Nat.mod_eq_of_lt hspace]
  exact reports_fill_iff

theorem scalar_protocol (v : F) (hspace : size < 2 ^ 64) : (Source.scalar v).Protocol clReadValue := by
  have hlength : (clReadValue v).toList.length = size := Vector.length_toList
  refine (@protocol_iff_body F size clReadValue (.scalar v) hspace).2 ⟨fun _ d _ h => ?_, fun d _ h => ⟨0, ?_⟩⟩
  · change (some <$> d.put 0 (clReadValue v).toList).ok = true
    rw [put_ok (by rw [hlength]; exact (Nat.zero_add size).le.trans h), Checked.ok_map, Checked.ok_pure]
  · refine ⟨{ d with bytes := (clReadValue v).toList }, ?_, rfl⟩
    change some <$> d.put 0 (clReadValue v).toList = _
    change d.bytes.length = size at h
    rw [put_ok (by omega), map_pure, List.take_zero, List.nil_append, List.drop_eq_nil_of_le (by omega), List.append_nil]

theorem string_protocol_iff (s : Text) (hspace : s.chars.length + 1 < 2 ^ 64) :
    (Source.string s).Protocol clReadValue ↔ s.terminated = true ∨ 0 ∈ s.chars := by
  have hsound : (s.terminated || s.chars.contains 0) = true ↔ s.terminated = true ∨ 0 ∈ s.chars := by
    rw [Bool.or_eq_true, List.contains_iff_mem]
  rw [@protocol_iff_body F size clReadValue (.string s) hspace, ← hsound]
  constructor
  · rintro ⟨hok, -⟩
    have hlength : (List.replicate (s.chars.length + 1) (0 : Byte)).length = s.chars.length + 1 := List.length_replicate
    have hbody := hok 0 ⟨List.replicate (s.chars.length + 1) 0, fun _ => []⟩ trivial hlength.ge
    exact (congrArg Checked.ok (stringBody_eq s hlength.ge)).symm.trans hbody
  · intro h
    refine ⟨fun _ d _ hd => ?_, fun d _ hd => ⟨0, { d with bytes := s.cString }, ?_, rfl⟩⟩
    · exact (congrArg Checked.ok (stringBody_eq s hd)).trans h
    · refine (stringBody_eq s (le_of_eq hd.symm)).trans ?_
      change d.bytes.length = s.chars.length + 1 at hd
      rw [List.drop_eq_nil_of_le hd.le, List.append_nil, h]
      rfl

/-- Elements of a size. -/
theorem elements_protocol {src : Source F} {k : Nat} {vs : List (List Byte)} (hsize : ∀ v ∈ vs, v.length = k)
    (hextent : src.extent size = k * vs.length) (hspace : src.extent size < 2 ^ 64)
    (hbody : ∀ fuel d, src.body clReadValue (src.extent size) fuel d = some <$> d.putAll k vs)
    (hfills : ∀ d d', d'.bytes = vs.flatten → src.Fills clReadValue d d') : src.Protocol clReadValue := by
  obtain ⟨hok, hfilled⟩ := putAll_fills hsize
  refine (protocol_iff_body clReadValue hspace).2 ⟨fun fuel d _ h => ?_,
    fun d _ h => ⟨0, { d with bytes := vs.flatten }, ?_, hfills d _ rfl⟩⟩
  · rw [hbody]
    exact hok d (hextent ▸ h)
  · rw [hbody]
    exact hfilled d (h.trans hextent)

theorem words_size (xs : List (BitVec 64)) : ∀ v ∈ xs.map fun x => toBytes 8 x.toNat, v.length = 8 := by
  intro v hv
  obtain ⟨x, -, rfl⟩ := List.mem_map.1 hv
  exact length_toBytes 8 _

theorem sizes_protocol (xs : List (BitVec 64)) (hspace : 8 * xs.length < 2 ^ 64) : (Source.sizes xs).Protocol clReadValue := by
  have hextent : (Source.sizes xs : Source F).extent size = 8 * (xs.map fun x => toBytes 8 x.toNat).length := by
    rw [List.length_map]
    rfl
  exact elements_protocol clReadValue (words_size xs) hextent hspace (fun _ _ => rfl) fun _ _ h => h

theorem range_protocol (vs : List F) (hspace : size * vs.length < 2 ^ 64) : (Source.range vs).Protocol clReadValue := by
  have hextent : (Source.range vs).extent size = size * (vs.map fun v => (clReadValue v).toList).length := by
    rw [List.length_map]
    rfl
  refine elements_protocol clReadValue (fun v hv => ?_) hextent hspace (fun _ _ => rfl) fun _ _ h => h
  obtain ⟨x, -, rfl⟩ := List.mem_map.1 hv
  exact Vector.length_toList

theorem partitionProperties_protocol_iff (xs : List (BitVec 64)) (hspace : 8 * xs.length < 2 ^ 64) :
    (Source.partitionProperties xs).Protocol clReadValue ↔ xs ≠ [] := by
  constructor
  · rintro h rfl
    -- a destination of no bytes
    have hbody := (@protocol_iff_body F size clReadValue (.partitionProperties []) hspace).1 h
    have hok := hbody.1 0 ⟨[], fun _ => []⟩ trivial (Nat.zero_le _)
    cases hok
  · intro hne
    have hextent : (Source.partitionProperties xs : Source F).extent size = 8 * (xs.map fun x => toBytes 8 x.toNat).length := by
      rw [List.length_map]
      rfl
    refine elements_protocol clReadValue (words_size xs) hextent hspace (fun fuel d => ?_) fun _ _ h => h
    have hpos : 0 < xs.length := List.length_pos_iff.2 hne
    change partitionPropertiesBody xs (8 * xs.length) d = _
    unfold partitionPropertiesBody
    rw [if_neg (by omega), pure_bind]

theorem binaries_protocol_iff (xs : List (List Byte)) (hspace : 8 * xs.length < 2 ^ 64) :
    (Source.binaries xs).Protocol clReadValue ↔ xs.length < 2 ^ 32 := by
  rw [@protocol_iff_body F size clReadValue (.binaries xs) hspace]
  constructor
  · rintro ⟨-, hfilled⟩
    by_contra hcount
    obtain ⟨d, hfits, hd⟩ := exists_fits hspace
    obtain ⟨fuel, d', hbody, -⟩ := hfilled d hfits hd
    have hval := congrArg Checked.val hbody
    rw [Checked.val_pure] at hval
    exact Option.some_ne_none d' (hval.symm.trans (binariesBody_loops (not_lt.1 hcount) fuel 0 d))
  · intro hcount
    refine ⟨fun fuel d hfits hd => ?_, fun d hfits hd => ?_⟩
    · exact (@binariesBody_copied xs d d hfits hd hcount fuel 0 (Nat.zero_le _) (copied_zero xs d)).1
    · obtain ⟨d', hbody, hcopied⟩ :=
        (@binariesBody_copied xs d d hfits hd.ge hcount xs.length 0 (Nat.zero_le _) (copied_zero xs d)).2 (Nat.sub_le _ _)
      exact ⟨xs.length, d', hbody, fun I hI hne => hcopied.filled I hI hI hne⟩

/-- The size that a query reports is that of its value, unless the value is one of three kinds. -/
theorem clFillValue_protocol_iff (q : Query F size) : q.src.Protocol clReadValue ↔ q.src.Sound := by
  obtain ⟨src, hspace⟩ := q
  cases src with
  | scalar v => exact iff_of_true (scalar_protocol clReadValue v hspace) trivial
  | string s => exact string_protocol_iff clReadValue s hspace
  | sizes xs => exact iff_of_true (sizes_protocol clReadValue xs hspace) trivial
  | binaries xs => exact binaries_protocol_iff clReadValue xs hspace
  | partitionProperties xs => exact partitionProperties_protocol_iff clReadValue xs hspace
  | range vs => exact iff_of_true (range_protocol clReadValue vs hspace) trivial

end Main

/-- A terminator is written to a destination of no bytes, which is the size that is reported. -/
theorem partitionProperties_overrun :
    clFillValue (F := Vector Byte 8) id (.partitionProperties []) 0 none true = pure (some ⟨.success, some 0, none⟩) ∧
      (clFillValue (F := Vector Byte 8) id (.partitionProperties []) 0 (some ⟨[], fun _ => []⟩) false).ok = false ∧
      ¬ (Source.partitionProperties (F := Vector Byte 8) []).Protocol id :=
  ⟨rfl, rfl, fun h => (partitionProperties_protocol_iff id [] (by decide)).1 h rfl⟩

end OpenCRun.FillValue
