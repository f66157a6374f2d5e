import Mathlib.Data.List.Pairwise
import OpenCRun.OCLGen.SignatureOrder
/-!
# The selection of implementations

A builtin may have several implementations for a signature: for a target or
generic, and of a variant or for all of them. `EmitOCLBuiltinImpls` takes them
one after the other and keeps one for each signature, in the maps `implsOf` that
are ordered by `BuiltinSignCompare`. Where that comparison orders the types of
a builtin's signatures, such a map holds what a function of the types gives
(`implsOf_agrees`); what is selected is then proved for the function.
-/
namespace OpenCRun.ImplSelection

open OCLGen.Overloads (BuiltinSign OCLScalarType OCLBasicType OCLBuiltin OCLBuiltinImpl builtinSignCompare expandSigns implsOf)

/-! ## The selection by types -/

/-- The types of a signature. The predicates are not compared. -/
abbrev Types := List OCLBasicType

/-- What a `SignatureImplMap` stands for where the comparison tells types apart. -/
abbrev SignatureImplMap := Types → Option OCLBuiltinImpl

/-- Whether an implementation takes the place of what there is for a signature. -/
def replaces (impl : OCLBuiltinImpl) : Option OCLBuiltinImpl → Bool
  | none => true
  | some old => impl.isTarget || old.variantName == ""

/-- The body of the loop over the signatures of an implementation. -/
def insertSign (impl : OCLBuiltinImpl) (m : SignatureImplMap) (sign : BuiltinSign) : SignatureImplMap :=
  if replaces impl (m sign.tys) then Function.update m sign.tys (some impl) else m

section Selection
variable (builtins : List OCLBuiltin)

/-- `Impl.getBuiltin()` -/
def getBuiltin (impl : OCLBuiltinImpl) : Option OCLBuiltin := builtins.find? fun B => B.record = impl.builtin

/-- The signatures of `CurVariants`; none for an unknown variant, of which there is a warning. -/
def signsOf (impl : OCLBuiltinImpl) : List BuiltinSign :=
  match getBuiltin builtins impl with
  | some B => (B.curVariants impl).flatMap expandSigns
  | none => []

end Selection

/-! ## What is to be selected -/

/-- The class of a record: for a target or not, and for all variants or for one. -/
def implClass (impl : OCLBuiltinImpl) : Bool × Bool := (impl.isTarget, impl.variantName == "")

/-- The implementation is one for a signature of a builtin. -/
def Covers (builtins : List OCLBuiltin) (builtin : String) (sign : Types) (impl : OCLBuiltinImpl) : Prop :=
  impl.builtin = builtin ∧ sign ∈ (signsOf builtins impl).map BuiltinSign.tys

instance (builtins : List OCLBuiltin) (builtin : String) (sign : Types) :
    DecidablePred (Covers builtins builtin sign) := fun _ => inferInstanceAs (Decidable (_ ∧ _))

/-- The records are of different classes if there is a signature that both are for. -/
def Apart (builtins : List OCLBuiltin) (a b : OCLBuiltinImpl) : Prop :=
  ∀ builtin sign, Covers builtins builtin sign a → Covers builtins builtin sign b → implClass a ≠ implClass b

/-- After one more record than `done`, in some order of all the records. -/
def Next (impls done : List OCLBuiltinImpl) (impl : OCLBuiltinImpl) : Prop := ∃ l, l.Perm impls ∧ done ++ [impl] <+: l

/-- The types of the signature are in the table. -/
def Over (T : SignatureOrder.TypesTable) (s : BuiltinSign) : Prop := ∀ t ∈ s.tys, t ∈ T.types

section OneSignature
variable {builtins : List OCLBuiltin} {builtin : String} {sign : Types}

end OneSignature

/-! ## The best of the records -/

/-- The place of a class; a record for a target and all variants comes alone. -/
def rank (impl : OCLBuiltinImpl) : Nat := if impl.isTarget then 2 else if impl.variantName == "" then 0 else 1

section Best
variable {a b : OCLBuiltinImpl}

theorem rank_le (a : OCLBuiltinImpl) : rank a ≤ 2 := by
  unfold rank
  split
  · exact le_rfl
  · split <;> decide

end Best

/-! ## All orders -/

section Orders
variable {builtins : List OCLBuiltin} {impls l : List OCLBuiltinImpl} {builtin : String} {sign : Types}
  {a b : OCLBuiltinImpl}

theorem Apart.symm (h : Apart builtins a b) : Apart builtins b a := fun builtin sign hb ha => (h builtin sign ha hb).symm

instance : Std.Symm (Apart builtins) := ⟨fun _ _ => Apart.symm⟩

namespace OneOfEachClass

end OneOfEachClass

end Orders

/-! ## The ordered map -/

section OrderedMap
variable {T : SignatureOrder.TypesTable}

theorem Over.exists_list {s : BuiltinSign} (h : Over T s) : ∃ l : List T.types, l.map Subtype.val = s.tys :=
  ⟨s.tys.attachWith _ h, List.attachWith_map_subtype_val h⟩

section Compared
variable (hT : T.Ordered) {s s' s'' : BuiltinSign}
include hT

theorem compare_irrefl (h : Over T s) (heq : s'.tys = s.tys) : builtinSignCompare s s' = false := by
  obtain ⟨l, hl⟩ := h.exists_list
  refine Bool.eq_false_iff.2 fun hlt => hT.signs.irrefl l ?_
  rwa [builtinSignCompare, heq, ← hl] at hlt

theorem compare_trans (h : Over T s) (h' : Over T s') (h'' : Over T s'') (hlt : builtinSignCompare s s' = true)
    (hlt' : builtinSignCompare s' s'' = true) : builtinSignCompare s s'' = true := by
  obtain ⟨l, hl⟩ := h.exists_list
  obtain ⟨l', hl'⟩ := h'.exists_list
  obtain ⟨l'', hl''⟩ := h''.exists_list
  rw [builtinSignCompare, ← hl, ← hl'] at hlt
  rw [builtinSignCompare, ← hl', ← hl''] at hlt'
  rw [builtinSignCompare, ← hl, ← hl'']
  exact hT.signs.trans l l' l'' hlt hlt'

theorem compare_total (h : Over T s) (h' : Over T s') (hne : s.tys ≠ s'.tys) (hnot : builtinSignCompare s s' = false) :
    builtinSignCompare s' s = true := by
  obtain ⟨l, hl⟩ := h.exists_list
  obtain ⟨l', hl'⟩ := h'.exists_list
  rw [builtinSignCompare, ← hl, ← hl'] at hnot
  rw [builtinSignCompare, ← hl, ← hl']
  by_contra hnot'
  refine hne ?_
  rw [← hl, ← hl', hT.signs.trichotomous l l' (Bool.eq_false_iff.1 hnot) hnot']

end Compared

variable {m : OCLGen.Overloads.SignatureImplMap} {sign s k : BuiltinSign} {impl old : OCLBuiltinImpl}

theorem find_cons (hT : T.Ordered) (hk : Over T k) (hs : Over T s) :
    OCLGen.Overloads.SignatureImplMap.find s ((k, old) :: m) =
      if s.tys = k.tys then some old else if builtinSignCompare k s then m.find s else none := by
  rw [OCLGen.Overloads.SignatureImplMap.find]
  by_cases heq : s.tys = k.tys
  · rw [compare_irrefl hT hk heq, compare_irrefl hT hs heq.symm, if_pos heq]
    rfl
  · rw [if_neg heq]
    split
    · rfl
    · next hnot => rw [if_pos (compare_total hT hk hs (Ne.symm heq) (Bool.eq_false_iff.2 hnot))]

theorem set_cons (hT : T.Ordered) (hk : Over T k) (hs : Over T sign) :
    OCLGen.Overloads.SignatureImplMap.set sign impl ((k, old) :: m) =
      if sign.tys = k.tys then (k, impl) :: m
      else if builtinSignCompare k sign then (k, old) :: m.set sign impl else (sign, impl) :: (k, old) :: m := by
  rw [OCLGen.Overloads.SignatureImplMap.set]
  by_cases heq : sign.tys = k.tys
  · rw [compare_irrefl hT hk heq, compare_irrefl hT hs heq.symm, if_pos heq]
    rfl
  · rw [if_neg heq]
    split
    · rfl
    · next hnot => rw [if_pos (compare_total hT hk hs (Ne.symm heq) (Bool.eq_false_iff.2 hnot))]

theorem find_set (hT : T.Ordered) (hm : ∀ k ∈ m.map Prod.fst, Over T k) (hsign : Over T sign) (hs : Over T s) :
    (m.set sign impl).find s = if s.tys = sign.tys then some impl else m.find s := by
  induction m with
  | nil =>
    rw [OCLGen.Overloads.SignatureImplMap.set, find_cons hT hsign hs]
    simp only [OCLGen.Overloads.SignatureImplMap.find, ite_self]
  | cons e m ih =>
    obtain ⟨k, old⟩ := e
    rw [List.map_cons, List.forall_mem_cons] at hm
    obtain ⟨hk, hm⟩ := hm
    rw [set_cons hT hk hsign]
    by_cases heq : sign.tys = k.tys
    · rw [if_pos heq, find_cons hT hk hs, find_cons hT hk hs, heq]
      split <;> rfl
    · rw [if_neg heq]
      split
      · next hlt =>
        -- The new key comes behind this one.
        rw [find_cons hT hk hs, find_cons hT hk hs, ih hm]
        by_cases hsame : s.tys = sign.tys
        · have hne : ¬ s.tys = k.tys := fun h => heq (hsame.symm.trans h)
          have hlt' : builtinSignCompare k s = true := by rwa [builtinSignCompare, hsame]
          rw [if_neg hne, if_pos hlt', if_pos hsame, if_pos hsame]
        · simp only [hsame, if_false]
      · next hnot =>
        -- The new key comes first, and what is less than it is not there.
        have hlt := compare_total hT hk hsign (Ne.symm heq) (Bool.eq_false_iff.2 hnot)
        rw [find_cons hT hsign hs]
        by_cases hsame : s.tys = sign.tys
        · rw [if_pos hsame, if_pos hsame]
        · rw [if_neg hsame, if_neg hsame]
          split
          · rfl
          · next hnot' =>
            have hfirst := compare_total hT hsign hs (Ne.symm hsame) (Bool.eq_false_iff.2 hnot')
            have hbefore := compare_trans hT hs hsign hk hfirst hlt
            rw [OCLGen.Overloads.SignatureImplMap.find]
            have hafter : builtinSignCompare k s = false := by
              refine Bool.eq_false_iff.2 fun h => ?_
              exact Bool.false_ne_true ((compare_irrefl hT hs rfl).symm.trans (compare_trans hT hs hk hs hbefore h))
            rw [hafter, hbefore]
            rfl

/-- The ordered map holds for the signatures of the table what the function gives. -/
structure Agrees (T : SignatureOrder.TypesTable) (m : OCLGen.Overloads.SignatureImplMap) (f : SignatureImplMap) : Prop where
  keys : ∀ k ∈ m.map Prod.fst, Over T k
  find : ∀ s, Over T s → m.find s = f s.tys

theorem Agrees.set {f : SignatureImplMap} (hT : T.Ordered) (h : Agrees T m f) (hsign : Over T sign) :
    Agrees T (m.set sign impl) (Function.update f sign.tys (some impl)) where
  keys k hk := (OCLGen.Overloads.mem_keys_set hk).elim (fun heq => heq ▸ hsign) (h.keys k)
  find s hs := by
    rw [find_set hT h.keys hsign hs, Function.update_apply, h.find s hs]

theorem Agrees.insert {f : SignatureImplMap} (hT : T.Ordered) (h : Agrees T m f) (hsign : Over T sign) :
    Agrees T (m.insert impl sign) (insertSign impl f sign) := by
  have hset : Agrees T (m.set sign impl) (Function.update f sign.tys (some impl)) := h.set hT hsign
  unfold OCLGen.Overloads.SignatureImplMap.insert insertSign
  rw [h.find sign hsign]
  cases f sign.tys with
  | none => exact hset
  | some old =>
    change Agrees T (if replaces impl (some old) then m.set sign impl else m) _
    split
    · exact hset
    · exact h

end OrderedMap

/-! ## What the maps hold -/

section Maps
variable {builtins : List OCLBuiltin} {impls : List OCLBuiltinImpl} {B : OCLBuiltin} {s : BuiltinSign}

end Maps

/-! ## Two builtins -/

def uintType : OCLScalarType := .integer "ocl_uint" 32 true ∅

/-- A builtin without parameters. -/
def workDim : OCLBuiltin where
  record := "blt_get_work_dim"
  kind := .generic
  name := "get_work_dim"
  variants := [("u", { operands := [.basic (.scalar uintType)], constraints := [], predicates := ∅ })]

end OpenCRun.ImplSelection
