import OpenCRun.Lib.Backtracking
import OpenCRun.Lib.Multimap
import OpenCRun.OCLGen.Overloads
/-!
# Expansion of signatures

`ExpandSigns` places a member of each operand after the other and checks a
constraint when the last operand that it names is placed. A constraint that
cannot look at the members ends the generator, or reads a variable that is not
set.
-/
namespace OpenCRun.SignatureExpansion

open Lib Lib.Backtracking
open OCLGen.Overloads (OCLBasicType OCLScalarType OCLType BuiltinSign PredicateSet)

/-! ## Constraints -/

inductive OCLParam where
  | id (operand : Nat)
  | pointee (operand nest : Nat)
  deriving DecidableEq, Repr

/-- What keeps a constraint from an answer. -/
inductive Fault where
  /-- `PrintFatalError` -/
  | fatalError
  /-- The read of a variable that is not set, or of an operand that is not there. Nothing is defined from then on. -/
  | undefined
  deriving DecidableEq, Repr

/-- The loop of `OCLParamPointee::get`. -/
def dereference : Nat → OCLBasicType → Except Fault OCLBasicType
  | 0, t => .ok t
  | n + 1, .pointer _ base _ _ _ => dereference n base
  | _ + 1, _ => .error .fatalError

namespace OCLParam

def getOperand : OCLParam → Nat
  | id op | pointee op _ => op

/-- `Ops[getOperand()]` -/
def operand (ops : List OCLBasicType) (op : Nat) : Except Fault OCLBasicType :=
  match ops[op]? with
  | some t => .ok t
  | none => .error .undefined

def get (ops : List OCLBasicType) : OCLParam → Except Fault OCLBasicType
  | id op => operand ops op
  | pointee op nest => do dereference nest (← operand ops op)

end OCLParam

/-- A scalar type, or that of the elements of a vector. -/
def baseType : OCLBasicType → Option OCLScalarType
  | .scalar s => some s
  | .vector _ base _ => some base
  | _ => none

/-- A relation of the bases of two types; false without bases. -/
def onBases (r : OCLScalarType → OCLScalarType → Bool) (t t' : OCLBasicType) : Bool :=
  match baseType t, baseType t' with
  | some b, some b' => r b b'
  | _, _ => false

def getBitWidth : OCLScalarType → Nat
  | .integer _ w _ _ | .real _ w _ => w

/-- `getKind` of an integer or a real type. -/
def isInteger : OCLScalarType → Bool
  | .integer .. => true
  | .real .. => false

def sameType (t t' : OCLBasicType) : Bool := t == t'

def sameDimType : OCLBasicType → OCLBasicType → Bool
  | .vector _ _ w, .vector _ _ w' => w == w'
  | .scalar _, .scalar _ => true
  | _, _ => false

def sameBaseType : OCLBasicType → OCLBasicType → Bool := onBases (· == ·)

def sameBaseSizeType : OCLBasicType → OCLBasicType → Bool := onBases fun b b' => getBitWidth b == getBitWidth b'

def sameBaseKindType : OCLBasicType → OCLBasicType → Bool := onBases fun b b' => isInteger b == isInteger b'

/-- An `unsigned` product; 0 stands for a type without a size. -/
def bitSize : OCLBasicType → Nat
  | .scalar s => getBitWidth s
  | .vector _ base w => getBitWidth base * w % 2 ^ 32
  | _ => 0

def sameBitSizeType (t t' : OCLBasicType) : Bool :=
  bitSize t != 0 && bitSize t' != 0 && bitSize t == bitSize t'

/-- The name of the image and the type of the coordinates, as far as they are set. -/
abbrev ImageOperands := Option String × Option OCLBasicType

/-- What `isCompatibleWithImageDim` takes from one of its operands. -/
def setImageOperand (set : ImageOperands) : OCLBasicType → Except Fault ImageOperands
  | .opaqueType _ name _ => .ok (some name, set.2)
  | t@(.scalar _) | t@(.vector ..) => .ok (set.1, some t)
  | .qualified _ (.opaqueType _ name _) _ _ => .ok (some name, set.2)
  | .qualified .. => .error .fatalError
  | .pointer .. => .ok set

/-- Whether coordinates of the type fit an image. -/
def coordinatesFit (image : String) (coord : OCLBasicType) : Bool :=
  match coord with
  | .scalar _ => image == "image1d_t" || image == "image1d_buffer_t"
  | .vector _ _ w =>
    if image == "image1d_array_t" || image == "image2d_t" then w == 2
    else if image == "image2d_array_t" || image == "image3d_t" then w == 4
    else false
  | _ => false

/-- Without an image or without coordinates, variables are read that are not set. -/
def compatibleWithImageDim (t t' : OCLBasicType) : Except Fault Bool := do
  let set ← setImageOperand (none, none) t
  match ← setImageOperand set t' with
  | (some image, some coord) => .ok (coordinatesFit image coord)
  | _ => .error .undefined

inductive BinaryKind where
  | same | sameDim | sameBase | sameBaseKind | sameBaseSize | sameBitSize | compatibleWithImageDim
  deriving DecidableEq, Repr

def BinaryKind.apply : BinaryKind → OCLBasicType → OCLBasicType → Except Fault Bool
  | same, t, t' => .ok (sameType t t')
  | sameDim, t, t' => .ok (sameDimType t t')
  | sameBase, t, t' => .ok (sameBaseType t t')
  | sameBaseKind, t, t' => .ok (sameBaseKindType t t')
  | sameBaseSize, t, t' => .ok (sameBaseSizeType t t')
  | sameBitSize, t, t' => .ok (sameBitSizeType t t')
  | compatibleWithImageDim, t, t' => SignatureExpansion.compatibleWithImageDim t t'

inductive OCLTypeConstraint where
  | not (basic : OCLTypeConstraint)
  | binary (kind : BinaryKind) (first second : OCLParam)
  deriving DecidableEq, Repr

namespace OCLTypeConstraint

def getMaxOperand : OCLTypeConstraint → Nat
  | not basic => basic.getMaxOperand
  | binary _ first second => max first.getOperand second.getOperand

def apply (ops : List OCLBasicType) : OCLTypeConstraint → Except Fault Bool
  | not basic => (basic.apply ops).map (!·)
  | binary kind first second => do
    let t ← first.get ops
    let t' ← second.get ops
    kind.apply t t'

end OCLTypeConstraint

/-! ## Iterators of groups -/

/-- What `FindInnerGroup` finds beneath the qualified types or the pointers. -/
def innerGroup : OCLType → Option (List OCLBasicType)
  | .qualifiedGroup ms _ | .pointerGroup ms _ => some ms
  | .basic _ | .group _ => none

/-- `ExpandQualifiedType` and `ExpandPointerType` for a member of the group. -/
def expandMember (member : OCLBasicType) : OCLType → OCLBasicType
  | .qualifiedGroup _ q => .qualified none member q ∅
  | .pointerGroup _ chain => OCLGen.Overloads.expandPointerType chain member
  | .basic _ | .group _ => member

/-- `OCLQualifiedGroupIterator` and `OCLPointerGroupIterator`, which differ only in what is expanded. -/
structure GroupIterator where
  type : OCLType
  /-- From `Iter` up to `IterEnd`. -/
  iter : List OCLBasicType
  atEnd : Bool
  singleton : Bool

namespace GroupIterator

/-- The constructor, with what is left of the group. -/
def make (type : OCLType) (atEnd : Bool) : GroupIterator :=
  match innerGroup type with
  | none => { type, iter := [], atEnd, singleton := true }
  | some ms =>
    let iter := if atEnd then [] else ms
    { type, iter, atEnd := iter.isEmpty, singleton := false }

/-- `operator==`, of two iterators over one type. -/
def eq (I J : GroupIterator) : Bool := if !I.atEnd && !J.atEnd then I.iter == J.iter else I.atEnd == J.atEnd

/-- `operator*`; not at the end. -/
def deref (I : GroupIterator) : Except Fault OCLBasicType :=
  if I.atEnd then .error .undefined
  else if I.singleton then
    match I.type with
    | .basic t => .ok t
    | _ => .error .undefined
  else
    match I.iter with
    | m :: _ => .ok (expandMember m I.type)
    | [] => .error .undefined

/-- `operator++` -/
def next (I : GroupIterator) : GroupIterator :=
  if I.singleton then { I with atEnd := true } else { I with iter := I.iter.tail, atEnd := I.iter.tail.isEmpty }

/-- The steps that are left. -/
def remaining (I : GroupIterator) : Nat := if I.atEnd then 0 else I.iter.length + 1

theorem make_atEnd (type : OCLType) : (make type true).atEnd = true := by
  unfold make
  split <;> rfl

theorem remaining_next {I : GroupIterator} (h : I.atEnd = false) : I.next.remaining < I.remaining := by
  unfold next remaining
  split
  · simp [h]
  · rcases I.iter with _ | ⟨m, _ | ⟨m', ms⟩⟩
    · simp [h]
    · simp [h]
    · simp [h]

theorem atEnd_of_ne {I : GroupIterator} {type : OCLType} (h : I.eq (make type true) = false) : I.atEnd = false := by
  simpa [eq, make_atEnd] using h

/-- `for (; I != E; ++I)`, over a state. -/
def forEach {σ : Type} (body : σ → OCLBasicType → Except Fault σ) (I : GroupIterator) (s : σ) : Except Fault σ :=
  if h : I.eq (make I.type true) then .ok s
  else
    have := remaining_next (atEnd_of_ne (Bool.eq_false_iff.2 h))
    do
      let t ← I.deref
      let s ← body s t
      forEach body I.next s
termination_by I.remaining

end GroupIterator

/-! ## The expansion -/

/-- The members of a group are those of a set; beneath a group there is one pointer. -/
def Expandable : OCLType → Prop
  | .basic _ => True
  | .group ms | .qualifiedGroup ms _ => ms.Nodup
  | .pointerGroup ms chain => ms.Nodup ∧ chain.length = 1

/-- A variant, with constraints over its own operands. -/
structure OCLBuiltinVariant where
  operands : List OCLType
  constraints : List OCLTypeConstraint
  predicates : PredicateSet
  expandable : ∀ op ∈ operands, Expandable op
  over_operands : ∀ c ∈ constraints, c.getMaxOperand < operands.length

abbrev ConstraintMap := Multimap Nat OCLTypeConstraint

def computeConstraintMap (constraints : List OCLTypeConstraint) : ConstraintMap :=
  constraints.foldl (fun m c => m.insert c.getMaxOperand c) .empty

/-- The loop of `IsConsistent`, from an entry on. -/
def checkFrom (lastOperand : Nat) (tys : List OCLBasicType) : List (Nat × OCLTypeConstraint) → Except Fault Bool
  | [] => .ok true
  | e :: es =>
    if e.1 = lastOperand then do
      if ← e.2.apply tys then checkFrom lastOperand tys es else .ok false
    else .ok true

/-- `IsConsistent`. Of equal keys, `find` gives the first. -/
def isConsistent (cmap : ConstraintMap) (tys : List OCLBasicType) : Except Fault Bool :=
  let lastOperand := tys.length - 1
  checkFrom lastOperand tys (cmap.find lastOperand)

def pushBack (sign : BuiltinSign) (t : OCLBasicType) : BuiltinSign := { sign with tys := sign.tys ++ [t] }

def popBack (sign : BuiltinSign) : BuiltinSign := { sign with tys := sign.tys.dropLast }

/-- `Tmp` and `R`. -/
abbrev Enumeration := BuiltinSign × List BuiltinSign

/-- The body of the loops over the members: `rest` enumerates the operands that follow. -/
def place (cmap : ConstraintMap) (rest : Enumeration → Except Fault Enumeration) (e : Enumeration) (t : OCLBasicType) :
    Except Fault Enumeration := do
  let e := (pushBack e.1 t, e.2)
  let e ← if ← isConsistent cmap e.1.tys then rest e else .ok e
  .ok (popBack e.1, e.2)

/-- The loop for an operand, by its class. -/
def forMembers (body : Enumeration → OCLBasicType → Except Fault Enumeration) (op : OCLType) (e : Enumeration) :
    Except Fault Enumeration :=
  match op with
  | .group ms => ms.foldlM body e
  | .qualifiedGroup .. | .basic (.qualified ..) => (GroupIterator.make op false).forEach body e
  | .pointerGroup .. | .basic (.pointer ..) => (GroupIterator.make op false).forEach body e
  | .basic t => body e t

def enumerateSigns (cmap : ConstraintMap) : List OCLType → Enumeration → Except Fault Enumeration
  | [], e => .ok (e.1, e.2 ++ [e.1])
  | op :: ops, e => forMembers (place cmap (enumerateSigns cmap ops)) op e

/-- The signatures come behind those of the list. -/
def expandSigns (B : OCLBuiltinVariant) (L : List BuiltinSign) : Except Fault (List BuiltinSign) :=
  (enumerateSigns (computeConstraintMap B.constraints) B.operands ({ tys := [], predicates := B.predicates }, L)).map
    Prod.snd

/-! ## The members of an operand -/

section Members
variable {σ : Type} (body : σ → OCLBasicType → Except Fault σ)

theorem forEach_group {type : OCLType} (ms : List OCLBasicType) (s : σ) :
    GroupIterator.forEach body { type, iter := ms, atEnd := ms.isEmpty, singleton := false } s =
      ms.foldlM (fun s m => body s (expandMember m type)) s := by
  induction ms generalizing s with
  | nil =>
    rw [GroupIterator.forEach, dif_pos (by simp [GroupIterator.eq, GroupIterator.make_atEnd])]
    rfl
  | cons m ms ih =>
    rw [GroupIterator.forEach, dif_neg (by simp [GroupIterator.eq, GroupIterator.make_atEnd]), List.foldlM_cons]
    refine congrArg (body s (expandMember m type) >>= ·) (funext fun s' => ?_)
    exact ih s'

theorem forEach_singleton (t : OCLBasicType) (s : σ) :
    GroupIterator.forEach body (GroupIterator.make (.basic t) false) s = body s t := by
  have hend : ∀ s, GroupIterator.forEach body ⟨.basic t, [], true, true⟩ s = .ok s := by
    intro s
    rw [GroupIterator.forEach, dif_pos (by simp [GroupIterator.eq, GroupIterator.make_atEnd])]
  rw [GroupIterator.forEach, dif_neg (by simp [GroupIterator.eq, GroupIterator.make, innerGroup])]
  calc (body s t >>= fun s => GroupIterator.forEach body ⟨.basic t, [], true, true⟩ s)
      = (body s t >>= fun s => .ok s) := congrArg (body s t >>= ·) (funext hend)
    _ = body s t := bind_pure (body s t)

end Members

/-- Each class of operands is run through as its members. -/
theorem forMembers_eq (body : Enumeration → OCLBasicType → Except Fault Enumeration) (op : OCLType) (e : Enumeration) :
    forMembers body op e = op.members.foldlM body e := by
  have hone : ∀ t, body e t = [t].foldlM body e := fun t => (bind_pure (body e t)).symm
  cases op with
  | group ms => rfl
  | qualifiedGroup ms q =>
    rw [OCLType.members, List.foldlM_map]
    exact forEach_group body ms e
  | pointerGroup ms chain =>
    rw [OCLType.members, List.foldlM_map]
    exact forEach_group body ms e
  | basic t =>
    rw [OCLType.members, ← hone]
    cases t with
    | scalar | vector | opaqueType => rfl
    | qualified | pointer => exact forEach_singleton body _ e

/-! ## Checks -/

/-- The constraints that are checked together, one after the other up to the first that does not hold. -/
def checkAll (tys : List OCLBasicType) : List OCLTypeConstraint → Except Fault Bool
  | [] => .ok true
  | c :: cs => do
    if ← c.apply tys then checkAll tys cs else .ok false

section Checks
variable {tys : List OCLBasicType} {cs : List OCLTypeConstraint} {c : OCLTypeConstraint}

theorem checkFrom_eq (k : Nat) (tys : List OCLBasicType) (es : List (Nat × OCLTypeConstraint)) :
    checkFrom k tys es = checkAll tys ((es.takeWhile (·.1 = k)).map Prod.snd) := by
  induction es with
  | nil => rfl
  | cons e es ih =>
    rw [checkFrom]
    by_cases h : e.1 = k
    · rw [if_pos h, List.takeWhile_cons_of_pos (by simpa using h), List.map_cons, checkAll, ih]
    · rw [if_neg h, List.takeWhile_cons_of_neg (by simpa using h), List.map_nil, checkAll]

/-- Just the constraints of which the last operand is placed are checked, in their order. -/
theorem isConsistent_eq (cs : List OCLTypeConstraint) (tys : List OCLBasicType) :
    isConsistent (computeConstraintMap cs) tys = checkAll tys (cs.filter (·.getMaxOperand = tys.length - 1)) := by
  rw [isConsistent, checkFrom_eq, Multimap.takeWhile_find, computeConstraintMap,
    Multimap.valuesAt_foldl OCLTypeConstraint.getMaxOperand (fun c => c), List.map_id']

theorem checkAll_cons_of_ok {b : Bool} (h : c.apply tys = .ok b) :
    checkAll tys (c :: cs) = if b then checkAll tys cs else .ok false := by
  rw [checkAll, h]
  rfl

theorem checkAll_cons_of_error {e : Fault} (h : c.apply tys = .error e) : checkAll tys (c :: cs) = .error e := by
  rw [checkAll, h]
  rfl

theorem checkAll_eq_true_iff : checkAll tys cs = .ok true ↔ ∀ c ∈ cs, c.apply tys = .ok true := by
  induction cs with
  | nil => simp [checkAll]
  | cons c cs ih =>
    rw [List.forall_mem_cons, ← ih]
    rcases hc : c.apply tys with e | _ | _
    · simp [checkAll_cons_of_error hc]
    · simp [checkAll_cons_of_ok hc]
    · simp [checkAll_cons_of_ok hc]

/-- The check ends in an error at the first constraint that has no answer, if all before it hold. -/
theorem checkAll_error_iff : (∃ e, checkAll tys cs = .error e) ↔
    ∃ before c after, cs = before ++ c :: after ∧ (∀ b ∈ before, b.apply tys = .ok true) ∧
      ∃ e, c.apply tys = .error e := by
  induction cs with
  | nil => simp [checkAll]
  | cons c cs ih =>
    constructor
    · intro h
      rcases hc : c.apply tys with e | _ | _
      · exact ⟨[], c, cs, rfl, by simp, e, hc⟩
      · simp [checkAll_cons_of_ok hc] at h
      · obtain ⟨before, d, after, rfl, hbefore, hd⟩ := ih.1 (by simpa [checkAll_cons_of_ok hc] using h)
        exact ⟨c :: before, d, after, rfl, List.forall_mem_cons.2 ⟨hc, hbefore⟩, hd⟩
    · rintro ⟨before, d, after, heq, hbefore, e, hd⟩
      cases before with
      | nil =>
        obtain ⟨rfl, -⟩ := List.cons.inj heq
        exact ⟨e, checkAll_cons_of_error hd⟩
      | cons b before =>
        obtain ⟨rfl, rfl⟩ := List.cons.inj heq
        obtain ⟨hc, hbefore⟩ := List.forall_mem_cons.1 hbefore
        rw [checkAll_cons_of_ok hc]
        exact ih.2 ⟨before, d, after, rfl, hbefore, e, hd⟩

theorem get_append {p : OCLParam} {s : List OCLBasicType} (h : p.getOperand < s.length) (t : List OCLBasicType) :
    p.get (s ++ t) = p.get s := by
  have hoperand : OCLParam.operand (s ++ t) p.getOperand = OCLParam.operand s p.getOperand := by
    rw [OCLParam.operand, OCLParam.operand, List.getElem?_append_left h]
  cases p with
  | id op => exact hoperand
  | pointee op nest => exact congrArg (· >>= dereference nest) hoperand

/-- A constraint does not look at what comes behind its last operand. -/
theorem apply_append {s : List OCLBasicType} (h : c.getMaxOperand < s.length) (t : List OCLBasicType) :
    c.apply (s ++ t) = c.apply s := by
  induction c with
  | not basic ih => exact congrArg (Except.map (!·)) (ih h)
  | binary kind first second =>
    obtain ⟨hfirst, hsecond⟩ := max_lt_iff.1 h
    rw [OCLTypeConstraint.apply, OCLTypeConstraint.apply, get_append hfirst, get_append hsecond]

/-- The test after each placement, as the search makes it. -/
abbrev admits (cs : List OCLTypeConstraint) (tys : List OCLBasicType) : Bool :=
  passes (isConsistent (computeConstraintMap cs)) tys

theorem admits_iff : admits cs tys = true ↔ ∀ c ∈ cs, c.getMaxOperand = tys.length - 1 → c.apply tys = .ok true := by
  rw [admits, passes_iff, isConsistent_eq, checkAll_eq_true_iff]
  simp only [List.mem_filter, decide_eq_true_eq, and_imp]

/-- All steps pass exactly if the constraints hold of which the operands are placed. -/
theorem admitted_iff : Admitted (admits cs) [] tys ↔ ∀ c ∈ cs, c.getMaxOperand < tys.length → c.apply tys = .ok true := by
  constructor
  · intro h c hc hlt
    have hpre := List.take_prefix (c.getMaxOperand + 1) tys
    have hlength : (tys.take (c.getMaxOperand + 1)).length = c.getMaxOperand + 1 := by
      rw [List.length_take]
      omega
    have hne : tys.take (c.getMaxOperand + 1) ≠ [] := List.ne_nil_of_length_pos (by omega)
    have hat := admits_iff.1 (h _ hne hpre) c hc (by rw [List.nil_append, hlength]; rfl)
    calc c.apply tys = c.apply (tys.take (c.getMaxOperand + 1) ++ tys.drop (c.getMaxOperand + 1)) := by
          rw [List.take_append_drop]
      _ = c.apply (tys.take (c.getMaxOperand + 1)) := apply_append (by omega) _
      _ = .ok true := hat
  · rintro h p hne ⟨rest, rfl⟩
    refine admits_iff.2 fun c hc hlast => ?_
    rw [List.nil_append] at hlast ⊢
    have hlt : c.getMaxOperand < p.length := by
      have := List.length_pos_of_ne_nil hne
      omega
    rw [← apply_append hlt rest]
    exact h c hc (by rw [List.length_append]; omega)

end Checks

/-! ## Every signature once -/

@[simp] theorem pushBack_tys (sign : BuiltinSign) (t : OCLBasicType) : (pushBack sign t).tys = sign.tys ++ [t] := rfl

@[simp] theorem popBack_pushBack (sign : BuiltinSign) (t : OCLBasicType) : popBack (pushBack sign t) = sign := by
  simp [popBack, pushBack]

section Place
variable {cmap : ConstraintMap} {rest : Enumeration → Except Fault Enumeration} {tmp : BuiltinSign} {t : OCLBasicType}

theorem place_of_error {e : Fault} (h : isConsistent cmap (tmp.tys ++ [t]) = .error e) (r : List BuiltinSign) :
    place cmap rest (tmp, r) t = .error e := by
  rw [place, pushBack_tys, h]
  rfl

theorem place_of_false (h : isConsistent cmap (tmp.tys ++ [t]) = .ok false) (r : List BuiltinSign) :
    place cmap rest (tmp, r) t = .ok (tmp, r) := by
  rw [place, pushBack_tys, h]
  exact congrArg (fun tmp => Except.ok (tmp, r)) (popBack_pushBack tmp t)

theorem place_of_true (h : isConsistent cmap (tmp.tys ++ [t]) = .ok true) (r : List BuiltinSign) :
    place cmap rest (tmp, r) t = rest (pushBack tmp t, r) >>= fun e => .ok (popBack e.1, e.2) := by
  rw [place, pushBack_tys, h]
  rfl

/-- A turn of the loop over the members, with what is found for the operands that follow. -/
theorem place_yields {off : Prop} {found : List BuiltinSign} (r : List BuiltinSign)
    (hrest : Yields (rest (pushBack tmp t, r)) off (pushBack tmp t, r ++ found)) :
    Yields (place cmap rest (tmp, r) t)
      ((∃ e, isConsistent cmap (tmp.tys ++ [t]) = .error e) ∨ (isConsistent cmap (tmp.tys ++ [t]) = .ok true ∧ off))
      (tmp, r ++ if passes (isConsistent cmap) (tmp.tys ++ [t]) then found else []) := by
  rcases htest : isConsistent cmap (tmp.tys ++ [t]) with e | _ | _
  · rw [place_of_error htest]
    exact ⟨fun _ => ⟨e, rfl⟩, fun hnone => absurd (.inl ⟨e, rfl⟩) hnone⟩
  · have hfails : ¬ passes (isConsistent cmap) (tmp.tys ++ [t]) = true := by simp [passes_iff, htest]
    rw [place_of_false htest, if_neg hfails, List.append_nil]
    exact ⟨fun h => by simp at h, fun _ => rfl⟩
  · rw [place_of_true htest, if_pos (passes_iff.2 htest)]
    constructor
    · intro h
      obtain ⟨e, he⟩ := hrest.error (by simpa using h)
      exact ⟨e, by rw [he]; rfl⟩
    · intro h
      rw [hrest.ok (by simpa using h)]
      exact congrArg (fun tmp => Except.ok (tmp, r ++ found)) (popBack_pushBack tmp t)

end Place

section Enumeration
variable (cs : List OCLTypeConstraint)

/-- The signatures that are found behind what is placed already. -/
def signsFrom (ops : List OCLType) (tmp : BuiltinSign) : List BuiltinSign :=
  (search (admits cs) (ops.map OCLType.members) tmp.tys).map fun tys => { tmp with tys }

/-- The operands are enumerated as by a search, and what was placed is taken away again. -/
theorem enumerateSigns_yields (ops : List OCLType) (tmp : BuiltinSign) (r : List BuiltinSign) :
    Yields (enumerateSigns (computeConstraintMap cs) ops (tmp, r))
      (Aborts (isConsistent (computeConstraintMap cs)) (ops.map OCLType.members) tmp.tys)
      (tmp, r ++ signsFrom cs ops tmp) := by
  induction ops generalizing tmp r with
  | nil => exact ⟨fun h => absurd h (not_aborts_nil _ _), fun _ => rfl⟩
  | cons op ops ih =>
    have hturn := fun t (_ : t ∈ op.members) r =>
      @place_yields (computeConstraintMap cs) _ tmp t _ _ r (ih (pushBack tmp t) r)
    have hloop := foldlM_search hturn r
    rw [enumerateSigns, forMembers_eq, List.map_cons]
    refine ⟨fun h => hloop.error ((aborts_cons_iff _).1 h), fun h => (hloop.ok (mt (aborts_cons_iff _).2 h)).trans ?_⟩
    rw [signsFrom, List.map_cons, search, List.map_flatMap]
    congr 3
    refine List.flatMap_congr fun t _ => ?_
    split
    · rfl
    · rfl

end Enumeration

/-! ## Exactness -/

namespace OCLBuiltinVariant

/-- A member for each operand. -/
def Chooses (B : OCLBuiltinVariant) (tys : List OCLBasicType) : Prop :=
  List.Forall₂ (fun t op => t ∈ op.members) tys B.operands

def Satisfies (B : OCLBuiltinVariant) (tys : List OCLBasicType) : Prop := ∀ c ∈ B.constraints, c.apply tys = .ok true

/-- A constraint that cannot look at some members for the operands up to its last one, although all constraints that
come before it hold: those with an earlier last operand, and those before it in the list with the same. -/
def Faults (B : OCLBuiltinVariant) : Prop :=
  ∃ before c after tys, B.constraints = before ++ c :: after ∧
    List.Forall₂ (fun t op => t ∈ op.members) tys (B.operands.take (c.getMaxOperand + 1)) ∧
    (∀ b ∈ B.constraints, b.getMaxOperand < c.getMaxOperand → b.apply tys = .ok true) ∧
    (∀ b ∈ before, b.getMaxOperand = c.getMaxOperand → b.apply tys = .ok true) ∧ ∃ e, c.apply tys = .error e

variable (B : OCLBuiltinVariant)

theorem aborts_iff : Aborts (isConsistent (computeConstraintMap B.constraints)) (B.operands.map OCLType.members) [] ↔
    B.Faults := by
  constructor
  · rintro ⟨p, x, hchosen, hpass, hnone⟩
    rw [List.nil_append, isConsistent_eq, List.length_append, List.length_singleton, Nat.add_sub_cancel,
      checkAll_error_iff] at hnone
    obtain ⟨before, c, after, hsplit, hbefore, hc⟩ := hnone
    obtain ⟨pre, suf, hcs, hpre, hsuf⟩ := List.filter_eq_append_iff.1 hsplit
    obtain ⟨skip, after, rfl, hskip, hlast, -⟩ := List.filter_eq_cons_iff.1 hsuf
    have hlast : c.getMaxOperand = p.length := of_decide_eq_true hlast
    refine ⟨pre ++ skip, c, after, p ++ [x], by rw [hcs, List.append_assoc], ?_, fun b hb hlt => ?_, fun b hb hsame => ?_, hc⟩
    · rw [hlast]
      exact List.forall₂_map_right_iff.1 (by rwa [List.map_take])
    · rw [hlast] at hlt
      rw [apply_append hlt]
      exact admitted_iff.1 hpass b hb hlt
    · rcases List.mem_append.1 hb with hb | hb
      · exact hbefore b (hpre ▸ List.mem_filter.2 ⟨hb, decide_eq_true (hsame.trans hlast)⟩)
      · exact absurd (decide_eq_true (hsame.trans hlast)) (hskip b hb)
  · rintro ⟨before, c, after, tys, hcs, hchosen, hless, hsame, hc⟩
    have hover := B.over_operands c (hcs ▸ List.mem_append_right before List.mem_cons_self)
    have hlength : tys.length = c.getMaxOperand + 1 := by
      rw [hchosen.length_eq, List.length_take]
      omega
    obtain ⟨p, x, rfl⟩ := (List.eq_nil_or_concat' tys).resolve_left (List.ne_nil_of_length_pos (by omega))
    have hlast : c.getMaxOperand = p.length := by
      rw [List.length_append, List.length_singleton] at hlength
      omega
    refine ⟨p, x, ?_, admitted_iff.2 fun b hb hlt => ?_, ?_⟩
    · rw [← hlast, ← List.map_take]
      exact List.forall₂_map_right_iff.2 hchosen
    · rw [← apply_append hlt [x]]
      exact hless b hb (hlast ▸ hlt)
    · rw [List.nil_append, isConsistent_eq, List.length_append, List.length_singleton, Nat.add_sub_cancel,
        checkAll_error_iff, hcs, List.filter_append, List.filter_cons_of_pos (by simpa using hlast)]
      refine ⟨_, c, _, rfl, fun b hb => ?_, hc⟩
      obtain ⟨hb, hkey⟩ := List.mem_filter.1 hb
      exact hsame b hb ((of_decide_eq_true hkey).trans hlast.symm)

/-- The members of an operand differ. -/
theorem members_nodup {op : OCLType} (h : Expandable op) : op.members.Nodup := by
  cases op with
  | basic t => exact List.nodup_singleton t
  | group ms => exact h
  | qualifiedGroup ms q => exact List.Nodup.map (fun t t' heq => by injection heq) h
  | pointerGroup ms chain =>
    obtain ⟨hms, hchain⟩ := h
    obtain ⟨d, rfl⟩ := List.length_eq_one_iff.1 hchain
    exact List.Nodup.map (fun t t' heq => by injection heq) hms

/-- The signatures that a variant stands for. -/
def signs : List BuiltinSign := signsFrom B.constraints B.operands { tys := [], predicates := B.predicates }

theorem mem_signs_iff {s : BuiltinSign} :
    s ∈ B.signs ↔ s.predicates = B.predicates ∧ B.Chooses s.tys ∧ B.Satisfies s.tys := by
  have hsearch : ∀ tys, tys ∈ search (admits B.constraints) (B.operands.map OCLType.members) [] ↔
      B.Chooses tys ∧ B.Satisfies tys := by
    intro tys
    rw [mem_search_iff]
    constructor
    · rintro ⟨rest, rfl, hchosen, hpass⟩
      have hchosen : B.Chooses tys := List.forall₂_map_right_iff.1 hchosen
      refine ⟨hchosen, fun c hc => admitted_iff.1 hpass c hc ?_⟩
      rw [hchosen.length_eq]
      exact B.over_operands c hc
    · rintro ⟨hchosen, hsat⟩
      exact ⟨tys, rfl, List.forall₂_map_right_iff.2 hchosen, admitted_iff.2 fun c hc _ => hsat c hc⟩
  rw [signs, signsFrom, List.mem_map]
  constructor
  · rintro ⟨tys, htys, rfl⟩
    exact ⟨rfl, (hsearch tys).1 htys⟩
  · rintro ⟨hpreds, h⟩
    refine ⟨s.tys, (hsearch s.tys).2 h, ?_⟩
    rw [← hpreds]

theorem signs_nodup : B.signs.Nodup := by
  refine List.Nodup.map (fun tys tys' heq => by injection heq) (search_nodup (fun pool hpool => ?_) [])
  obtain ⟨op, hop, rfl⟩ := List.mem_map.1 hpool
  exact members_nodup (B.expandable op hop)

/-- The variant as the emitters of prototypes and definitions see it. -/
def emitted : OCLGen.Overloads.OCLBuiltinVariant where
  operands := B.operands
  constraints := B.constraints.map fun c => { maxOperand := c.getMaxOperand, apply := passes fun tys => c.apply tys }
  predicates := B.predicates

theorem enumerateSigns_emitted (ops : List OCLType) (tmp : List OCLBasicType) :
    OCLGen.Overloads.enumerateSigns B.emitted.constraints ops tmp =
      search (admits B.constraints) (ops.map OCLType.members) tmp := by
  have hadmits : ∀ tys, OCLGen.Overloads.isConsistent B.emitted.constraints tys = admits B.constraints tys := by
    intro tys
    rw [Bool.eq_iff_iff, admits_iff, OCLGen.Overloads.isConsistent, emitted, List.all_map, List.all_eq_true]
    refine forall₂_congr fun c _ => ?_
    simp only [Function.comp_apply, Bool.or_eq_true, bne_iff_ne, passes_iff]
    exact Decidable.imp_iff_not_or.symm
  induction ops generalizing tmp with
  | nil => rfl
  | cons op ops ih =>
    rw [OCLGen.Overloads.enumerateSigns, List.map_cons, search]
    refine List.flatMap_congr fun t _ => ?_
    rw [hadmits, ih]

/-- The emitters see the same signatures. -/
theorem expandSigns_emitted : OCLGen.Overloads.expandSigns B.emitted = B.signs := by
  rw [OCLGen.Overloads.expandSigns, enumerateSigns_emitted]
  rfl

end OCLBuiltinVariant

/-- The signatures that are added are those with a member for each operand that satisfy every constraint, each of them
once. -/
def ExpandsExactly (B : OCLBuiltinVariant) (L : List BuiltinSign) : Prop :=
  ∃ new, expandSigns B L = .ok (L ++ new) ∧ new.Nodup ∧
    ∀ s, s ∈ new ↔ s.predicates = B.predicates ∧ B.Chooses s.tys ∧ B.Satisfies s.tys

/-- The expansion is exact where no constraint is left without an answer. -/
theorem expandsExactly_iff (B : OCLBuiltinVariant) (L : List BuiltinSign) : ExpandsExactly B L ↔ ¬ B.Faults := by
  have hrun := enumerateSigns_yields B.constraints B.operands { tys := [], predicates := B.predicates } L
  constructor
  · rintro ⟨new, hnew, -⟩ hfaults
    obtain ⟨e, he⟩ := hrun.error (B.aborts_iff.2 hfaults)
    rw [expandSigns, he] at hnew
    cases hnew
  · intro hnone
    refine ⟨B.signs, ?_, B.signs_nodup, fun s => B.mem_signs_iff⟩
    rw [expandSigns, hrun.ok (mt B.aborts_iff.1 hnone)]
    rfl

/-! ## Constraints without an answer -/

def int : OCLBasicType := .scalar (.integer "ocl_int" 32 false ∅)

def uint : OCLBasicType := .scalar (.integer "ocl_uint" 32 true ∅)

def pointerToInt : OCLBasicType := .pointer none int .asPrivate {} ∅

/-- An `int` or a pointer to one, and an `int` that is to be what the pointer points to. -/
def pointeeOfGroup : OCLBuiltinVariant where
  operands := [.group [pointerToInt, int], .basic int]
  constraints := [.binary .same (.pointee 0 1) (.id 1)]
  predicates := ∅
  expandable := by simp [Expandable, pointerToInt, int]
  over_operands := by decide

/-- Two numbers that are to be an image and coordinates. -/
def imageDimOfScalars : OCLBuiltinVariant where
  operands := [.basic int, .basic uint]
  constraints := [.binary .compatibleWithImageDim (.id 0) (.id 1)]
  predicates := ∅
  expandable := by simp [Expandable]
  over_operands := by decide

/-- The choice that satisfies the constraint is found, and lost when the generator stops at the other one; of two numbers
neither the image nor the coordinates are set. -/
theorem faults_not_exact :
    pointeeOfGroup.Chooses [pointerToInt, int] ∧ pointeeOfGroup.Satisfies [pointerToInt, int] ∧
    expandSigns pointeeOfGroup [] = .error .fatalError ∧ ¬ ExpandsExactly pointeeOfGroup [] ∧
    expandSigns imageDimOfScalars [] = .error .undefined ∧ ¬ ExpandsExactly imageDimOfScalars [] := by
  have hgroup : expandSigns pointeeOfGroup [] = .error .fatalError := by decide
  have himage : expandSigns imageDimOfScalars [] = .error .undefined := by decide
  refine ⟨?_, ?_, hgroup, ?_, himage, ?_⟩
  · exact .cons List.mem_cons_self (.cons List.mem_cons_self .nil)
  · exact fun c hc => List.mem_singleton.1 hc ▸ by decide
  · rintro ⟨new, hnew, -⟩
    rw [hgroup] at hnew
    cases hnew
  · rintro ⟨new, hnew, -⟩
    rw [himage] at hnew
    cases hnew

end OpenCRun.SignatureExpansion
