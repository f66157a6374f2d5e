import OpenCRun.Lib.Memo
import OpenCRun.Lib.Runs
import OpenCRun.OCLGen.Overloads
/-!
# Pointers above groups

The types table makes a pointer type for each member of a group that a pointer
type is above. It collects the pointers from the outermost inward, and puts
them on the member from the innermost outward. Both the pointers above basic
types and those above groups are kept.
-/
open Lib Lib.Memo Lib.Runs

namespace OpenCRun.PointerExpansion

open OCLGen.Overloads (AddressSpaceKind Modifiers OCLBasicType)

/-! ## The table -/

abbrev OCLPtrDesc := AddressSpaceKind × Modifiers

/-- The outermost pointer comes first. -/
abbrev OCLPtrStructure := List OCLPtrDesc

/-- A pointer type above a group, with its record. -/
inductive GroupPointer where
  | overGroup (record : String) (members : List OCLBasicType) (desc : OCLPtrDesc)
  | overPointer (record : String) (base : GroupPointer) (desc : OCLPtrDesc)
  deriving DecidableEq

namespace GroupPointer

/-- The members of the group at the end. -/
def members : GroupPointer → List OCLBasicType
  | overGroup _ ms _ => ms
  | overPointer _ base _ => base.members

/-- How many pointers there are above the group. -/
def depth : GroupPointer → Nat
  | overGroup .. => 1
  | overPointer _ base _ => base.depth + 1

/-- The descriptions of the pointers of `Chain`. -/
def chain : GroupPointer → OCLPtrStructure
  | overGroup _ _ d => [d]
  | overPointer _ base d => d :: base.chain

end GroupPointer

/-- What `Ptrs` and `GroupPtrs` hold. An iterator is a pointer above a group with the place of a member. -/
structure TypesTable where
  ptrs : Table (OCLBasicType × OCLPtrStructure) OCLBasicType
  groupPtrs : Table (GroupPointer × Nat) OCLBasicType

namespace TypesTable

def empty : TypesTable := ⟨.empty, .empty⟩

def setPtr (T : TypesTable) (base : OCLBasicType) (ptrS : OCLPtrStructure) (t : OCLBasicType) : TypesTable :=
  { T with ptrs := T.ptrs.set (base, ptrS) t }

def setGroupPtr (T : TypesTable) (P : GroupPointer) (i : Nat) (t : OCLBasicType) : TypesTable :=
  { T with groupPtrs := T.groupPtrs.set (P, i) t }

end TypesTable

/-- `BuildPointerType`. The type of the pointers inside is asked for if there are any. -/
def buildPointerType (base : OCLBasicType) (d : OCLPtrDesc) (childPtrS : OCLPtrStructure)
    (child : TypesTable → Option (OCLBasicType × TypesTable)) (T : TypesTable) : Option TypesTable :=
  (if 1 < (d :: childPtrS).length then child T else some (base, T)).map fun b =>
    b.2.setPtr base (d :: childPtrS) (.pointer none b.1 d.1 d.2 ∅)

/-- `getPointerType`; without a pointer there is no `PtrS[0]`. -/
def getPointerType (base : OCLBasicType) : OCLPtrStructure → TypesTable → Option (OCLBasicType × TypesTable)
  | [] => fun _ => none
  | d :: childPtrS =>
    getOrBuild TypesTable.ptrs (buildPointerType base d childPtrS (getPointerType base childPtrS)) (base, d :: childPtrS)

/-- Between two reversals a pointer is put at the end. -/
def pushOutward (ptrS : OCLPtrStructure) (d : OCLPtrDesc) : OCLPtrStructure := (ptrS.reverse ++ [d]).reverse

/-- The second loop of `ExpandPointerType`, over the pointers from the back of `Chain`. -/
def replay : OCLPtrStructure → OCLBasicType → OCLPtrStructure → TypesTable → Option (OCLBasicType × TypesTable)
  | [], t, _, T => some (t, T)
  | d :: ds, t, ptrS, T => do
    let ptrS := pushOutward ptrS d
    let (t, T) ← getPointerType t ptrS T
    replay ds t ptrS T

def expandPointerType (P : GroupPointer) (i : Nat) (T : TypesTable) : Option TypesTable := do
  let member ← P.members[i]?
  let (t, T) ← replay P.chain.reverse member [] T
  some (T.setGroupPtr P i t)

/-- `get`, for an iterator over the members. -/
def get (P : GroupPointer) (i : Nat) : TypesTable → Option (OCLBasicType × TypesTable) :=
  getOrBuild TypesTable.groupPtrs (expandPointerType P i) (P, i)

/-- The calls that may change what the table holds. -/
inductive Call where
  | getPointerType (base : OCLBasicType) (ptrS : OCLPtrStructure)
  | get (P : GroupPointer) (i : Nat)

def Call.run (T : TypesTable) : Call → Option (OCLBasicType × TypesTable)
  | getPointerType base ptrS => PointerExpansion.getPointerType base ptrS T
  | get P i => PointerExpansion.get P i T

def system : System TypesTable Call where
  init T := T = .empty
  step T c T' := ∃ t, c.run T = some (t, T')

/-! ## Chains -/

/-- The type is a chain of just these pointers, and ends in the member. -/
def IsChain (member : OCLBasicType) : OCLPtrStructure → OCLBasicType → Prop
  | [], t => t = member
  | d :: ds, .pointer _ base as mods _ => d = (as, mods) ∧ IsChain member ds base
  | _ :: _, _ => False

/-- The member at a place is expanded to the chain of its own pointers. -/
def ExpandsToChain (T : TypesTable) (P : GroupPointer) (i : Nat) (member : OCLBasicType) : Prop :=
  ∃ t T', get P i T = some (t, T') ∧ IsChain member P.chain t

/-- The pointers in a type, up to the first that is none. -/
def pointers : OCLBasicType → Nat
  | .pointer _ base _ _ _ => pointers base + 1
  | _ => 0

section Chains
variable {member t : OCLBasicType} {ds : OCLPtrStructure}

theorem isChain_getPointerType (member : OCLBasicType) (ds : OCLPtrStructure) :
    IsChain member ds (OCLGen.Overloads.getPointerType member ds) := by
  induction ds with
  | nil => rfl
  | cons d ds ih => exact ⟨rfl, ih⟩

theorem IsChain.pointers (h : IsChain member ds t) : pointers t = ds.length + pointers member := by
  induction ds generalizing t with
  | nil => rw [show t = member from h, List.length_nil, Nat.zero_add]
  | cons d ds ih =>
    cases t with
    | pointer r base as mods p =>
      rw [PointerExpansion.pointers, ih h.2, List.length_cons]
      omega
    | scalar | vector | opaqueType | qualified => exact h.elim

theorem not_isChain_of_length {ds' : OCLPtrStructure} (hlt : ds.length < ds'.length) :
    ¬ IsChain member ds (OCLGen.Overloads.getPointerType member ds') := by
  intro h
  have hlength := h.pointers.symm.trans (isChain_getPointerType member ds').pointers
  omega

end Chains

/-! ## What the table holds -/

/-- Both tables hold what their keys stand for. -/
structure Right (T : TypesTable) : Prop where
  ptrs : T.ptrs.Sound fun k t => t = OCLGen.Overloads.getPointerType k.1 k.2
  groupPtrs : T.groupPtrs.Sound fun k t =>
    ∃ member, k.1.members[k.2]? = some member ∧ t = OCLGen.Overloads.expandPointerType k.1.chain member

section Table
variable {T : TypesTable}

theorem Right.setPtr (h : Right T) (base : OCLBasicType) (ptrS : OCLPtrStructure) :
    Right (T.setPtr base ptrS (OCLGen.Overloads.getPointerType base ptrS)) :=
  ⟨h.ptrs.set rfl, h.groupPtrs⟩

theorem getPointerType_right (base : OCLBasicType) {ptrS : OCLPtrStructure} (hne : ptrS ≠ []) (h : Right T) :
    ∃ T', getPointerType base ptrS T = some (OCLGen.Overloads.getPointerType base ptrS, T') ∧ Right T' := by
  induction ptrS generalizing T with
  | nil => exact absurd rfl hne
  | cons d childPtrS ih =>
    obtain ⟨T₁, hchild, hT₁⟩ : ∃ T₁, (if 1 < (d :: childPtrS).length then getPointerType base childPtrS T
        else some (base, T)) = some (OCLGen.Overloads.getPointerType base childPtrS, T₁) ∧ Right T₁ := by
      cases childPtrS with
      | nil => exact ⟨T, rfl, h⟩
      | cons d' ds => simpa using ih (List.cons_ne_nil d' ds) h
    -- The pointer is put on the type of the pointers inside it.
    have hbuild : buildPointerType base d childPtrS (getPointerType base childPtrS) T =
        some (T₁.setPtr base (d :: childPtrS) (OCLGen.Overloads.getPointerType base (d :: childPtrS))) :=
      congrArg (Option.map _) hchild
    obtain ⟨t, T', hget, rfl, hT'⟩ := getOrBuild_sound (fun T (hT : Right T) => hT.ptrs)
      ⟨_, hbuild, hT₁.setPtr base (d :: childPtrS), Option.isSome_iff_exists.2 ⟨_, Table.set_self⟩⟩ h
    exact ⟨T', hget, hT'⟩

theorem pushOutward_eq (ptrS : OCLPtrStructure) (d : OCLPtrDesc) : pushOutward ptrS d = d :: ptrS := by
  rw [pushOutward, List.reverse_append, List.reverse_reverse]
  rfl

/-- The loop makes what its pure form makes. -/
theorem replay_right (ds : OCLPtrStructure) (t : OCLBasicType) (ptrS : OCLPtrStructure) (h : Right T) :
    ∃ T', replay ds t ptrS T = some
      ((ds.foldl (fun s d => (OCLGen.Overloads.getPointerType s.1 (d :: s.2), d :: s.2)) (t, ptrS)).1, T') ∧ Right T' := by
  induction ds generalizing t ptrS T with
  | nil => exact ⟨T, rfl, h⟩
  | cons d ds ih =>
    obtain ⟨T₁, hget, hT₁⟩ := getPointerType_right t (List.cons_ne_nil d ptrS) h
    obtain ⟨T', hreplay, hT'⟩ := ih (OCLGen.Overloads.getPointerType t (d :: ptrS)) (d :: ptrS) hT₁
    refine ⟨T', ?_, hT'⟩
    simp only [replay, pushOutward_eq, hget, Option.bind_eq_bind, Option.bind_some]
    exact hreplay

theorem Right.setGroupPtr (h : Right T) {P : GroupPointer} {i : Nat} {member : OCLBasicType}
    (hmember : P.members[i]? = some member) :
    Right (T.setGroupPtr P i (OCLGen.Overloads.expandPointerType P.chain member)) :=
  ⟨h.ptrs, h.groupPtrs.set ⟨member, hmember, rfl⟩⟩

theorem expandPointerType_right {P : GroupPointer} {i : Nat} {member : OCLBasicType} (hmember : P.members[i]? = some member)
    (h : Right T) : ∃ T', expandPointerType P i T = some T' ∧ Right T' ∧ (T'.groupPtrs (P, i)).isSome := by
  obtain ⟨T₁, hreplay, hT₁⟩ := replay_right P.chain.reverse member [] h
  have hexpand : expandPointerType P i T =
      some (T₁.setGroupPtr P i (OCLGen.Overloads.expandPointerType P.chain member)) := by
    simp only [expandPointerType, hmember, hreplay, Option.bind_eq_bind, Option.bind_some]
    rfl
  exact ⟨_, hexpand, hT₁.setGroupPtr hmember, Option.isSome_iff_exists.2 ⟨_, Table.set_self⟩⟩

theorem get_right {P : GroupPointer} {i : Nat} {member : OCLBasicType} (hmember : P.members[i]? = some member) (h : Right T) :
    ∃ T', get P i T = some (OCLGen.Overloads.expandPointerType P.chain member, T') ∧ Right T' := by
  obtain ⟨t, T', hget, ⟨member', hmember', rfl⟩, hT'⟩ :=
    getOrBuild_sound (fun T (hT : Right T) => hT.groupPtrs) (expandPointerType_right hmember h) h
  obtain rfl : member = member' := Option.some.inj (hmember.symm.trans hmember')
  exact ⟨T', hget, hT'⟩

/-- Only the places of members are asked for. -/
theorem get_cases {P : GroupPointer} {i : Nat} {r : OCLBasicType × TypesTable} (hget : get P i T = some r) (h : Right T) :
    ∃ member, P.members[i]? = some member := by
  rw [← Option.isSome_iff_exists]
  by_contra hmember
  rw [Option.not_isSome_iff_eq_none] at hmember
  have hnot : T.groupPtrs (P, i) = none := by
    rw [← Option.not_isSome_iff_eq_none, Option.isSome_iff_exists]
    intro hmade
    obtain ⟨t, ht⟩ := hmade
    obtain ⟨member, hsome, -⟩ := h.groupPtrs (P, i) t ht
    rw [hmember] at hsome
    cases hsome
  have hexpand : expandPointerType P i T = none := by
    simp only [expandPointerType, hmember, Option.bind_eq_bind, Option.bind_none]
  rw [get, getOrBuild, hnot, if_pos Option.isNone_none, hexpand] at hget
  cases hget

theorem right_invariant : Invariant system Right where
  init := by
    rintro T rfl
    exact ⟨Table.sound_empty _, Table.sound_empty _⟩
  step := by
    rintro T c T' h ⟨t, hrun⟩
    cases c with
    | getPointerType base ptrS =>
      have hne : ptrS ≠ [] := by
        rintro rfl
        cases hrun
      obtain ⟨T₁, hget, hT₁⟩ := getPointerType_right base hne h
      obtain ⟨-, rfl⟩ := Prod.mk.inj (Option.some.inj (hget.symm.trans hrun))
      exact hT₁
    | get P i =>
      obtain ⟨member, hmember⟩ := get_cases hrun h
      obtain ⟨T₁, hget, hT₁⟩ := get_right hmember h
      obtain ⟨-, rfl⟩ := Prod.mk.inj (Option.some.inj (hget.symm.trans hrun))
      exact hT₁

end Table

/-! ## What a member is expanded to -/

theorem getPointerType_append (member : OCLBasicType) (ds ds' : OCLPtrStructure) :
    OCLGen.Overloads.getPointerType (OCLGen.Overloads.getPointerType member ds') ds =
      OCLGen.Overloads.getPointerType member (ds ++ ds') := (List.foldr_append ..).symm

/-- Each turn puts all the pointers so far on what there is: the member ends up below every end part of the chain. -/
theorem foldl_getPointerType (member : OCLBasicType) (ds : OCLPtrStructure) :
    ds.reverse.foldl (fun s d => (OCLGen.Overloads.getPointerType s.1 (d :: s.2), d :: s.2)) (member, []) =
      (OCLGen.Overloads.getPointerType member ds.tails.flatten, ds) := by
  induction ds with
  | nil => rfl
  | cons d ds ih =>
    rw [List.reverse_cons, List.foldl_append, ih, List.foldl_cons, List.foldl_nil, getPointerType_append, List.tails_cons,
      List.flatten_cons]

theorem expandPointerType_eq (ds : OCLPtrStructure) (member : OCLBasicType) :
    OCLGen.Overloads.expandPointerType ds member = OCLGen.Overloads.getPointerType member ds.tails.flatten := by
  rw [OCLGen.Overloads.expandPointerType, foldl_getPointerType]

theorem isChain_expandPointerType_iff (P : GroupPointer) (member : OCLBasicType) :
    IsChain member P.chain (OCLGen.Overloads.expandPointerType P.chain member) ↔ P.depth = 1 := by
  rw [expandPointerType_eq]
  cases P with
  | overGroup record ms d => exact iff_of_true (isChain_getPointerType member [d]) rfl
  | overPointer record base d =>
    have hbase : base.chain ≠ [] := by cases base <;> exact List.cons_ne_nil _ _
    have hdepth : 0 < base.depth := by cases base <;> exact Nat.succ_pos _
    refine iff_of_false (not_isChain_of_length ?_) (Nat.succ_ne_succ_iff.2 hdepth.ne')
    -- The pointers inside come once more.
    rw [GroupPointer.chain, List.tails_cons, List.flatten_cons, List.length_append]
    refine Nat.lt_add_of_pos_right (List.length_pos_iff.2 fun hnil => hbase ?_)
    exact List.flatten_eq_nil_iff.1 hnil _ ((List.mem_tails ..).2 (List.suffix_refl _))

/-- Members are expanded to the chain of the pointers exactly where there is one pointer. -/
theorem expandsToChain_iff {T : TypesTable} (hT : Reachable system T) {P : GroupPointer} {i : Nat} {member : OCLBasicType}
    (hmember : P.members[i]? = some member) : ExpandsToChain T P i member ↔ P.depth = 1 := by
  obtain ⟨T', hget, -⟩ := get_right hmember (right_invariant.reachable hT)
  rw [← isChain_expandPointerType_iff P member]
  constructor
  · rintro ⟨t, T₁, hget', hchain⟩
    obtain ⟨rfl, -⟩ := Prod.mk.inj (Option.some.inj (hget.symm.trans hget'))
    exact hchain
  · exact fun hchain => ⟨_, T', hget, hchain⟩

/-- `char` -/
def charType : OCLBasicType := .scalar (.integer "ocl_char" 8 false ∅)

/-- A constant pointer above a group. -/
def globalPointer : GroupPointer := .overGroup "ptr" [charType] (.asGlobal, { isConst := true })

/-- A pointer to it. -/
def pointerToPointer : GroupPointer := .overPointer "ptr_ptr" globalPointer (.asPrivate, {})

theorem globalPointer_expands : ExpandsToChain .empty globalPointer 0 charType :=
  (expandsToChain_iff (.init rfl) rfl).2 rfl

/-- The pointer inside comes twice. -/
theorem pointerToPointer_tripled :
    Reachable system .empty ∧ pointerToPointer.members[0]? = some charType ∧
      ¬ ExpandsToChain .empty pointerToPointer 0 charType := by
  refine ⟨.init rfl, rfl, ?_⟩
  rintro ⟨t, T', hget, hchain⟩
  obtain ⟨T₁, hget₁, -⟩ := get_right (P := pointerToPointer) (i := 0) rfl (right_invariant.init _ rfl)
  obtain ⟨rfl, -⟩ := Prod.mk.inj (Option.some.inj (hget₁.symm.trans hget))
  revert hchain
  simp [pointerToPointer, globalPointer, GroupPointer.chain, IsChain, OCLGen.Overloads.expandPointerType,
    OCLGen.Overloads.getPointerType, charType]

end OpenCRun.PointerExpansion
