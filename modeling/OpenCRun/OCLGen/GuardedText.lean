import OpenCRun.Lib.ConditionalText
import OpenCRun.OCLGen.Overloads
import Mathlib.Data.List.DropRight
/-!
# The text of the builtin library

`EmitOCLBuiltinImpls` writes each definition under the macros of its group and
its predicates, and a requirement before the first definition of a run of the
group that needs it. The text of a requirement may have pragmas of its own, and
it may stand within the guard of the definition before. `EmitOCLTargetDefs`
writes what defines the macros. We show which definitions are left of the text
for the macros that are defined, when they have the extensions of their
predicates, and when they have all that they require.
-/
namespace OpenCRun.OCLGen.GuardedText
open ConditionalText Overloads

/-! ## The guards -/

def fullName : OCLPredicate → String
  | .oclExtension n | .oclAddressSpace n _ | .oclMacro n => n

def isExtension : OCLPredicate → Bool
  | .oclExtension _ => true
  | _ => false

def isAddressSpace : OCLPredicate → Bool
  | .oclAddressSpace .. => true
  | _ => false

/-- The objects of the predicates table. Sets of them are gone through in the order of their addresses. -/
structure PredicateObjects where
  order : PredicateSet → List OCLPredicate
  mem_order (preds : PredicateSet) (p : OCLPredicate) : p ∈ order preds ↔ p ∈ preds
  /-- The full name without its prefix. -/
  getName : OCLPredicate → String

/-- `PredicatesGuardEmitter` -/
def predicatesGuard (O : PredicateObjects) : GuardStyle PredicateSet String String where
  free := ∅
  tested preds := (O.order preds).map fullName
  extensions preds := ((O.order preds).filter isExtension).map O.getName
  tested_free := by
    rw [List.map_eq_nil_iff, List.eq_nil_iff_forall_not_mem]
    exact fun p hp => absurd ((O.mem_order ∅ p).1 hp) (Finset.notMem_empty p)
  extensions_free := by
    rw [List.map_eq_nil_iff, List.filter_eq_nil_iff]
    exact fun p hp => absurd ((O.mem_order ∅ p).1 hp) (Finset.notMem_empty p)

/-- `GroupGuardEmitter` -/
def groupGuard : GuardStyle String String String where
  free := ""
  tested group := if group = "" then [] else ["OPENCRUN_BUILTIN_" ++ group]
  extensions _ := []
  tested_free := rfl
  extensions_free := rfl

/-! ## The implementations -/

/-- Objects of requirements are told apart by their records. -/
inductive OCLRequirement where
  | oclInclude (record fileName : String)
  | oclCodeBlock (record codeBlock : String)
  deriving DecidableEq, Repr

structure Implementation where
  impl : OCLBuiltinImpl
  requirements : List OCLRequirement
  deriving DecidableEq, Repr

/-- The text of a requirement but for its directives, or a definition, which has none but for macros of its own. -/
inductive Content where
  | requirement (r : OCLRequirement)
  | definition (i : Implementation) (d : Declaration)
  deriving DecidableEq

abbrev Text := List (Line String String Content)

/-- Text that keeps nothing and turns some extensions off. -/
def turning (off : Finset String → Finset String) : Effect String String Content := fun macros enabled =>
  ([], enabled \ off macros)

theorem turning_seq (off : Finset String → Finset String) : (turning off).seq (turning off) = turning off := by
  funext macros enabled
  simp only [Effect.seq, turning, List.nil_append, sdiff_idem]

/-- `Impls`, with what the implementations require. The directives of a requirement define no macro, and what they
enable they disable again. -/
structure Library extends Tables where
  getGroup : OCLBuiltin → String
  implMap : OCLBuiltin → List (Overloads.BuiltinSign × Implementation)
  implMap_eq (B : OCLBuiltin) : (implMap B).map (Prod.map id Implementation.impl) = implsOf B impls
  directives : OCLRequirement → Text
  turnsOff : OCLRequirement → Finset String → Finset String
  directives_has (r : OCLRequirement) : Has (directives r) (turning (turnsOff r))

def requirementText (L : Library) (r : OCLRequirement) : Text := .text (.requirement r) :: L.directives r

/-- One of the parts for doubles of `InternalFloatingPointCVT.inc`. -/
def doublePart : Text :=
  [.ifDefined ["__opencrun_target_ext_cl_khr_fp64"], .enable "cl_khr_fp64", .disable "cl_khr_fp64", .endif]

/-- What the file includes that the rounding conversions require. -/
def internalFloatingPointCVT : Text := doublePart ++ doublePart ++ doublePart

def doubleOff (macros : Finset String) : Finset String :=
  if "__opencrun_target_ext_cl_khr_fp64" ∈ macros then {"cl_khr_fp64"} else ∅

theorem has_doublePart : Has doublePart (turning doubleOff) := by
  intro s
  by_cases hmacro : "__opencrun_target_ext_cl_khr_fp64" ∈ s.macros
  · cases hconds : s.conds.all id with
    | false => simp [doublePart, preprocess_cons, Line.apply, State.after, State.active, hconds, hmacro]
    | true =>
      simp [doublePart, preprocess_cons, Line.apply, Line.act, State.after, State.active, hconds, hmacro, turning, doubleOff,
        Finset.sdiff_singleton_eq_erase]
  · simp [doublePart, preprocess_cons, Line.apply, State.after, State.active, hmacro, turning, doubleOff]

/-- Doubles are off after it, also if they were on before. -/
theorem has_internalFloatingPointCVT : Has internalFloatingPointCVT (turning doubleOff) := by
  have hparts := (has_doublePart.append has_doublePart).append has_doublePart
  rwa [turning_seq, turning_seq] at hparts

/-- The requirements that are written, and those that have been. -/
def emitRequirements : List OCLRequirement → Finset OCLRequirement → List OCLRequirement × Finset OCLRequirement
  | [], emittedReqs => ([], emittedReqs)
  | r :: rs, emittedReqs =>
    if r ∈ emittedReqs then emitRequirements rs emittedReqs
    else
      let (written, emittedReqs) := emitRequirements rs (insert r emittedReqs)
      (r :: written, emittedReqs)

section Emitters
variable (O : PredicateObjects) (L : Library)

/-- The map of a builtin in its order, each implementation with the head of its definition. -/
def definitions (B : OCLBuiltin) : List (Implementation × Declaration) :=
  ((L.implMap B).map Prod.snd).zip (emitImpls L.toTables B)

/-- The loop of `EmitOCLGenericBuiltinImpls` and of `EmitOCLCastBuiltinImpls`. The requirements are written before
the guard is pushed. -/
def emitDefinitions : PredicateSet → Finset OCLRequirement → List (Implementation × Declaration) →
    Text × Finset OCLRequirement
  | current, emittedReqs, [] => ((predicatesGuard O).closing current, emittedReqs)
  | current, emittedReqs, (i, d) :: rest =>
    let (reqs, emittedReqs) := emitRequirements i.requirements emittedReqs
    let (text, emittedReqs) := emitDefinitions d.guard emittedReqs rest
    (reqs.flatMap (requirementText L) ++ (predicatesGuard O).push current d.guard ++ .text (.definition i d) :: text,
      emittedReqs)

/-- The loop over the builtins. -/
def emitBuiltins : String → Finset OCLRequirement → List OCLBuiltin → Text
  | current, _, [] => groupGuard.closing current
  | current, emittedReqs, B :: Bs =>
    if L.implMap B = [] then emitBuiltins current emittedReqs Bs
    else
      let group := L.getGroup B
      let (text, emittedReqs) :=
        emitDefinitions O L ∅ (if group = current then emittedReqs else ∅) (definitions L B)
      groupGuard.push current group ++ text ++ emitBuiltins group emittedReqs Bs

def emitOCLBuiltinImpls : Text := emitBuiltins O L "" ∅ L.builtins

end Emitters

/-! ## The places of the implementations -/

/-- An implementation at its place in the file. -/
structure Slot where
  group : String
  /-- The guard that is open where its requirements are written. -/
  before : PredicateSet
  impl : Implementation
  decl : Declaration
  deriving DecidableEq

def slotsFrom (group : String) : PredicateSet → List (Implementation × Declaration) → List Slot
  | _, [] => []
  | current, (i, d) :: rest => { group, before := current, impl := i, decl := d } :: slotsFrom group d.guard rest

def builtinSlots (L : Library) (B : OCLBuiltin) : List Slot := slotsFrom (L.getGroup B) ∅ (definitions L B)

def slots (L : Library) : List Slot := L.builtins.flatMap (builtinSlots L)

/-- What is required in the run of the group that ends the slots. -/
def seen (group : String) (earlier : List Slot) : Finset OCLRequirement :=
  ((earlier.rtakeWhile fun s => s.group = group).flatMap fun s => s.impl.requirements).toFinset

/-- The slot is the first one of its run that requires it. -/
def FirstUse (earlier : List Slot) (s : Slot) (r : OCLRequirement) : Prop :=
  r ∈ s.impl.requirements ∧ r ∉ seen s.group earlier

/-- Some content with the group and the guard around it. -/
structure Item where
  group : String
  guard : PredicateSet
  content : Content

def definitionItem (s : Slot) : Item := { group := s.group, guard := s.decl.guard, content := .definition s.impl s.decl }

def requirementItem (s : Slot) (r : OCLRequirement) : Item :=
  { group := s.group, guard := s.before, content := .requirement r }

def requirementItems (earlier : List Slot) (s : Slot) : List Item :=
  (emitRequirements s.impl.requirements (seen s.group earlier)).1.map (requirementItem s)

def itemsFrom : List Slot → List Slot → List Item
  | _, [] => []
  | earlier, s :: rest => requirementItems earlier s ++ definitionItem s :: itemsFrom (earlier ++ [s]) rest

def items (L : Library) : List Item := itemsFrom [] (slots L)

theorem itemsFrom_append (earlier l l' : List Slot) :
    itemsFrom earlier (l ++ l') = itemsFrom earlier l ++ itemsFrom (earlier ++ l) l' := by
  induction l generalizing earlier with
  | nil => rw [List.append_nil]; rfl
  | cons s l ih =>
    rw [List.cons_append, itemsFrom, itemsFrom, ih, List.append_assoc, List.append_assoc, List.cons_append]
    rfl

section Requirements
variable {rs : List OCLRequirement} {emittedReqs : Finset OCLRequirement}

theorem emitRequirements_snd : (emitRequirements rs emittedReqs).2 = emittedReqs ∪ rs.toFinset := by
  induction rs generalizing emittedReqs with
  | nil => simp [emitRequirements]
  | cons r rs ih =>
    rw [emitRequirements]
    split
    · next h =>
      rw [ih]
      ext x
      simp only [Finset.mem_union, List.toFinset_cons, Finset.mem_insert]
      grind
    · dsimp only
      rw [ih]
      ext x
      simp only [Finset.mem_union, List.toFinset_cons, Finset.mem_insert]
      tauto

/-- What is written is required and was not written. -/
theorem mem_emitRequirements {r : OCLRequirement} :
    r ∈ (emitRequirements rs emittedReqs).1 ↔ r ∈ rs ∧ r ∉ emittedReqs := by
  induction rs generalizing emittedReqs with
  | nil => simp [emitRequirements]
  | cons r' rs ih =>
    rw [emitRequirements]
    split
    · next h =>
      rw [ih, List.mem_cons]
      grind
    · next h =>
      simp only [List.mem_cons, ih, Finset.mem_insert]
      grind

end Requirements

theorem seen_snoc (group : String) (earlier : List Slot) (s : Slot) : seen group (earlier ++ [s]) =
    if s.group = group then seen group earlier ∪ s.impl.requirements.toFinset else ∅ := by
  rw [seen]
  split
  · next h =>
    rw [List.rtakeWhile_concat_pos _ _ _ (by simpa using h), List.flatMap_append, List.toFinset_append, seen]
    simp
  · next h =>
    rw [List.rtakeWhile_concat_neg _ _ _ (by simpa using h)]
    rfl

/-! ## The text of a builtin -/

section Text
variable (O : PredicateObjects) (L : Library)

def contentText : Content → Text
  | .requirement r => requirementText L r
  | .definition i d => [.text (.definition i d)]

def piece (x : Item) : PredicateSet × Text := (x.guard, contentText L x.content)

theorem emitFrom_requirements (current : PredicateSet) (rs : List OCLRequirement) (s : Slot) (h : s.before = current)
    (pieces : List (PredicateSet × Text)) :
    (predicatesGuard O).emitFrom current ((rs.map (requirementItem s)).map (piece L) ++ pieces) =
      rs.flatMap (requirementText L) ++ (predicatesGuard O).emitFrom current pieces := by
  subst h
  induction rs with
  | nil => rfl
  | cons r rs ih =>
    simp only [List.map_cons, List.cons_append, GuardStyle.emitFrom, List.flatMap_cons]
    have hpush : (predicatesGuard O).push s.before (piece L (requirementItem s r)).1 = ([] : Text) := if_pos rfl
    rw [hpush, List.nil_append, List.append_assoc]
    exact congrArg (requirementText L r ++ ·) ih

/-- The text, and what has been written since the group was opened. -/
theorem emitDefinitions_eq {group : String} (earlier : List Slot) (current : PredicateSet)
    (l : List (Implementation × Declaration)) :
    emitDefinitions O L current (seen group earlier) l =
      ((predicatesGuard O).emitFrom current ((itemsFrom earlier (slotsFrom group current l)).map (piece L)),
        seen group (earlier ++ slotsFrom group current l)) := by
  induction l generalizing earlier current with
  | nil => simp [emitDefinitions, slotsFrom, itemsFrom, GuardStyle.emitFrom]
  | cons x l ih =>
    obtain ⟨i, d⟩ := x
    have hseen : (emitRequirements i.requirements (seen group earlier)).2 =
        seen group (earlier ++ [{ group, before := current, impl := i, decl := d }]) := by
      rw [emitRequirements_snd, seen_snoc, if_pos rfl]
    rw [emitDefinitions]
    dsimp only
    have hseen' : seen group (earlier ++ slotsFrom group current ((i, d) :: l)) =
        seen group (earlier ++ [{ group, before := current, impl := i, decl := d }] ++ slotsFrom group d.guard l) := by
      rw [List.append_assoc]
      rfl
    rw [hseen, ih, hseen', slotsFrom, itemsFrom, List.map_append, requirementItems,
      emitFrom_requirements O L current _ _ rfl]
    simp [piece, contentText, definitionItem, GuardStyle.emitFrom]

end Text

/-! ## The text of the file -/

section File
variable (O : PredicateObjects) (L : Library)

/-- The builtins that have an implementation, each with the slots before it. -/
def placed : List Slot → List OCLBuiltin → List (List Slot × OCLBuiltin)
  | _, [] => []
  | earlier, B :: Bs =>
    if L.implMap B = [] then placed earlier Bs else (earlier, B) :: placed (earlier ++ builtinSlots L B) Bs

def builtinText (p : List Slot × OCLBuiltin) : Text :=
  (predicatesGuard O).emit ((itemsFrom p.1 (builtinSlots L p.2)).map (piece L))

theorem length_emitImpls (B : OCLBuiltin) : (emitImpls L.toTables B).length = (L.implMap B).length := by
  rw [emitImpls_eq, List.length_mapIdx, implemented, ← L.implMap_eq, List.length_map, List.length_map]

theorem map_slotsFrom (group : String) (current : PredicateSet) (l : List (Implementation × Declaration)) :
    (slotsFrom group current l).map (fun s => (s.impl, s.decl)) = l := by
  induction l generalizing current with
  | nil => rfl
  | cons x l ih => exact congrArg (x :: ·) (ih x.2.guard)

theorem group_of_mem {group : String} {current : PredicateSet} {l : List (Implementation × Declaration)} {s : Slot}
    (h : s ∈ slotsFrom group current l) : s.group = group := by
  induction l generalizing current with
  | nil => cases h
  | cons x l ih =>
    rcases List.mem_cons.1 h with rfl | h
    · rfl
    · exact ih h

theorem builtinSlots_eq_nil_iff (B : OCLBuiltin) : builtinSlots L B = [] ↔ L.implMap B = [] := by
  rw [← List.length_eq_zero_iff, ← List.length_eq_zero_iff (l := L.implMap B), builtinSlots,
    ← List.length_map (f := fun s : Slot => (s.impl, s.decl)), map_slotsFrom, definitions, List.length_zip,
    List.length_map, length_emitImpls, Nat.min_self]

/-- The slots end in the group that is open, or there are none. -/
def EndsIn (group : String) (earlier : List Slot) : Prop := earlier = [] ∨ ∃ s, earlier.getLast? = some s ∧ s.group = group

theorem EndsIn.seen {current : String} {earlier : List Slot} (h : EndsIn current earlier) (group : String) :
    (if group = current then seen current earlier else ∅) = seen group earlier := by
  split
  · next heq => rw [heq]
  · next hne =>
    rcases earlier.eq_nil_or_concat with rfl | ⟨l, s, rfl⟩
    · rfl
    · obtain ⟨s', hlast, hgroup⟩ := h.resolve_left (by simp)
      rw [List.concat_eq_append, List.getLast?_concat, Option.some.injEq] at hlast
      subst hlast
      rw [List.concat_eq_append, seen_snoc, if_neg fun heq => hne (heq.symm.trans hgroup)]

theorem endsIn_builtinSlots {B : OCLBuiltin} (h : L.implMap B ≠ []) (earlier : List Slot) :
    EndsIn (L.getGroup B) (earlier ++ builtinSlots L B) := by
  have hslots : builtinSlots L B ≠ [] := fun hnil => h ((builtinSlots_eq_nil_iff L B).1 hnil)
  refine .inr ⟨(builtinSlots L B).getLast hslots, ?_, group_of_mem (List.getLast_mem hslots)⟩
  rw [List.getLast?_append, List.getLast?_eq_getLast_of_ne_nil hslots]
  rfl

theorem emitBuiltins_eq {current : String} {earlier : List Slot} (h : EndsIn current earlier) (Bs : List OCLBuiltin) :
    emitBuiltins O L current (seen current earlier) Bs =
      groupGuard.emitFrom current ((placed L earlier Bs).map fun p => (L.getGroup p.2, builtinText O L p)) := by
  induction Bs generalizing current earlier with
  | nil => rfl
  | cons B Bs ih =>
    rw [emitBuiltins, placed]
    split
    · exact ih h
    · next hB =>
      dsimp only
      rw [h.seen, emitDefinitions_eq, List.map_cons, GuardStyle.emitFrom]
      exact congrArg (_ ++ ·) (ih (endsIn_builtinSlots L hB earlier))

theorem itemsFrom_flatMap (earlier : List Slot) (Bs : List OCLBuiltin) :
    itemsFrom earlier (Bs.flatMap (builtinSlots L)) =
      (placed L earlier Bs).flatMap fun p => itemsFrom p.1 (builtinSlots L p.2) := by
  induction Bs generalizing earlier with
  | nil => rfl
  | cons B Bs ih =>
    rw [List.flatMap_cons, itemsFrom_append, ih, placed]
    split
    · next hB => rw [(builtinSlots_eq_nil_iff L B).2 hB, List.append_nil]; rfl
    · rfl

end File

/-! ## What is left of it -/

section Kept
variable (O : PredicateObjects) (L : Library)

/-- The macros that are tested around the content. -/
def tested (group : String) (guard : PredicateSet) : Finset String :=
  (groupGuard.tested group ++ (predicatesGuard O).tested guard).toFinset

def Item.tested (x : Item) : Finset String := GuardedText.tested O x.group x.guard

theorem tested_subset_iff (group : String) (guard : PredicateSet) (macros : Finset String) :
    tested O group guard ⊆ macros ↔
      groupGuard.holds group macros = true ∧ (predicatesGuard O).holds guard macros = true := by
  simp only [tested, Finset.subset_iff, List.mem_toFinset, List.mem_append, GuardStyle.holds, decide_eq_true_eq]
  grind

def contentEffect : Content → Effect String String Content
  | .requirement r, macros, enabled => ([(.requirement r, enabled)], enabled \ L.turnsOff r macros)
  | .definition i d, _, enabled => ([(.definition i d, enabled)], enabled)

theorem has_contentText (c : Content) : Has (contentText L c) (contentEffect L c) := by
  cases c with
  | requirement r => exact (has_text (Content.requirement r)).append (L.directives_has r)
  | definition i d => exact has_text (Content.definition i d)

theorem contentEffect_subset (c : Content) (macros enabled : Finset String) :
    (contentEffect L c macros enabled).2 ⊆ enabled := by
  cases c with
  | requirement r => exact Finset.sdiff_subset
  | definition i d => exact subset_rfl

theorem contentEffect_contents (c : Content) (macros enabled : Finset String) :
    (contentEffect L c macros enabled).1.map Prod.fst = [c] := by
  cases c <;> rfl

/-- The effect of items after some text with guard `current`. -/
def itemsEffect (current : PredicateSet) (l : List Item) : Effect String String Content :=
  (predicatesGuard O).effectFrom current (l.map fun x => (x.guard, contentEffect L x.content))

def builtinEffect (p : List Slot × OCLBuiltin) : Effect String String Content :=
  itemsEffect O L ∅ (itemsFrom p.1 (builtinSlots L p.2))

theorem has_builtinText (p : List Slot × OCLBuiltin) : Has (builtinText O L p) (builtinEffect O L p) :=
  has_emit (G := predicatesGuard O) fun x _ => has_contentText L x.content

theorem builtinEffect_contents (p : List Slot × OCLBuiltin) (macros : Finset String) :
    (builtinEffect O L p macros ∅).1.map Prod.fst =
      ((itemsFrom p.1 (builtinSlots L p.2)).filter fun x => (predicatesGuard O).holds x.guard macros).map Item.content := by
  rw [builtinEffect, itemsEffect, effectFrom_contents fun x _ enabled => contentEffect_contents L x.content macros enabled,
    List.map_eq_flatMap]

theorem builtinEffect_closed (p : List Slot × OCLBuiltin) (macros : Finset String) :
    (builtinEffect O L p macros ∅).2 = ∅ :=
  effectFrom_closed (fun x _ _ henabled => (contentEffect_subset L x.content macros _).trans henabled)
    (Finset.empty_subset _)

theorem group_of_mem_items {group : String} {earlier l : List Slot} (h : ∀ s ∈ l, s.group = group) {x : Item}
    (hx : x ∈ itemsFrom earlier l) : x.group = group := by
  induction l generalizing earlier with
  | nil => cases hx
  | cons s l ih =>
    obtain ⟨hs, hl⟩ := List.forall_mem_cons.1 h
    rcases List.mem_append.1 hx with hx | hx
    · obtain ⟨r, -, rfl⟩ := List.mem_map.1 hx
      exact hs
    · rcases List.mem_cons.1 hx with rfl | hx
      · exact hs
      · exact ih hl hx

/-- What is kept of the file. -/
def keptOf (macros : Finset String) : List (Content × Finset String) :=
  ((placed L [] L.builtins).filter fun p => groupGuard.holds (L.getGroup p.2) macros).flatMap fun p =>
    (builtinEffect O L p macros ∅).1

theorem enter_group (group : String) (macros : Finset String) : groupGuard.enter group macros ∅ = ∅ := by
  rw [enter_empty]
  exact ite_self _

/-- The file is read to its end with all conditions closed and no extension on. -/
theorem preprocess_emitOCLBuiltinImpls (macros : Finset String) :
    preprocess (emitOCLBuiltinImpls O L) { macros } = some { macros, kept := keptOf O L macros } := by
  have htext : emitOCLBuiltinImpls O L =
      groupGuard.emit ((placed L [] L.builtins).map fun p => (L.getGroup p.2, builtinText O L p)) :=
    emitBuiltins_eq O L (.inl rfl) L.builtins
  have hclosed : ∀ p ∈ placed L [] L.builtins, ∀ enabled ⊆ groupGuard.enter (L.getGroup p.2) macros ∅,
      (builtinEffect O L p macros enabled).2 ⊆ groupGuard.enter (L.getGroup p.2) macros ∅ := by
    intro p _ enabled henabled
    rw [enter_group, Finset.subset_empty] at henabled
    rw [henabled, builtinEffect_closed]
    exact Finset.empty_subset _
  have hrestores : ∀ p ∈ placed L [] L.builtins,
      (builtinEffect O L p macros (groupGuard.enter (L.getGroup p.2) macros ∅)).2 =
        groupGuard.enter (L.getGroup p.2) macros ∅ := by
    intro p _
    rw [enter_group]
    exact builtinEffect_closed O L p macros
  have hkept : (groupGuard.effectFrom "" ((placed L [] L.builtins).map fun p => (L.getGroup p.2, builtinEffect O L p))
      macros ∅).1 = keptOf O L macros := by
    rw [← enter_group "" macros, effectFrom_fst hrestores, keptOf]
    simp only [enter_group]
  rw [htext, has_emit (fun p _ => has_builtinText O L p), State.after_of_active rfl]
  change some ({ macros, kept := [] ++ (groupGuard.effectFrom "" _ macros ∅).1
                 enabled := (groupGuard.effectFrom "" _ macros ∅).2 } : State String String Content) = _
  rw [hkept, effectFrom_closed hclosed (Finset.empty_subset _), List.nil_append]

/-- The content that is kept. -/
theorem keptOf_contents (macros : Finset String) : (keptOf O L macros).map Prod.fst =
    ((items L).filter fun x => decide (x.tested O ⊆ macros)).map Item.content := by
  rw [items, slots, itemsFrom_flatMap, keptOf, List.map_flatMap, List.filter_flatMap, List.map_flatMap]
  induction placed L [] L.builtins with
  | nil => rfl
  | cons p l ih =>
    -- Within the group of the builtin.
    have htested : ∀ x ∈ itemsFrom p.1 (builtinSlots L p.2), decide (x.tested O ⊆ macros) =
        (groupGuard.holds (L.getGroup p.2) macros && (predicatesGuard O).holds x.guard macros) := by
      intro x hx
      rw [Item.tested, group_of_mem_items (fun s => group_of_mem) hx, Bool.eq_iff_iff, decide_eq_true_eq,
        tested_subset_iff, Bool.and_eq_true]
    rw [List.filter_cons, List.flatMap_cons, List.filter_congr htested]
    cases groupGuard.holds (L.getGroup p.2) macros with
    | false => simpa using ih
    | true =>
      simp only [builtinEffect_contents] at ih
      simp only [Bool.true_and, if_true, List.flatMap_cons, builtinEffect_contents, ih]

def declaration? : Content → Option Declaration
  | .definition _ d => some d
  | .requirement _ => none

theorem declarations_items (earlier l : List Slot) (macros : Finset String) :
    (((itemsFrom earlier l).filter fun x => decide (x.tested O ⊆ macros)).map Item.content).filterMap declaration? =
      (l.filter fun s => decide (tested O s.group s.decl.guard ⊆ macros)).map Slot.decl := by
  induction l generalizing earlier with
  | nil => rfl
  | cons s l ih =>
    have hrequirements : (((requirementItems earlier s).filter fun x => decide (x.tested O ⊆ macros)).map
        Item.content).filterMap declaration? = [] := by
      rw [List.filterMap_eq_nil_iff]
      intro x hx
      obtain ⟨y, hy, rfl⟩ := List.mem_map.1 hx
      obtain ⟨r, -, rfl⟩ := List.mem_map.1 (List.mem_of_mem_filter hy)
      rfl
    have hdefinition : (definitionItem s).tested O = tested O s.group s.decl.guard := rfl
    rw [itemsFrom, List.filter_append, List.map_append, List.filterMap_append, hrequirements, List.nil_append,
      List.filter_cons, List.filter_cons, hdefinition]
    split
    · exact congrArg (s.decl :: ·) (ih _)
    · exact ih _

theorem map_builtinSlots (B : OCLBuiltin) : (builtinSlots L B).map Slot.decl = emitImpls L.toTables B := by
  have h := map_slotsFrom (L.getGroup B) ∅ (definitions L B)
  have hdecl : (builtinSlots L B).map Slot.decl = (definitions L B).map Prod.snd := by
    conv_rhs => rw [← h, List.map_map]
    rfl
  rw [hdecl, definitions, List.map_snd_zip]
  rw [length_emitImpls, List.length_map]

theorem keptOf_declarations (macros : Finset String) : ((keptOf O L macros).map Prod.fst).filterMap declaration? =
    L.builtins.flatMap fun B => (emitImpls L.toTables B).filter fun d =>
      groupGuard.holds (L.getGroup B) macros && (predicatesGuard O).holds d.guard macros := by
  rw [keptOf_contents, items, declarations_items, slots, List.filter_flatMap, List.map_flatMap]
  refine List.flatMap_congr fun B _ => ?_
  rw [← map_builtinSlots, List.filter_map]
  refine congrArg (List.map _) (List.filter_congr fun s hs => ?_)
  rw [Function.comp_apply, Bool.eq_iff_iff, decide_eq_true_eq, tested_subset_iff, group_of_mem hs, Bool.and_eq_true]

end Kept

/-! ## The extensions of a definition -/

section Extensions
variable (O : PredicateObjects) (L : Library)

/-- Every definition has the extensions of its own predicates and no others. -/
def Own (kept : List (Content × Finset String)) : Prop :=
  ∀ i d enabled, (Content.definition i d, enabled) ∈ kept → enabled = (predicatesGuard O).on d.guard

/-- No requirement that is written within the guard of the definition disables an extension of it. -/
def Undisturbed (macros : Finset String) (earlier : List Slot) (s : Slot) : Prop :=
  s.before = s.decl.guard → (predicatesGuard O).holds s.decl.guard macros = true →
    ∀ r, FirstUse earlier s r → Disjoint (L.turnsOff r macros) ((predicatesGuard O).on s.decl.guard)

variable {O L} {macros enabled : Finset String} {current : PredicateSet}

theorem own_append {kept kept' : List (Content × Finset String)} : Own O (kept ++ kept') ↔ Own O kept ∧ Own O kept' := by
  simp only [Own, List.mem_append, or_imp, forall_and]

/-- What the requirements leave enabled. -/
def turnedOff (L : Library) (macros : Finset String) (rs : List OCLRequirement) (enabled : Finset String) :
    Finset String :=
  rs.foldl (fun enabled r => enabled \ L.turnsOff r macros) enabled

theorem mem_turnedOff {rs : List OCLRequirement} {e : String} :
    e ∈ turnedOff L macros rs enabled ↔ e ∈ enabled ∧ ∀ r ∈ rs, e ∉ L.turnsOff r macros := by
  unfold turnedOff
  induction rs generalizing enabled with
  | nil => simp
  | cons r rs ih => rw [List.foldl_cons, ih, Finset.mem_sdiff, List.forall_mem_cons, and_assoc]

theorem turnedOff_eq_self_iff {rs : List OCLRequirement} :
    turnedOff L macros rs enabled = enabled ↔ ∀ r ∈ rs, Disjoint (L.turnsOff r macros) enabled := by
  simp only [Finset.ext_iff, mem_turnedOff, Finset.disjoint_right]
  constructor
  · intro h r hr e he
    exact ((h e).2 he).2 r hr
  · intro h e
    exact and_iff_left_of_imp fun he r hr => h r hr he

/-- The requirements stand within the guard of the definition before. -/
theorem own_requirements {s : Slot} (hbefore : s.before = current) (rs : List OCLRequirement) (l : List Item) :
    Own O (itemsEffect O L current (rs.map (requirementItem s) ++ l) macros enabled).1 ↔
      Own O (itemsEffect O L current l macros
        (if (predicatesGuard O).holds current macros then turnedOff L macros rs enabled else enabled)).1 := by
  induction rs generalizing enabled with
  | nil => rw [turnedOff, List.foldl_nil, ite_self]; rfl
  | cons r rs ih =>
    subst hbefore
    have hmove : (predicatesGuard O).move s.before s.before macros enabled = enabled := if_pos rfl
    have hcons : itemsEffect O L s.before ((r :: rs).map (requirementItem s) ++ l) macros enabled =
        if (predicatesGuard O).holds s.before macros then
          ((contentEffect L (.requirement r)).seq (itemsEffect O L s.before (rs.map (requirementItem s) ++ l)))
            macros enabled
        else itemsEffect O L s.before (rs.map (requirementItem s) ++ l) macros enabled := by
      simp only [itemsEffect, List.map_cons, List.cons_append, GuardStyle.effectFrom, requirementItem, hmove]
    rw [hcons]
    split
    · next hholds =>
      simp only [hholds, if_true] at ih
      rw [Effect.seq, own_append, ih]
      exact and_iff_right fun i d enabled h => by cases List.mem_singleton.1 h
    · next hholds =>
      simp only [hholds, if_false, Bool.false_eq_true] at ih
      exact ih

theorem own_definition (s : Slot) (l : List Item) :
    Own O (itemsEffect O L current (definitionItem s :: l) macros enabled).1 ↔
      ((predicatesGuard O).holds s.decl.guard macros = true →
        (predicatesGuard O).move current s.decl.guard macros enabled = (predicatesGuard O).on s.decl.guard) ∧
      Own O (itemsEffect O L s.decl.guard l macros ((predicatesGuard O).move current s.decl.guard macros enabled)).1 := by
  have hcons : itemsEffect O L current (definitionItem s :: l) macros enabled =
      if (predicatesGuard O).holds s.decl.guard macros then
        ((contentEffect L (.definition s.impl s.decl)).seq (itemsEffect O L s.decl.guard l)) macros
          ((predicatesGuard O).move current s.decl.guard macros enabled)
      else itemsEffect O L s.decl.guard l macros ((predicatesGuard O).move current s.decl.guard macros enabled) := rfl
  rw [hcons]
  split
  · next hholds =>
    rw [Effect.seq, own_append, forall_prop_of_true hholds]
    refine and_congr_left fun _ => ?_
    constructor
    · exact fun h => h _ _ _ (List.mem_singleton_self _)
    · intro h i d enabled hmem
      cases List.mem_singleton.1 hmem
      exact h
  · next hholds => rw [forall_prop_of_false hholds, true_and]

/-- The definitions of a builtin, after one that has what its guard enables. -/
theorem own_items_iff {group : String} (earlier : List Slot) (l : List (Implementation × Declaration)) :
    Own O (itemsEffect O L current (itemsFrom earlier (slotsFrom group current l)) macros
        ((predicatesGuard O).enter current macros ∅)).1 ↔
      EachAfter (Undisturbed O L macros) earlier (slotsFrom group current l) := by
  induction l generalizing earlier current with
  | nil => exact iff_of_true (fun _ _ _ h => absurd h List.not_mem_nil) trivial
  | cons x l ih =>
    obtain ⟨i, d⟩ := x
    let s : Slot := { group, before := current, impl := i, decl := d }
    let rs := (emitRequirements i.requirements (seen group earlier)).1
    let enabled := if (predicatesGuard O).holds current macros then
      turnedOff L macros rs ((predicatesGuard O).enter current macros ∅) else (predicatesGuard O).enter current macros ∅
    have henabled : enabled ⊆ (predicatesGuard O).enter current macros ∅ := by
      dsimp only [enabled]
      split
      · exact fun e he => (mem_turnedOff.1 he).1
      · exact subset_rfl
    have hmove := move_subset henabled d.guard
    -- The guard has what it enables where its definition is undisturbed.
    have hundisturbed : ((predicatesGuard O).holds d.guard macros = true →
        (predicatesGuard O).move current d.guard macros enabled = (predicatesGuard O).on d.guard) ↔
          Undisturbed O L macros earlier s := by
      by_cases hsame : d.guard = current
      · subst hsame
        have hiff : (predicatesGuard O).holds d.guard macros = true →
            ((predicatesGuard O).move d.guard d.guard macros enabled = (predicatesGuard O).on d.guard ↔
              ∀ r, FirstUse earlier s r → Disjoint (L.turnsOff r macros) ((predicatesGuard O).on d.guard)) := by
          intro hholds
          have hon : (predicatesGuard O).enter d.guard macros ∅ = (predicatesGuard O).on d.guard := by
            rw [enter_empty, if_pos hholds]
          rw [GuardStyle.move, if_pos rfl]
          dsimp only [enabled]
          rw [if_pos hholds, hon, turnedOff_eq_self_iff]
          exact forall_congr' fun r => imp_congr_left mem_emitRequirements
        exact ⟨fun h _ hholds => (hiff hholds).1 (h hholds), fun h hholds => (hiff hholds).2 (h rfl hholds)⟩
      · refine iff_of_true (fun hholds => ?_) fun hbefore => absurd hbefore.symm hsame
        rw [move_of_subset henabled hsame, enter_empty, if_pos hholds]
    refine (own_requirements (s := s) rfl rs _).trans ((own_definition s _).trans ?_)
    refine (and_congr_left' hundisturbed).trans (and_congr_right fun h => ?_)
    have henter : (predicatesGuard O).move current d.guard macros enabled = (predicatesGuard O).enter d.guard macros ∅ := by
      cases hholds : (predicatesGuard O).holds d.guard macros with
      | true => rw [hundisturbed.2 h hholds, enter_empty, if_pos hholds]
      | false =>
        rw [enter_empty, if_neg (by simp [hholds])] at hmove ⊢
        exact Finset.subset_empty.1 hmove
    exact henter ▸ ih (earlier ++ [s])

theorem eachAfter_placed {P : List Slot → Slot → Prop} (earlier : List Slot) (Bs : List OCLBuiltin) :
    EachAfter P earlier (Bs.flatMap (builtinSlots L)) ↔
      ∀ p ∈ placed L earlier Bs, EachAfter P p.1 (builtinSlots L p.2) := by
  induction Bs generalizing earlier with
  | nil => exact iff_of_true trivial (List.forall_mem_nil _)
  | cons B Bs ih =>
    rw [List.flatMap_cons, eachAfter_append, ih, placed]
    split
    · next hB =>
      rw [(builtinSlots_eq_nil_iff L B).2 hB, List.append_nil]
      exact and_iff_right trivial
    · rw [List.forall_mem_cons]

theorem own_keptOf_iff (macros : Finset String) : Own O (keptOf O L macros) ↔
    ∀ p s q, slots L = p ++ s :: q → groupGuard.holds s.group macros = true → Undisturbed O L macros p s := by
  have hbuiltin : ∀ p : List Slot × OCLBuiltin, (groupGuard.holds (L.getGroup p.2) macros = true →
      Own O (builtinEffect O L p macros ∅).1) ↔
        EachAfter (fun earlier s => groupGuard.holds s.group macros = true → Undisturbed O L macros earlier s) p.1
          (builtinSlots L p.2) := by
    intro p
    have hitems : Own O (itemsEffect O L ∅ (itemsFrom p.1 (builtinSlots L p.2)) macros
        ((predicatesGuard O).enter ∅ macros ∅)).1 ↔ EachAfter (Undisturbed O L macros) p.1 (builtinSlots L p.2) :=
      own_items_iff p.1 (definitions L p.2)
    have hgroup : ∀ {q s q'}, builtinSlots L p.2 = q ++ s :: q' → s.group = L.getGroup p.2 := by
      intro q s q' hsplit
      have hs : s ∈ builtinSlots L p.2 := by simp [hsplit]
      exact group_of_mem hs
    rw [enter_empty, show (predicatesGuard O).on ∅ = ∅ from (predicatesGuard O).on_free, ite_self] at hitems
    refine (imp_congr_right fun _ => hitems).trans ?_
    rw [eachAfter_iff, eachAfter_iff]
    constructor
    · intro h q s q' hsplit hholds
      exact h (hgroup hsplit ▸ hholds) q s q' hsplit
    · intro h hholds q s q' hsplit
      exact h q s q' hsplit ((hgroup hsplit).symm ▸ hholds)
  have hsplits : EachAfter (fun earlier s => groupGuard.holds s.group macros = true → Undisturbed O L macros earlier s) []
      (slots L) ↔ ∀ p s q, slots L = p ++ s :: q → groupGuard.holds s.group macros = true → Undisturbed O L macros p s :=
    eachAfter_iff
  rw [← hsplits, slots, eachAfter_placed]
  simp only [← hbuiltin, keptOf, Own, List.mem_flatMap, List.mem_filter]
  constructor
  · intro h p hp hholds i d enabled hmem
    exact h i d enabled ⟨p, ⟨hp, hholds⟩, hmem⟩
  · rintro h i d enabled ⟨p, ⟨hp, hholds⟩, hmem⟩
    exact h p hp hholds i d enabled hmem

/-- The definitions that are left, in their order, are those whose group and predicates are all defined. Each has the
extensions of its own predicates and no others, whatever is defined, exactly if no requirement that is written within
the guard of its signature turns one of them off: one that no signature before it in the run of its group needs, where
the signature before it has the same predicates. -/
theorem kept_definitions_iff (O : PredicateObjects) (L : Library) :
    (∀ macros : Finset String, ∃ kept, preprocess (emitOCLBuiltinImpls O L) { macros } = some { macros, kept } ∧
      (kept.map Prod.fst).filterMap declaration? = L.builtins.flatMap fun B => (emitImpls L.toTables B).filter fun d =>
        groupGuard.holds (L.getGroup B) macros && (predicatesGuard O).holds d.guard macros) ∧
    ((∀ macros : Finset String, ∃ kept, preprocess (emitOCLBuiltinImpls O L) { macros } = some { macros, kept } ∧
        Own O kept) ↔
      ∀ p s q, slots L = p ++ s :: q → s.before = s.decl.guard → ∀ r, FirstUse p s r →
        ∀ macros, tested O s.group s.decl.guard ⊆ macros →
          Disjoint (L.turnsOff r macros) ((predicatesGuard O).on s.decl.guard)) := by
  refine ⟨fun macros => ⟨_, preprocess_emitOCLBuiltinImpls O L macros, keptOf_declarations O L macros⟩, ?_⟩
  have hown : (∀ macros : Finset String, ∃ kept,
      preprocess (emitOCLBuiltinImpls O L) { macros } = some { macros, kept } ∧ Own O kept) ↔
        ∀ macros, Own O (keptOf O L macros) := by
    refine forall_congr' fun macros => ?_
    rw [preprocess_emitOCLBuiltinImpls]
    constructor
    · rintro ⟨kept, hrun, h⟩
      cases hrun
      exact h
    · exact fun h => ⟨_, rfl, h⟩
  rw [hown]
  simp only [own_keptOf_iff, Undisturbed, tested_subset_iff]
  constructor
  · intro h p s q hsplit hbefore r hr macros hmacros
    exact h macros p s q hsplit hmacros.1 hbefore hmacros.2 r hr
  · intro h macros p s q hsplit hgroup hbefore hholds r hr
    exact h p s q hsplit hbefore r hr macros ⟨hgroup, hholds⟩

end Extensions

/-! ## Requirements -/

section Supplied
variable (O : PredicateObjects)

def needs : Content → List Content
  | .requirement _ => []
  | .definition i _ => i.requirements.map .requirement

/-- Whatever is defined, a definition that is left comes after all that its implementation requires. -/
def Supplied (L : Library) : Prop := ∀ macros : Finset String, ∃ kept,
  preprocess (emitOCLBuiltinImpls O L) { macros } = some { macros, kept } ∧ AfterNeeds needs (kept.map Prod.fst)

/-- What is left is what the defined macros keep of the items. -/
theorem supplied_keptUnder (L : Library) : Supplied O L ↔
    ∀ macros, AfterNeeds needs (keptUnder macros ((items L).map fun x => (x.tested O, x.content))) := by
  have hkept : ∀ macros, (keptOf O L macros).map Prod.fst =
      keptUnder macros ((items L).map fun x => (x.tested O, x.content)) := by
    intro macros
    rw [keptOf_contents, keptUnder, List.filter_map, List.map_map]
    rfl
  refine forall_congr' fun macros => ?_
  rw [preprocess_emitOCLBuiltinImpls, ← hkept]
  constructor
  · rintro ⟨kept, hrun, h⟩
    cases hrun
    exact h
  · exact fun h => ⟨_, rfl, h⟩

theorem mem_requirementItems {earlier : List Slot} {s : Slot} {x : Item} :
    x ∈ requirementItems earlier s ↔ ∃ r, FirstUse earlier s r ∧ requirementItem s r = x := by
  rw [requirementItems, List.mem_map]
  exact exists_congr fun r => and_congr_left fun _ => mem_emitRequirements

/-- A requirement stands where it is used first. -/
theorem requirement_mem_itemsFrom {earlier l : List Slot} {x : Item} {r : OCLRequirement} (hx : x.content = .requirement r) :
    x ∈ itemsFrom earlier l ↔ ∃ p s q, l = p ++ s :: q ∧ FirstUse (earlier ++ p) s r ∧ requirementItem s r = x := by
  induction l generalizing earlier with
  | nil => simp [itemsFrom]
  | cons s l ih =>
    rw [itemsFrom, List.mem_append, List.mem_cons, mem_requirementItems, ih]
    constructor
    · rintro (⟨r', hr, rfl⟩ | rfl | ⟨p, s', q, rfl, hr, hx⟩)
      · cases hx
        exact ⟨[], s, l, rfl, by rwa [List.append_nil], rfl⟩
      · cases hx
      · exact ⟨s :: p, s', q, rfl, by rwa [List.append_assoc] at hr, hx⟩
    · rintro ⟨p, s', q, hsplit, hr, hx⟩
      cases p with
      | nil =>
        obtain ⟨rfl, rfl⟩ := List.cons.inj hsplit
        exact .inl ⟨r, by rwa [List.append_nil] at hr, hx⟩
      | cons s₁ p =>
        obtain ⟨rfl, rfl⟩ := List.cons.inj hsplit
        exact .inr (.inr ⟨p, s', q, rfl, by rwa [List.append_assoc], hx⟩)

/-- Where a definition stands. -/
theorem itemsFrom_definition {earlier l : List Slot} {p q : List Item} {x : Item} {i : Implementation}
    {d : Declaration} (hx : x.content = .definition i d) (h : itemsFrom earlier l = p ++ x :: q) : ∃ l₁ s l₂,
      l = l₁ ++ s :: l₂ ∧ x = definitionItem s ∧ p = itemsFrom earlier l₁ ++ requirementItems (earlier ++ l₁) s := by
  induction l generalizing earlier p with
  | nil => simp [itemsFrom] at h
  | cons s l ih =>
    rw [itemsFrom] at h
    rcases List.append_eq_append_iff.1 h with ⟨p', rfl, hp'⟩ | ⟨q', hq', hq⟩
    · cases p' with
      | nil =>
        obtain ⟨rfl, -⟩ := List.cons.inj hp'
        exact ⟨[], s, l, rfl, rfl, by simp [itemsFrom]⟩
      | cons y p' =>
        obtain ⟨rfl, hrest⟩ := List.cons.inj hp'
        obtain ⟨l₁, s', l₂, rfl, hs', rfl⟩ := ih hrest
        refine ⟨s :: l₁, s', l₂, rfl, hs', ?_⟩
        rw [itemsFrom, List.append_assoc, List.append_assoc]
        simp
    · cases q' with
      | nil =>
        obtain ⟨rfl, -⟩ := List.cons.inj hq
        exact ⟨[], s, l, rfl, rfl, by simpa [itemsFrom] using hq'.symm⟩
      | cons y q' =>
        -- It would stand among the requirements.
        obtain ⟨rfl, -⟩ := List.cons.inj hq
        have hmem : x ∈ requirementItems earlier s := by simp [hq']
        obtain ⟨r, -, rfl⟩ := mem_requirementItems.1 hmem
        cases hx

/-- Every definition has all that it requires, whatever is defined, exactly if for each requirement of a signature one
at or before it was the first of its run to need it, where the guard of the signature before that one tests no
macro that the signature's own does not. -/
theorem supplied_iff (L : Library) : Supplied O L ↔ ∀ p s q, slots L = p ++ s :: q → ∀ r ∈ s.impl.requirements,
    ∃ p' s', p' ++ [s'] <+: p ++ [s] ∧ FirstUse p' s' r ∧
      tested O s'.group s'.before ⊆ tested O s.group s.decl.guard := by
  rw [supplied_keptUnder, afterNeeds_iff]
  constructor
  · intro h p s q hslots r hr
    -- The requirements of the slots before, and of the slot.
    have hitems : items L = (itemsFrom [] p ++ requirementItems p s) ++
        definitionItem s :: itemsFrom (p ++ [s]) q := by
      rw [items, hslots, itemsFrom_append, List.nil_append, itemsFrom, List.append_assoc]
    obtain ⟨_, hj, hneeded, hsubset⟩ := h _ _ _ (by rw [hitems, List.map_append, List.map_cons]) (.requirement r)
      (List.mem_map_of_mem hr)
    obtain ⟨x, hx, rfl⟩ := List.mem_map.1 hj
    have hmem : x ∈ itemsFrom [] (p ++ [s]) := by
      rw [itemsFrom_append, List.nil_append, itemsFrom, ← List.singleton_append (l := itemsFrom _ _),
        ← List.append_assoc, ← List.append_assoc]
      exact List.mem_append_left _ (List.mem_append_left _ hx)
    obtain ⟨p', s', q', hsplit, hfirst, rfl⟩ := (requirement_mem_itemsFrom hneeded).1 hmem
    exact ⟨p', s', ⟨q', by rw [hsplit, List.append_assoc]; rfl⟩, by simpa using hfirst, hsubset⟩
  · intro h p i q hsplit b hb
    obtain ⟨p₁, x, q₁, hitems, rfl, rfl, rfl⟩ : ∃ p₁ x q₁, items L = p₁ ++ x :: q₁ ∧
        p₁.map (fun x => (x.tested O, x.content)) = p ∧ (x.tested O, x.content) = i ∧
          q₁.map (fun x => (x.tested O, x.content)) = q := by
      obtain ⟨p₁, rest, hitems, hp, hrest⟩ := List.map_eq_append_iff.1 hsplit
      obtain ⟨x, q₁, rfl, hx, hq⟩ := List.map_eq_cons_iff.1 hrest
      exact ⟨p₁, x, q₁, hitems, hp, hx, hq⟩
    cases hcontent : x.content with
    | requirement r =>
      dsimp only at hb
      rw [hcontent] at hb
      cases hb
    | definition impl d =>
      obtain ⟨l₁, s, l₂, hslots, rfl, rfl⟩ := itemsFrom_definition hcontent hitems
      obtain ⟨r, hr, rfl⟩ := List.mem_map.1 hb
      obtain ⟨p', s', ⟨q', hprefix⟩, hfirst, hsubset⟩ := h l₁ s l₂ hslots r hr
      refine ⟨(tested O s'.group s'.before, .requirement r), ?_, rfl, hsubset⟩
      -- It stands in the text of the slots up to this one, before the definition.
      have hmem : requirementItem s' r ∈ itemsFrom [] (l₁ ++ [s]) := by
        refine (requirement_mem_itemsFrom rfl).2 ⟨p', s', q', ?_, by simpa using hfirst, rfl⟩
        rw [← hprefix, List.append_assoc]
        rfl
      rw [itemsFrom_append, itemsFrom, List.mem_append, List.mem_append, List.mem_cons] at hmem
      refine List.mem_map.2 ⟨requirementItem s' r, List.mem_append.2 ?_, rfl⟩
      rcases hmem with hmem | hmem | hmem | hmem
      · exact .inl hmem
      · exact .inr hmem
      · have hne : Content.requirement r = .definition s.impl s.decl := congrArg Item.content hmem
        cases hne
      · cases hmem

end Supplied

/-! ## Target features -/

section TargetDefs
variable (O : PredicateObjects)

structure OCLTargetFeature where
  predicates : List OCLPredicate
  features : List OCLPredicate
  deriving DecidableEq, Repr

namespace OCLTargetFeature

/-- What the features stand under. -/
def requires (f : OCLTargetFeature) : PredicateSet := (f.predicates.filter fun p => !isAddressSpace p).toFinset

def defines (f : OCLTargetFeature) : List String := (f.features.filter fun p => !isAddressSpace p).map fullName

end OCLTargetFeature

/-- The lines of a header; its text is what it includes. -/
abbrev Header := List (Line String String String)

/-- The loop of `EmitOCLTargetDefs`. -/
def emitTargetFeatures : PredicateSet → List OCLTargetFeature → Header
  | current, [] => (predicatesGuard O).closing current
  | current, f :: fs =>
    (predicatesGuard O).push current f.requires ++ f.defines.map .define ++ emitTargetFeatures f.requires fs

def includeGuard : String := "OPENCRUN_OCLTARGET_H"

def includes (targetName : String) : List String :=
  ["ocltype.h", "ocltype." ++ targetName ++ ".h", "oclconst.h", "oclconst." ++ targetName ++ ".h", "oclbuiltin.h"]

def emitOCLTargetDefs (targetName : String) (fs : List OCLTargetFeature) : Header :=
  [.ifNotDefined includeGuard, .define includeGuard] ++ emitTargetFeatures O ∅ fs ++ (includes targetName).map .text ++
    [.endif]

theorem emitTargetFeatures_eq (current : PredicateSet) (fs : List OCLTargetFeature) : emitTargetFeatures O current fs =
    (predicatesGuard O).emitFrom current (fs.map fun f => (f.requires, f.defines.map .define)) := by
  induction fs generalizing current with
  | nil => rfl
  | cons f fs ih =>
    rw [emitTargetFeatures, ih]
    rfl

/-- What is defined once the features of a target have been gone through, one by one. -/
def definedAfter (macros : Finset String) (fs : List OCLTargetFeature) : Finset String :=
  fs.foldl (fun macros f =>
    if ∀ p ∈ f.predicates, isAddressSpace p = false → fullName p ∈ macros then macros ∪ f.defines.toFinset
    else macros) macros

theorem holds_requires (f : OCLTargetFeature) (macros : Finset String) :
    (predicatesGuard O).holds f.requires macros = true ↔
      ∀ p ∈ f.predicates, isAddressSpace p = false → fullName p ∈ macros := by
  simp only [GuardStyle.holds, predicatesGuard, decide_eq_true_eq, List.forall_mem_map, O.mem_order,
    OCLTargetFeature.requires, List.mem_toFinset, List.mem_filter, Bool.not_eq_true', and_imp]

/-- In the text, where the guard of a feature is left open for the next. -/
theorem preprocess_emitTargetFeatures (fs : List OCLTargetFeature) {s : State String String String} (hs : s.enabled = ∅) :
    preprocess (emitTargetFeatures O ∅ fs) s =
      some { s with macros := if s.active then definedAfter s.macros fs else s.macros } := by
  have htext : emitTargetFeatures O ∅ fs = (predicatesGuard O).emit
      ((fs.map fun f => (f.requires, f.defines)).map fun p => (p.1, p.2.map .define)) := by
    rw [List.map_map]
    exact emitTargetFeatures_eq O ∅ fs
  have hdisjoint : ∀ p ∈ fs.map fun f => (f.requires, f.defines), Disjoint s.enabled ((predicatesGuard O).on p.1) :=
    fun p _ => hs ▸ Finset.disjoint_empty_left _
  rw [htext, preprocess_emit_defines (predicatesGuard O) hdisjoint, List.foldl_map]
  have hfold : fs.foldl (fun macros f => (predicatesGuard O).defineIn macros (f.requires, f.defines)) s.macros =
      definedAfter s.macros fs := by
    refine List.foldl_ext _ _ s.macros fun macros f _ => ?_
    simp only [GuardStyle.defineIn, holds_requires]
  rw [hfold]

/-- The header does nothing where its macro is defined. Elsewhere it defines it, then a feature defines its macros
exactly if all its predicates, other than address spaces, were defined before or by features that stand before it, and
then other headers are included. -/
theorem target_features_define (targetName : String) (fs : List OCLTargetFeature) (macros : Finset String) :
    preprocess (emitOCLTargetDefs O targetName fs) { macros } = some (if includeGuard ∈ macros then { macros } else
      { macros := definedAfter (insert includeGuard macros) fs
        kept := (includes targetName).map fun name => (name, ∅) }) := by
  rw [emitOCLTargetDefs, preprocess_append, preprocess_append, preprocess_append]
  by_cases hdefined : includeGuard ∈ macros
  · have hopen : preprocess [.ifNotDefined includeGuard, .define includeGuard] ({ macros } : State String String String) =
        some { macros, conds := [false] } := by
      simp [preprocess_cons, Line.apply, State.active, hdefined]
    rw [hopen, Option.bind_some, preprocess_emitTargetFeatures O fs rfl, Option.bind_some, has_texts,
      Option.bind_some, State.after_of_inactive rfl, if_pos hdefined]
    rfl
  · have hopen : preprocess [.ifNotDefined includeGuard, .define includeGuard] ({ macros } : State String String String) =
        some { macros := insert includeGuard macros, conds := [true] } := by
      simp [preprocess_cons, Line.apply, Line.act, State.active, hdefined]
    rw [hopen, Option.bind_some, preprocess_emitTargetFeatures O fs rfl, Option.bind_some, has_texts,
      Option.bind_some, State.after_of_active rfl, if_neg hdefined]
    rfl

end TargetDefs

end OpenCRun.OCLGen.GuardedText
