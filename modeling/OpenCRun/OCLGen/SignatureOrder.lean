import Mathlib.Data.List.Lex
import Mathlib.Data.Prod.Lex
import Mathlib.Data.String.Basic
import OpenCRun.OCLGen.Overloads
/-!
# The order of signatures

Types are sorted by `compareLess`, and signatures by the first place where they
differ. The comparison of vectors and of pointers is lexicographic; that of
qualified types takes either part, and qualified types and pointers come
before each other.
-/
namespace OpenCRun.SignatureOrder

open OCLGen.Overloads

/-! ## Types -/

/-- The types from which a type is built. -/
def components : OCLBasicType → List OCLBasicType
  | .scalar _ | .opaqueType .. => []
  | .vector _ base _ => [.scalar base]
  | .qualified _ unqual _ _ => [unqual]
  | .pointer _ base _ _ _ => [base]

/-- The types that the generator has built: with a type, those that it is built from. -/
structure TypesTable where
  types : Set OCLBasicType
  built : ∀ t ∈ types, ∀ c ∈ components t, c ∈ types

namespace TypesTable
variable (T : TypesTable)

/-- `compareLess` of types of the table. -/
def typeLess (t t' : T.types) : Prop := t.1.compareLess t'.1 = true

/-- `BuiltinSignCompare` of signatures over the table. -/
def signLess (s s' : List T.types) : Prop :=
  builtinSignCompare { tys := s.map Subtype.val, predicates := ∅ } { tys := s'.map Subtype.val, predicates := ∅ } = true

/-- Types and signatures are put in an order that tells any two of them apart. -/
structure Ordered : Prop where
  types : IsStrictTotalOrder T.types T.typeLess
  signs : IsStrictTotalOrder (List T.types) T.signLess

end TypesTable

/-! ## The intended order -/

/-- Integers before reals and signed before unsigned ones, then by width. -/
def scalarKey : OCLScalarType → ℕ ×ₗ ℕ
  | .integer _ w isUnsigned _ => toLex (if isUnsigned then 1 else 0, w)
  | .real _ w _ => toLex (2, w)

/-- Vectors come behind the scalar that they are made of, by width. -/
def arithmeticKey : OCLBasicType → (ℕ ×ₗ ℕ) ×ₗ ℕ
  | .scalar s => toLex (scalarKey s, 0)
  | .vector _ base w => toLex (scalarKey base, w + 1)
  | _ => toLex (toLex (0, 0), 0)

def rank : OCLBasicType → Nat
  | .scalar _ | .vector .. => 0
  | .opaqueType .. => 1
  | .qualified .. => 2
  | .pointer .. => 3

/-- Lexicographic throughout: by kind, and within a kind by its parts. -/
def precedes : OCLBasicType → OCLBasicType → Prop
  | .opaqueType _ n _, .opaqueType _ n' _ => n < n'
  | .qualified _ t q _, .qualified _ t' q' _ => precedes t t' ∨ (t = t' ∧ q.toNat < q'.toNat)
  | .pointer _ t as _ _, .pointer _ t' as' _ _ => precedes t t' ∨ (t = t' ∧ as.toNat < as'.toNat)
  | t, t' => rank t < rank t' ∨ (rank t = rank t' ∧ arithmeticKey t < arithmeticKey t')

/-- The parts that are compared tell types apart, there are no pointers beside qualified types, and a later qualifier
goes with a type that is the same or comes later. -/
structure Orderable (T : TypesTable) : Prop where
  scalars : ∀ s s', .scalar s ∈ T.types → .scalar s' ∈ T.types → scalarKey s = scalarKey s' → s = s'
  vectors : ∀ r r' base w, .vector r base w ∈ T.types → .vector r' base w ∈ T.types → r = r'
  opaques : ∀ r r' n p p', .opaqueType r n p ∈ T.types → .opaqueType r' n p' ∈ T.types → r = r' ∧ p = p'
  qualified : ∀ r r' t q p p', .qualified r t q p ∈ T.types → .qualified r' t q p' ∈ T.types → r = r' ∧ p = p'
  pointers : ∀ r r' t as mods mods' p p', .pointer r t as mods p ∈ T.types → .pointer r' t as mods' p' ∈ T.types →
    r = r' ∧ mods = mods' ∧ p = p'
  apart : ∀ r t q p r' t' as mods p', .qualified r t q p ∈ T.types → .pointer r' t' as mods p' ∉ T.types
  qualifiers : ∀ r r' t t' q q' p p', .qualified r t q p ∈ T.types → .qualified r' t' q' p' ∈ T.types →
    q.toNat < q'.toNat → t = t' ∨ precedes t t'

/-! ### A strict order -/

theorem precedes_irrefl (t : OCLBasicType) : ¬ precedes t t := by
  induction t with
  | scalar | vector => simp [precedes]
  | opaqueType => simp [precedes]
  | qualified _ _ _ _ ih | pointer _ _ _ _ _ ih => simp [precedes, ih]

section Ranks
variable {t t' t'' : OCLBasicType}

theorem precedes_of_rank (h : rank t < rank t') : precedes t t' := by
  cases t <;> cases t' <;> simp_all [precedes, rank]

theorem rank_le (h : precedes t t') : rank t ≤ rank t' := by
  cases t <;> cases t' <;> simp_all [precedes, rank]

theorem precedes_arithmetic_iff (h : rank t = 0) (h' : rank t' = 0) :
    precedes t t' ↔ arithmeticKey t < arithmeticKey t' := by
  cases t <;> cases t' <;> simp_all [precedes, rank]

theorem arithmetic_of_rank (h : rank t = 0) : (∃ s, t = .scalar s) ∨ ∃ r base w, t = .vector r base w := by
  cases t <;> simp_all [rank]

theorem opaque_of_rank (h : rank t = 1) : ∃ r n p, t = .opaqueType r n p := by
  cases t <;> simp_all [rank]

theorem qualified_of_rank (h : rank t = 2) : ∃ r u q p, t = .qualified r u q p := by
  cases t <;> simp_all [rank]

theorem pointer_of_rank (h : rank t = 3) : ∃ r b as mods p, t = .pointer r b as mods p := by
  cases t <;> simp_all [rank]

/-- Lexicographic steps one after the other. -/
theorem lexicographic_trans {t t' t'' : OCLBasicType} {n n' n'' : Nat}
    (htrans : precedes t t' → precedes t' t'' → precedes t t'') (h : precedes t t' ∨ (t = t' ∧ n < n'))
    (h' : precedes t' t'' ∨ (t' = t'' ∧ n' < n'')) : precedes t t'' ∨ (t = t'' ∧ n < n'') := by
  rcases h with h | ⟨rfl, h⟩
  · rcases h' with h' | ⟨rfl, -⟩
    · exact .inl (htrans h h')
    · exact .inl h
  · exact h'.imp id fun h' => ⟨h'.1, h.trans h'.2⟩

theorem precedes_trans (h : precedes t t') (h' : precedes t' t'') : precedes t t'' := by
  induction t generalizing t' t'' with
  | scalar | vector =>
    by_cases hrank : 0 < rank t''
    · exact precedes_of_rank hrank
    · have hlast : rank t'' = 0 := Nat.eq_zero_of_not_pos hrank
      have hmid : rank t' = 0 := Nat.le_zero.1 (hlast ▸ rank_le h')
      rw [precedes_arithmetic_iff rfl hmid] at h
      rw [precedes_arithmetic_iff hmid hlast] at h'
      exact (precedes_arithmetic_iff rfl hlast).2 (h.trans h')
  | opaqueType r n p =>
    by_cases hrank : 1 < rank t''
    · exact precedes_of_rank hrank
    · have hlower : 1 ≤ rank t' := rank_le h
      have hupper := rank_le h'
      obtain ⟨r', n', p', rfl⟩ := opaque_of_rank (t := t') (by omega)
      obtain ⟨r'', n'', p'', rfl⟩ := opaque_of_rank (t := t'') (by omega)
      exact lt_trans (b := n') h h'
  | qualified r u q p ih =>
    by_cases hrank : 2 < rank t''
    · exact precedes_of_rank hrank
    · have hlower : 2 ≤ rank t' := rank_le h
      have hupper := rank_le h'
      obtain ⟨r', u', q', p', rfl⟩ := qualified_of_rank (t := t') (by omega)
      obtain ⟨r'', u'', q'', p'', rfl⟩ := qualified_of_rank (t := t'') (by omega)
      exact lexicographic_trans ih h h'
  | pointer r b as mods p ih =>
    have hlower : 3 ≤ rank t' := rank_le h
    have hupper := rank_le h'
    have hmost : rank t'' ≤ 3 := by cases t'' <;> simp [rank]
    obtain ⟨r', b', as', mods', p', rfl⟩ := pointer_of_rank (t := t') (by omega)
    obtain ⟨r'', b'', as'', mods'', p'', rfl⟩ := pointer_of_rank (t := t'') (by omega)
    exact lexicographic_trans ih h h'

end Ranks

/-! ### Any two types of the table -/

section Total
variable {T : TypesTable}

theorem mem_component {t c : OCLBasicType} (h : t ∈ T.types) (hc : components t = [c]) : c ∈ T.types :=
  T.built t h c (by rw [hc]; exact List.mem_singleton_self c)

theorem Qualifier.toNat_injective : Function.Injective Qualifier.toNat := by
  intro q q' h
  cases q <;> cases q' <;> simp_all [Qualifier.toNat]

theorem AddressSpaceKind.toNat_injective : Function.Injective AddressSpaceKind.toNat := by
  intro as as' h
  cases as <;> cases as' <;> simp_all [AddressSpaceKind.toNat]

theorem arithmetic_eq (h : Orderable T) {t t' : OCLBasicType} (ht : t ∈ T.types) (ht' : t' ∈ T.types) (hrank : rank t = 0)
    (hrank' : rank t' = 0) (hkey : arithmeticKey t = arithmeticKey t') : t = t' := by
  rcases arithmetic_of_rank hrank with ⟨s, rfl⟩ | ⟨r, base, w, rfl⟩
  · rcases arithmetic_of_rank hrank' with ⟨s', rfl⟩ | ⟨r', base', w', rfl⟩
    · obtain ⟨hscalar, -⟩ := Prod.mk.inj hkey
      rw [h.scalars s s' ht ht' hscalar]
    · obtain ⟨-, hwidth⟩ := Prod.mk.inj hkey
      exact absurd hwidth.symm (Nat.succ_ne_zero w')
  · rcases arithmetic_of_rank hrank' with ⟨s', rfl⟩ | ⟨r', base', w', rfl⟩
    · obtain ⟨-, hwidth⟩ := Prod.mk.inj hkey
      exact absurd hwidth (Nat.succ_ne_zero w)
    · obtain ⟨hscalar, hwidth⟩ := Prod.mk.inj hkey
      obtain rfl := h.scalars base base' (mem_component ht rfl) (mem_component ht' rfl) hscalar
      obtain rfl := Nat.succ.inj hwidth
      rw [h.vectors r r' base w ht ht']

theorem total_of_rank {t t' : OCLBasicType} (hsame : rank t' = rank t → precedes t t' ∨ precedes t' t) :
    precedes t t' ∨ precedes t' t := by
  rcases lt_trichotomy (rank t) (rank t') with hlt | heq | hgt
  · exact .inl (precedes_of_rank hlt)
  · exact hsame heq.symm
  · exact .inr (precedes_of_rank hgt)

theorem lexicographic_total {t t' : OCLBasicType} {n n' : Nat} (htotal : t ≠ t' → precedes t t' ∨ precedes t' t)
    (hne : t = t' → n ≠ n') : (precedes t t' ∨ (t = t' ∧ n < n')) ∨ (precedes t' t ∨ (t' = t ∧ n' < n)) := by
  by_cases heq : t = t'
  · exact (lt_or_gt_of_ne (hne heq)).imp (fun hlt => .inr ⟨heq, hlt⟩) fun hgt => .inr ⟨heq.symm, hgt⟩
  · exact (htotal heq).imp .inl .inl

theorem arithmetic_total (h : Orderable T) {t t' : OCLBasicType} (ht : t ∈ T.types) (ht' : t' ∈ T.types)
    (hrank : rank t = 0) (hne : t ≠ t') : precedes t t' ∨ precedes t' t := by
  refine total_of_rank fun hsame => ?_
  have hrank' : rank t' = 0 := hsame.trans hrank
  rw [precedes_arithmetic_iff hrank hrank', precedes_arithmetic_iff hrank' hrank]
  exact lt_or_gt_of_ne (mt (arithmetic_eq h ht ht' hrank hrank') hne)

theorem precedes_total (h : Orderable T) {t t' : OCLBasicType} (ht : t ∈ T.types) (ht' : t' ∈ T.types) (hne : t ≠ t') :
    precedes t t' ∨ precedes t' t := by
  induction t generalizing t' with
  | scalar | vector => exact arithmetic_total h ht ht' rfl hne
  | opaqueType r n p =>
    refine total_of_rank fun hsame => ?_
    obtain ⟨r', n', p', rfl⟩ := opaque_of_rank hsame
    refine lt_or_gt_of_ne fun hname => hne ?_
    obtain rfl : n = n' := hname
    obtain ⟨rfl, rfl⟩ := h.opaques r r' n p p' ht ht'
    rfl
  | qualified r u q p ih =>
    refine total_of_rank fun hsame => ?_
    obtain ⟨r', u', q', p', rfl⟩ := qualified_of_rank hsame
    refine lexicographic_total (ih (mem_component ht rfl) (mem_component ht' rfl)) fun hu hq => hne ?_
    obtain rfl := hu
    obtain rfl := Qualifier.toNat_injective hq
    obtain ⟨rfl, rfl⟩ := h.qualified r r' u q p p' ht ht'
    rfl
  | pointer r b as mods p ih =>
    refine total_of_rank fun hsame => ?_
    obtain ⟨r', b', as', mods', p', rfl⟩ := pointer_of_rank hsame
    refine lexicographic_total (ih (mem_component ht rfl) (mem_component ht' rfl)) fun hb has => hne ?_
    obtain rfl := hb
    obtain rfl := AddressSpaceKind.toNat_injective has
    obtain ⟨rfl, rfl, rfl⟩ := h.pointers r r' b as mods mods' p p' ht ht'
    rfl

end Total

/-! ## What is compared -/

/-- Where `compareLess` is the lexicographic order. -/
structure Lexicographic (T : TypesTable) : Prop where
  scalars : ∀ s s', .scalar s ∈ T.types → .scalar s' ∈ T.types → scalarKey s = scalarKey s' → s = s'
  apart : ∀ r t q p r' t' as mods p', .qualified r t q p ∈ T.types → .pointer r' t' as mods p' ∉ T.types
  qualifiers : ∀ r r' t t' q q' p p', .qualified r t q p ∈ T.types → .qualified r' t' q' p' ∈ T.types →
    q.toNat < q'.toNat → t = t' ∨ precedes t t' ∨ t.compareLess t' = true

section Compared
variable {T : TypesTable}

theorem scalar_compareLess_iff (s s' : OCLScalarType) : s.compareLess s' = true ↔ scalarKey s < scalarKey s' := by
  cases s with
  | integer r w u p =>
    cases s' with
    | integer r' w' u' p' => cases u <;> cases u' <;> simp [OCLScalarType.compareLess, scalarKey, Prod.Lex.toLex_lt_toLex]
    | real => cases u <;> simp [OCLScalarType.compareLess, scalarKey, Prod.Lex.toLex_lt_toLex]
  | real r w p =>
    cases s' with
    | integer r' w' u' p' => cases u' <;> simp [OCLScalarType.compareLess, scalarKey, Prod.Lex.toLex_lt_toLex]
    | real => simp [OCLScalarType.compareLess, scalarKey, Prod.Lex.toLex_lt_toLex]

theorem arithmetic_compareLess_iff (h : Lexicographic T) {t t' : OCLBasicType} (ht : t ∈ T.types) (ht' : t' ∈ T.types)
    (hrank : rank t = 0) (hrank' : rank t' = 0) : t.compareLess t' = true ↔ arithmeticKey t < arithmeticKey t' := by
  rcases arithmetic_of_rank hrank with ⟨s, rfl⟩ | ⟨r, base, w, rfl⟩
  · rcases arithmetic_of_rank hrank' with ⟨s', rfl⟩ | ⟨r', base', w', rfl⟩
    · simp [OCLBasicType.compareLess, arithmeticKey, scalar_compareLess_iff, Prod.Lex.toLex_lt_toLex]
    · have hsame : s = base' ↔ scalarKey s = scalarKey base' :=
        ⟨congrArg scalarKey, h.scalars s base' ht (mem_component ht' rfl)⟩
      simp [OCLBasicType.compareLess, arithmeticKey, scalar_compareLess_iff, Prod.Lex.toLex_lt_toLex, hsame, or_comm]
  · rcases arithmetic_of_rank hrank' with ⟨s', rfl⟩ | ⟨r', base', w', rfl⟩
    · simp [OCLBasicType.compareLess, arithmeticKey, scalar_compareLess_iff, Prod.Lex.toLex_lt_toLex]
    · have hsame : base = base' ↔ scalarKey base = scalarKey base' :=
        ⟨congrArg scalarKey, h.scalars base base' (mem_component ht rfl) (mem_component ht' rfl)⟩
      simp [OCLBasicType.compareLess, arithmeticKey, scalar_compareLess_iff, Prod.Lex.toLex_lt_toLex, hsame]

theorem compareLess_iff (h : Lexicographic T) {t t' : OCLBasicType} (ht : t ∈ T.types) (ht' : t' ∈ T.types) :
    t.compareLess t' = true ↔ precedes t t' := by
  induction t generalizing t' with
  | scalar | vector =>
    by_cases hrank : rank t' = 0
    · rw [precedes_arithmetic_iff rfl hrank]
      exact arithmetic_compareLess_iff h ht ht' rfl hrank
    · cases t' <;> simp_all [OCLBasicType.compareLess, precedes, rank]
  | opaqueType r n p => cases t' <;> simp [OCLBasicType.compareLess, precedes, rank]
  | qualified r u q p ih =>
    cases t' with
    | qualified r' u' q' p' =>
      have hunqual := ih (mem_component ht rfl) (mem_component ht' rfl)
      simp only [OCLBasicType.compareLess, precedes, Bool.or_eq_true, decide_eq_true_eq, hunqual]
      constructor
      · rintro (hu | hq)
        · exact .inl hu
        · rcases h.qualifiers r r' u u' q q' p p' ht ht' hq with rfl | hu | hu
          · exact .inr ⟨rfl, hq⟩
          · exact .inl hu
          · exact .inl (hunqual.1 hu)
      · exact Or.imp id And.right
    | scalar | vector | opaqueType | pointer => simp [OCLBasicType.compareLess, precedes, rank]
  | pointer r b as mods p ih =>
    cases t' with
    | pointer r' b' as' mods' p' =>
      have hbase := ih (mem_component ht rfl) (mem_component ht' rfl)
      simp only [OCLBasicType.compareLess, precedes, Bool.or_eq_true, Bool.and_eq_true, decide_eq_true_eq, beq_iff_eq, hbase]
    | qualified r' u' q' p' => exact absurd ht (h.apart r' u' q' p' r b as mods p ht')
    | scalar | vector | opaqueType => simp [OCLBasicType.compareLess, precedes, rank]

theorem compareLess_irrefl (t : OCLBasicType) : t.compareLess t = false := by
  have hscalar : ∀ s : OCLScalarType, s.compareLess s = false := fun s =>
    Bool.eq_false_iff.2 fun h => lt_irrefl _ ((scalar_compareLess_iff s s).1 h)
  induction t with
  | scalar | vector => simp [OCLBasicType.compareLess, hscalar]
  | opaqueType => simp [OCLBasicType.compareLess]
  | qualified _ _ _ _ ih | pointer _ _ _ _ _ ih => simp [OCLBasicType.compareLess, ih]

/-- Signatures are compared as lists of types. -/
theorem signLess_iff (s s' : List T.types) : T.signLess s s' ↔ List.Lex T.typeLess s s' := by
  have hirrefl : Std.Irrefl T.typeLess := ⟨fun t h => Bool.false_ne_true ((compareLess_irrefl t.1).symm.trans h)⟩
  unfold TypesTable.signLess builtinSignCompare
  dsimp only
  induction s generalizing s' with
  | nil =>
    cases s' with
    | nil => exact ⟨fun h => absurd h Bool.false_ne_true, fun h => nomatch h⟩
    | cons t' s' => exact ⟨fun _ => .nil, fun _ => rfl⟩
  | cons t s ih =>
    cases s' with
    | nil => exact ⟨fun h => absurd h Bool.false_ne_true, fun h => nomatch h⟩
    | cons t' s' =>
      rw [List.map_cons, List.map_cons, compareTypes]
      by_cases heq : t = t'
      · subst heq
        rw [if_pos rfl]
        exact (ih s').trans List.lex_cons_iff.symm
      · rw [if_neg (mt Subtype.ext heq)]
        constructor
        · exact fun h => .rel h
        · intro h
          cases h with
          | rel h => exact h
          | cons h => exact absurd rfl heq

end Compared

/-! ## When the order tells all types apart -/

section Main
variable {T : TypesTable}

theorem orderable_of_strictTotal (h : IsStrictTotalOrder T.types T.typeLess) : Orderable T := by
  -- No two types are less than each other, and different ones are not both not.
  have hboth : ∀ {t t'}, t ∈ T.types → t' ∈ T.types → t.compareLess t' = true → ¬ t'.compareLess t = true :=
    fun ht ht' hlt => asymm_of T.typeLess (a := ⟨_, ht⟩) (b := ⟨_, ht'⟩) hlt
  have hneither : ∀ {t t'}, t ∈ T.types → t' ∈ T.types → ¬ t.compareLess t' = true → ¬ t'.compareLess t = true → t = t' :=
    fun ht ht' hge hle => congrArg Subtype.val (h.trichotomous ⟨_, ht⟩ ⟨_, ht'⟩ hge hle)
  have hlex : Lexicographic T := by
    refine ⟨fun s s' hs hs' hkey => ?_, fun r t q p r' t' as mods p' hq hp => ?_, fun r r' t t' q q' p p' ht ht' hlt => ?_⟩
    · refine OCLBasicType.scalar.inj (hneither hs hs' ?_ ?_)
      · exact fun hlt => lt_irrefl _ (hkey ▸ (scalar_compareLess_iff s s').1 hlt)
      · exact fun hlt => lt_irrefl _ (hkey ▸ (scalar_compareLess_iff s' s).1 hlt)
    · exact hboth hq hp rfl rfl
    · have hless : (OCLBasicType.qualified r t q p).compareLess (.qualified r' t' q' p') = true := by
        simp [OCLBasicType.compareLess, hlt]
      have hback := hboth ht ht' hless
      simp only [OCLBasicType.compareLess, Bool.or_eq_true, not_or] at hback
      by_contra hno
      simp only [not_or] at hno
      exact hno.1 (hneither (mem_component ht rfl) (mem_component ht' rfl) hno.2.2 hback.1)
  refine { scalars := hlex.scalars, vectors := ?_, opaques := ?_, qualified := ?_, pointers := ?_, apart := hlex.apart
           qualifiers := ?_ }
  · intro r r' base w ht ht'
    have heq := hneither ht ht' (by simp [OCLBasicType.compareLess, scalar_compareLess_iff])
      (by simp [OCLBasicType.compareLess, scalar_compareLess_iff])
    injection heq
  · intro r r' n p p' ht ht'
    have heq := hneither ht ht' (by simp [OCLBasicType.compareLess]) (by simp [OCLBasicType.compareLess])
    injection heq with hr _ hp
    exact ⟨hr, hp⟩
  · intro r r' t q p p' ht ht'
    have heq := hneither ht ht' (by simp [OCLBasicType.compareLess, compareLess_irrefl])
      (by simp [OCLBasicType.compareLess, compareLess_irrefl])
    injection heq with hr _ _ hp
    exact ⟨hr, hp⟩
  · intro r r' t as mods mods' p p' ht ht'
    have heq := hneither ht ht' (by simp [OCLBasicType.compareLess, compareLess_irrefl])
      (by simp [OCLBasicType.compareLess, compareLess_irrefl])
    injection heq with hr _ _ hmods hp
    exact ⟨hr, hmods, hp⟩
  · intro r r' t t' q q' p p' ht ht' hlt
    refine (hlex.qualifiers r r' t t' q q' p p' ht ht' hlt).imp id fun hless => hless.elim id fun hless => ?_
    exact (compareLess_iff hlex (mem_component ht rfl) (mem_component ht' rfl)).1 hless

theorem Orderable.lexicographic (h : Orderable T) : Lexicographic T where
  scalars := h.scalars
  apart := h.apart
  qualifiers r r' t t' q q' p p' ht ht' hlt := (h.qualifiers r r' t t' q q' p p' ht ht' hlt).imp id .inl

theorem Orderable.typeLess_iff (h : Orderable T) (t t' : T.types) : T.typeLess t t' ↔ precedes t.1 t'.1 :=
  compareLess_iff h.lexicographic t.2 t'.2

theorem Orderable.strictTotal (h : Orderable T) : IsStrictTotalOrder T.types T.typeLess where
  trichotomous t t' hge hle := by
    rw [h.typeLess_iff] at hge hle
    by_contra hne
    exact (precedes_total h t.2 t'.2 (mt Subtype.ext hne)).elim hge hle
  irrefl t hlt := precedes_irrefl t.1 ((h.typeLess_iff t t).1 hlt)
  trans t t' t'' hlt hlt' := by
    rw [h.typeLess_iff] at hlt hlt' ⊢
    exact precedes_trans hlt hlt'

theorem strictTotal_signs (h : IsStrictTotalOrder T.types T.typeLess) : IsStrictTotalOrder (List T.types) T.signLess := by
  have hsigns : T.signLess = List.Lex T.typeLess := funext fun s => funext fun s' => propext (signLess_iff s s')
  rw [hsigns]
  exact { isStrictWeakOrder_of_isOrderConnected with }

end Main

/-- When types and signatures are put in a strict order that tells them apart. -/
theorem ordered_iff (T : TypesTable) : T.Ordered ↔ Orderable T :=
  ⟨fun h => orderable_of_strictTotal h.types, fun h => ⟨h.strictTotal, strictTotal_signs h.strictTotal⟩⟩

/-- `read_only image2d_t` -/
def readImage2d : OCLBasicType := .qualified none (.opaqueType "ocl_image2d_t" "image2d_t" ∅) .readOnly ∅

/-- `write_only image1d_t` -/
def writeImage1d : OCLBasicType := .qualified none (.opaqueType "ocl_image1d_t" "image1d_t" ∅) .writeOnly ∅

/-- Two of the operands of `get_image_width`, with the images that they qualify. -/
def imageTypes : TypesTable where
  types := {readImage2d, writeImage1d, .opaqueType "ocl_image2d_t" "image2d_t" ∅, .opaqueType "ocl_image1d_t" "image1d_t" ∅}
  built := by
    rintro t (rfl | rfl | rfl | rfl) c hc
    · exact .inr (.inr (.inl (List.mem_singleton.1 hc)))
    · exact .inr (.inr (.inr (List.mem_singleton.1 hc)))
    · cases hc
    · cases hc

/-- The image that is read and the one that is written come before each other. -/
theorem imageTypes_not_ordered : ¬ imageTypes.Ordered := by
  intro h
  have hstrict := h.types
  have hforth : readImage2d.compareLess writeImage1d = true := by decide
  have hback : writeImage1d.compareLess readImage2d = true := by decide
  exact asymm_of imageTypes.typeLess (a := ⟨readImage2d, .inl rfl⟩) (b := ⟨writeImage1d, .inr (.inl rfl)⟩) hforth hback

end OpenCRun.SignatureOrder
