import OpenCRun.Lib.Comparison
import OpenCRun.Util.TypeGenerator
/-!
# Descriptors unfold to their types

What the accessors read from the descriptors that the generator wrote, for
any types and in any order: the types of the source, with two exceptions.
-/
open Lib Lib.Interning

namespace OpenCRun.OpenCLTypeSystem

variable {T D : Type}

/-! ## Reading a descriptor back -/

/-- The access that the type of an image has. -/
def SourceTypes.access (g : SourceTypes T D) (t : T) : ImageAccess :=
  match g.shape t with
  | .builtin k => (k.access.map convertImageAccess).getD .invalid
  | _ => .invalid

/-- Which type a reader asks whether a record is anonymous: as it is, or without its qualifiers. -/
inductive Asked where
  | asItIs | unqualified
  deriving DecidableEq, Repr

def Asked.type (c : Context) (md : Nat) : Asked → Option Nat
  | asItIs => some md
  | unqualified => getUnqualifiedType c md

section Reading
variable (asked : Asked) (g : SourceTypes T D) (c : Context)

/-- The qualifiers of a descriptor are those of the type. -/
def SameQuals (p : Nat × T) : Prop :=
  ∃ q, getQualifiers c p.1 = some q ∧ q.isConst = (g.quals p.2).hasConst ∧
    q.isVolatile = (g.quals p.2).hasVolatile ∧ q.isRestrict = (g.quals p.2).hasRestrict ∧
    q.getAddressSpace = some (convertAddressSpace (g.quals p.2).addressSpace) ∧
    q.getImageAccess = some (g.access p.2)

/-- What the body says of a record, but for the types of its fields. -/
structure SameBody (rd : RecordDecl T) (body : Nat) : Prop where
  size : RecordTypeBody.getSizeInBits c body = some rd.size
  alignment : RecordTypeBody.getAlignment c body = some rd.alignment
  packed : RecordTypeBody.getPacked c body = some rd.isPacked
  numFields : RecordTypeBody.getNumFields c body = some rd.fields.length
  field : ∀ i f, rd.fields[i]? = some f →
    (RecordTypeBody.getField c body i).isSome ∧ RecordTypeBody.getFieldOffset c body i = some f.2

/-- What a descriptor says of the type, but for its qualifiers and its parts. -/
def SameShape (p : Nat × T) : Prop :=
  match g.shape p.2 with
  | .builtin k =>
    match k.toClass with
    | .inl pc => getKind c p.1 = some .primitive ∧ getPrimitiveClass c p.1 = some pc
    | .inr ic => getKind c p.1 = some .image ∧ getImageClass c p.1 = some ic
  | .constantArray _ size =>
    getKind c p.1 = some .array ∧ (getElementType c p.1).isSome ∧
      ∃ n, getNumElements c p.1 = some n ∧ n.toNat = size.toNat
  | .pointer _ => getKind c p.1 = some .pointer ∧ (getElementType c p.1).isSome
  | .extVector _ n =>
    getKind c p.1 = some .vector ∧ (getElementType c p.1).isSome ∧ getNumElements c p.1 = some n
  | .record d =>
    getKind c p.1 = some (if (g.decl d).isUnion then .union else .struct) ∧
      (asked.type c p.1).bind (isRecordTypeAnonymous c) = some (g.decl d).isAnonymousStructOrUnion ∧
      ((g.decl d).isAnonymousStructOrUnion = false → getRecordTypeName c p.1 = some (g.decl d).name) ∧
      ∃ body, getRecordTypeBody c p.1 = some body ∧ SameBody c (g.decl d) body

/-- From a descriptor to that of a pointee, of an element or of a field. -/
def Part (p q : Nat × T) : Prop :=
  match g.shape p.2 with
  | .builtin _ => False
  | .constantArray elem _ | .pointer elem | .extVector elem _ => q.2 = elem ∧ getElementType c p.1 = some q.1
  | .record d => ∃ body i f, getRecordTypeBody c p.1 = some body ∧ (g.decl d).fields[i]? = some f ∧ q.2 = f.1 ∧
      RecordTypeBody.getField c body i = some q.1

end Reading

/-- The descriptor says what the type is, at every depth; references to a named record lead to its one node. -/
structure UnfoldsTo [DecidableEq D] (asked : Asked) (g : SourceTypes T D) (s : TypeGenerator D) (md : Nat) (t : T) :
    Prop where
  same : Comparison.Bisimilar (SameQuals g s.context) (SameShape asked g s.context) (Part g s.context) (md, t)
  finished : ∀ q, Relation.ReflTransGen (Part g s.context) (md, t) q → ∀ d, g.shape q.2 = .record d →
    (g.decl d).isAnonymousStructOrUnion = false → getUnqualifiedType s.context q.1 = s.rtCache.lookup d

/-! ## Which types fit -/

def SourceQualifiers.IsEmpty (q : SourceQualifiers) : Prop :=
  q.hasConst = false ∧ q.hasVolatile = false ∧ q.hasRestrict = false ∧ convertAddressSpace q.addressSpace = .asPrivate

/-- An image comes with the attribute of its access and nothing else does, unless the attribute is dropped.
The number of the elements of an array fits. Asked as it is, a record has no qualifiers. -/
def Fits (asked : Asked) (g : SourceTypes T D) (p : T × Option Access) : Prop :=
  match g.shape p.1 with
  | .builtin k => p.2 = k.access
  | .constantArray _ size => size.toNat < 2 ^ 32
  | .pointer _ => p.2 = none
  | .extVector _ _ => True
  | .record _ => p.2 = none ∧ (asked = .asItIs → (g.quals p.1).IsEmpty)

/-- From a type to one of its parts, which `get` asks for without an attribute. -/
def SourceTypes.Next (g : SourceTypes T D) (p q : T × Option Access) : Prop :=
  q.1 ∈ (g.shape p.1).parts g.decl ∧ q.2 = none

/-! ## What the accessors read -/

namespace TypeGenerator

section Reads
variable [DecidableEq D] {asked : Asked} {g : SourceTypes T D} {s : TypeGenerator D} {R : Descriptors T}
  {md raw body : Nat} {t u : T} {d : D} {cla : Option Access}

/-- The bits of the mask are apart. -/
theorem addTo_spec (q : SourceQualifiers) (cla : Option Access) :
    (addTo ⟨0⟩ q cla).isConst = q.hasConst ∧ (addTo ⟨0⟩ q cla).isVolatile = q.hasVolatile ∧
      (addTo ⟨0⟩ q cla).isRestrict = q.hasRestrict ∧
      (addTo ⟨0⟩ q cla).getAddressSpace = some (convertAddressSpace q.addressSpace) ∧
      (addTo ⟨0⟩ q cla).getImageAccess = some ((cla.map convertImageAccess).getD .invalid) := by
  obtain ⟨c, v, r, as⟩ := q
  cases c <;> cases v <;> cases r <;> cases as <;> rcases cla with _ | _ | _ <;> decide

theorem addTo_empty_iff (q : SourceQualifiers) : (addTo ⟨0⟩ q none).mask = 0 ↔ q.IsEmpty := by
  unfold SourceQualifiers.IsEmpty
  obtain ⟨c, v, r, as⟩ := q
  cases c <;> cases v <;> cases r <;> cases as <;> decide

theorem convert_access_inj {a b : Option Access}
    (h : (a.map convertImageAccess).getD .invalid = (b.map convertImageAccess).getD .invalid) : a = b := by
  rcases a with _ | _ | _ <;> rcases b with _ | _ | _ <;> first | rfl | cases h

/-- A written descriptor is a type, with the node and the qualifiers that were written. -/
theorem Written.read {opened : List D} (h : Written g s opened R md t cla) : ∃ raw, RawWritten g s opened R raw (g.shape t) ∧
    toType s.context md = some md ∧ getUnqualifiedType s.context md = some raw ∧
    getUnqualifiedType s.context raw = some raw ∧
    getQualifiers s.context md = some (addTo ⟨0⟩ (g.quals t) (keptAccess g cla t)) ∧
    (maskOf g cla t = 0 ∧ md = raw ∨
      maskOf g cla t ≠ 0 ∧ s.context[md]? = some ⟨qualMDs (maskOf g cla t) raw, true⟩) := by
  obtain ⟨raw, hraw, hmd⟩ := h
  obtain ⟨-, -, htype, hunqual, hquals⟩ := isRawType_spec hraw.isRaw
  rcases hmd with ⟨hmask, rfl⟩ | ⟨hmask, hnode⟩
  · refine ⟨md, hraw, htype, hunqual, hunqual, ?_, .inl ⟨hmask, rfl⟩⟩
    rw [hquals]
    exact congrArg (fun mask => some (Qualifiers.mk mask)) hmask.symm
  · obtain ⟨htype', hunqual', hquals'⟩ := isQualType_spec (getInt_node hnode rfl) (getInt_node hnode rfl)
      (getNode_node hnode rfl) hraw.isRaw
    exact ⟨raw, hraw, htype', hunqual', hunqual, hquals', .inr ⟨hmask, hnode⟩⟩

/-- The qualifiers are those of the type when the attribute is right. -/
theorem sameQuals_iff (h : Written g s [] R md t cla) : SameQuals g s.context (md, t) ↔
    ((keptAccess g cla t).map convertImageAccess).getD .invalid = g.access t := by
  obtain ⟨raw, -, -, -, -, hquals, -⟩ := h.read
  obtain ⟨hc, hv, hr, has, hia⟩ := addTo_spec (g.quals t) (keptAccess g cla t)
  constructor
  · rintro ⟨q, hq, -, -, -, -, haccess⟩
    obtain rfl : addTo ⟨0⟩ (g.quals t) (keptAccess g cla t) = q := Option.some.inj (hquals.symm.trans hq)
    exact Option.some.inj (hia.symm.trans haccess)
  · intro haccess
    exact ⟨_, hquals, hc, hv, hr, has, by rw [hia, haccess]⟩

/-- A record that is not opened has its body. -/
theorem RecordWritten.closed (h : RecordWritten g s [] R d raw) : ∃ body isUniqued,
    s.context[raw]? = some ⟨recordMDs (g.decl d).name (g.decl d).isUnion (g.decl d).isAnonymousStructOrUnion
      (.node body), isUniqued⟩ ∧ BodyWritten R s.context (g.decl d) body := by
  unfold RecordWritten at h
  split at h
  · next hanon =>
    obtain ⟨body, hnode, hbody⟩ := h
    exact ⟨body, true, by rw [hnode, hanon], hbody⟩
  · next hanon =>
    obtain ⟨-, x, hnode, hclosed⟩ := h
    obtain ⟨body, rfl, hbody⟩ := hclosed List.not_mem_nil
    exact ⟨body, false, by rw [hnode, Bool.eq_false_iff.2 hanon], hbody⟩

omit [DecidableEq D] in
theorem fieldMDs_spec {mds : List Nat} {fields : List (T × UInt64)}
    (hall : List.Forall₂ (fun md f => R md f.1 none) mds fields) :
    (fieldMDs mds fields).length = 2 * fields.length ∧ ∀ i f, fields[i]? = some f →
      ∃ md, R md f.1 none ∧ (fieldMDs mds fields)[i * 2]? = some (.node md) ∧
        (fieldMDs mds fields)[i * 2 + 1]? = some (getIntegerMD 64 f.2) := by
  induction hall with
  | nil => exact ⟨rfl, fun i f hf => absurd hf (by simp)⟩
  | @cons md f mds fields hmem hall ih =>
    refine ⟨by rw [fieldMDs, List.length_cons, List.length_cons, ih.1, List.length_cons]; omega, fun i f' hf' => ?_⟩
    cases i with
    | zero =>
      obtain rfl : f = f' := Option.some.inj hf'
      exact ⟨md, hmem, rfl, rfl⟩
    | succ i =>
      obtain ⟨md', hmem', hnode, hoff⟩ := ih.2 i f' hf'
      refine ⟨md', hmem', ?_, ?_⟩
      · rw [Nat.add_one_mul]
        exact hnode
      · rw [Nat.add_one_mul]
        exact hoff

/-- The body says what the record is; its fields are descriptors of their types. -/
theorem body_spec (h : Inv g s [] R) {rd : RecordDecl T} (hbody : BodyWritten R s.context rd body) :
    RecordTypeBody.isRecordBody s.context body = some true ∧ SameBody s.context rd body ∧
      ∀ i f, rd.fields[i]? = some f → ∃ md, R md f.1 none ∧ RecordTypeBody.getField s.context body i = some md := by
  obtain ⟨mds, hnode, hall⟩ := hbody
  obtain ⟨hlength, hfields⟩ := fieldMDs_spec hall
  have hnum : RecordTypeBody.getNumFields s.context body = some rd.fields.length := by
    simp only [RecordTypeBody.getNumFields, hnode, Option.bind_eq_bind, Option.bind_some, List.length_append, hlength]
    simp [bodyHeader]
  have hfield : ∀ i f, rd.fields[i]? = some f → ∃ md, R md f.1 none ∧
      RecordTypeBody.getField s.context body i = some md ∧
      RecordTypeBody.getFieldOffset s.context body i = some f.2 := by
    intro i f hf
    obtain ⟨md, hmem, hmd, hoff⟩ := hfields i f hf
    have hlt : i < rd.fields.length := (List.getElem?_eq_some_iff.1 hf).1
    obtain ⟨-, -, htype, -⟩ := (h.written _ _ _ hmem).read
    refine ⟨md, hmem, ?_, ?_⟩
    · have hget : getNode s.context body (i * 2 + 4) = some md := getNode_node hnode (by
        rw [← hmd, show i * 2 + 4 = (bodyHeader rd).length + i * 2 by simp [bodyHeader]; omega]
        exact List.getElem?_append_right (by omega) |>.trans (by simp))
      simp [RecordTypeBody.getField, hnum, hlt, hget, htype]
    · have hget : getInt s.context body (i * 2 + 5) = some f.2 := getInt_node hnode (by
        rw [← hoff, show i * 2 + 5 = (bodyHeader rd).length + (i * 2 + 1) by simp [bodyHeader]; omega]
        exact List.getElem?_append_right (by omega) |>.trans (by simp))
      simp [RecordTypeBody.getFieldOffset, hnum, hlt, hget]
  refine ⟨?_, ⟨getInt_node hnode rfl, getInt_node hnode rfl, ?_, hnum, fun i f hf => ?_⟩, fun i f hf => ?_⟩
  · rw [RecordTypeBody.isRecordBody, getInt_node (k := 0) hnode rfl]
    decide
  · rw [RecordTypeBody.getPacked, getInt_node (k := 3) hnode rfl]
    cases rd.isPacked <;> decide
  · obtain ⟨md, -, hmd, hoff⟩ := hfield i f hf
    exact ⟨by rw [hmd]; rfl, hoff⟩
  · obtain ⟨md, hmem, hmd, -⟩ := hfield i f hf
    exact ⟨md, hmem, hmd⟩

section Nodes
variable {c : Context} {k : Kind}

omit [DecidableEq D] in
theorem getKind_spec (hmd : getUnqualifiedType c md = some raw) (hk : getInt c raw 1 = some k.toUInt64) :
    getKind c md = some k := by
  simp [getKind, hmd, hk]

theorem getElementType_spec {elem : Nat} (hmd : getUnqualifiedType c md = some raw)
    (hraw : getUnqualifiedType c raw = some raw) (hk : getInt c raw 1 = some k.toUInt64)
    (hkind : k ∈ [.array, .vector, .pointer]) (hnode : getNode c raw 2 = some elem) :
    getElementType c md = toType c elem := by
  simp [-List.mem_cons, getElementType, hmd, getKind_spec hraw hk, hnode, hkind]

theorem getNumElements_spec {n : UInt32} (hmd : getUnqualifiedType c md = some raw)
    (hraw : getUnqualifiedType c raw = some raw) (hk : getInt c raw 1 = some k.toUInt64)
    (hkind : k ∈ [.array, .vector]) (hn : getInt c raw 3 = some n.toUInt64) : getNumElements c md = some n := by
  simp [-List.mem_cons, getNumElements, hmd, getKind_spec hraw hk, hn, hkind]

theorem getRecordTypeBody_spec (hmd : getUnqualifiedType c md = some raw)
    (hraw : getUnqualifiedType c raw = some raw) (hk : getInt c raw 1 = some k.toUInt64)
    (hkind : k ∈ [.struct, .union]) (hnode : getNode c raw 4 = some body)
    (hbody : RecordTypeBody.isRecordBody c body = some true) : getRecordTypeBody c md = some body := by
  simp [-List.mem_cons, getRecordTypeBody, hmd, getKind_spec hraw hk, hnode, hkind, hbody]

theorem getRecordTypeName_spec {name : String} (hmd : getUnqualifiedType c md = some raw)
    (hraw : getUnqualifiedType c raw = some raw) (hk : getInt c raw 1 = some k.toUInt64)
    (hkind : k ∈ [.struct, .union]) (hanon : isRecordTypeAnonymous c raw = some false)
    (hname : getString c raw 2 = some name) : getRecordTypeName c md = some name := by
  simp [-List.mem_cons, getRecordTypeName, hmd, getKind_spec hraw hk, hanon, hname, hkind]

end Nodes

/-- What is read of a builtin type. -/
theorem sameShape_builtin {k : BuiltinKind} (h : Written g s [] R md t cla) (hshape : g.shape t = .builtin k) :
    SameShape asked g s.context (md, t) := by
  obtain ⟨raw, hraw, -, hmd, hself, -⟩ := h.read
  rw [hshape] at hraw
  simp only [SameShape, hshape]
  cases hk : k.toClass with
  | inl pc =>
    have hnode : s.context[raw]? = some ⟨primitiveMDs pc, true⟩ := by simpa only [RawWritten, builtinMDs, hk] using hraw
    have hkind := getInt_node (k := 1) hnode rfl
    exact ⟨getKind_spec hmd hkind, by simp [getPrimitiveClass, hmd, getKind_spec hself hkind, getInt_node (k := 2) hnode rfl]⟩
  | inr ic =>
    have hnode : s.context[raw]? = some ⟨imageMDs ic, true⟩ := by simpa only [RawWritten, builtinMDs, hk] using hraw
    have hkind := getInt_node (k := 1) hnode rfl
    exact ⟨getKind_spec hmd hkind, by simp [getImageClass, hmd, getKind_spec hself hkind, getInt_node (k := 2) hnode rfl]⟩

theorem recordKind_mem (isUnion : Bool) : recordKind isUnion ∈ [Kind.struct, Kind.union] := by
  cases isUnion <;> decide

/-- The body that is read of a record. -/
theorem record_body_spec (h : Inv g s [] R) (hmem : R md t cla) (hshape : g.shape t = .record d) :
    ∃ body, getRecordTypeBody s.context md = some body ∧ SameBody s.context (g.decl d) body ∧
      ∀ i f, (g.decl d).fields[i]? = some f →
        ∃ m, R m f.1 none ∧ RecordTypeBody.getField s.context body i = some m := by
  obtain ⟨raw, hraw, -, hmd, hself, -⟩ := (h.written _ _ _ hmem).read
  rw [hshape] at hraw
  obtain ⟨body, isUniqued, hnode, hbody⟩ := RecordWritten.closed hraw
  obtain ⟨hisBody, hsame, hfields⟩ := body_spec h hbody
  exact ⟨body, getRecordTypeBody_spec hmd hself (getInt_node hnode rfl) (recordKind_mem _) (getNode_node hnode rfl)
    hisBody, hsame, hfields⟩

/-- What is read of a record, if a reader may ask whether it is anonymous. -/
theorem sameShape_record_iff (h : Inv g s [] R) (hmem : R md t cla) (hshape : g.shape t = .record d) :
    SameShape asked g s.context (md, t) ↔ (asked = .asItIs → maskOf g cla t = 0) := by
  obtain ⟨body, hgetBody, hsame, -⟩ := record_body_spec h hmem hshape
  obtain ⟨raw, hraw, -, hmd, hself, -, hmask⟩ := (h.written _ _ _ hmem).read
  rw [hshape] at hraw
  obtain ⟨_, isUniqued, hnode, -⟩ := RecordWritten.closed hraw
  have hkind := getInt_node (k := 1) hnode rfl
  have hanon : isRecordTypeAnonymous s.context raw = some (g.decl d).isAnonymousStructOrUnion := by
    rw [isRecordTypeAnonymous, getInt_node (k := 3) hnode rfl]
    cases (g.decl d).isAnonymousStructOrUnion <;> decide
  have hname : (g.decl d).isAnonymousStructOrUnion = false →
      getRecordTypeName s.context md = some (g.decl d).name := fun hno =>
    getRecordTypeName_spec hmd hself hkind (recordKind_mem _) (by rw [hanon, hno]) (getString_node hnode rfl)
  have hiff : SameShape asked g s.context (md, t) ↔
      (asked.type s.context md).bind (isRecordTypeAnonymous s.context) = some (g.decl d).isAnonymousStructOrUnion := by
    simp only [SameShape, hshape]
    exact ⟨fun h => h.2.1, fun h => ⟨getKind_spec hmd hkind, h, hname, body, hgetBody, hsame⟩⟩
  rw [hiff]
  cases asked with
  | unqualified => simp [Asked.type, hmd, hanon]
  | asItIs =>
    simp only [Asked.type, Option.bind_some, forall_const]
    rcases hmask with ⟨hzero, rfl⟩ | ⟨hne, hqual⟩
    · exact iff_of_true hanon hzero
    · refine iff_of_false (fun hread => ?_) hne
      -- The node of the qualifiers has three operands.
      have hnone : getInt s.context md 3 = none := by rw [getInt, getOperand_node hqual]; rfl
      rw [isRecordTypeAnonymous, hnone] at hread
      cases hread

/-- What is read of a pointee or of an element. -/
theorem elementType_spec {ops : List Metadata} {k : Kind} {elem : Nat} (h : Inv g s [] R)
    (hmd : getUnqualifiedType s.context md = some raw) (hself : getUnqualifiedType s.context raw = some raw)
    (hnode : s.context[raw]? = some ⟨ops, true⟩) (hkind : ops[1]? = some (getIntegerMD 64 k.toUInt64))
    (hk : k ∈ [Kind.array, .vector, .pointer]) (helem : ops[2]? = some (.node elem)) (hmem : R elem u none) :
    getKind s.context md = some k ∧ getElementType s.context md = some elem := by
  have hint := getInt_node hnode hkind
  obtain ⟨-, -, htype, -⟩ := (h.written _ _ _ hmem).read
  exact ⟨getKind_spec hmd hint, (getElementType_spec hmd hself hint hk (getNode_node hnode helem)).trans htype⟩

theorem numElements_iff (size : UInt64) :
    (∃ n, some size.toUInt32 = some n ∧ n.toNat = size.toNat) ↔ size.toNat < 2 ^ 32 := by
  simp only [Option.some.injEq, exists_eq_left', UInt64.toNat_toUInt32]
  omega

/-- A descriptor is like its type, but for the parts, exactly when the type fits. -/
theorem same_iff (h : Inv g s [] R) (hmem : R md t cla) :
    SameQuals g s.context (md, t) ∧ SameShape asked g s.context (md, t) ↔ Fits asked g (t, cla) := by
  have hwritten := h.written _ _ _ hmem
  rw [sameQuals_iff hwritten]
  cases hshape : g.shape t with
  | builtin k =>
    have hsame : SameShape asked g s.context (md, t) := sameShape_builtin hwritten hshape
    simp only [keptAccess, SourceTypes.access, Fits, hshape, hsame, and_true]
    exact ⟨convert_access_inj, fun hcla => by rw [hcla]⟩
  | constantArray elem size =>
    obtain ⟨raw, hraw, -, hmd, hself, -⟩ := hwritten.read
    rw [hshape] at hraw
    obtain ⟨m, hnode, hm⟩ := hraw
    obtain ⟨hkind, helem⟩ := elementType_spec (k := .array) h hmd hself hnode rfl (by decide) rfl hm
    have hnum := getNumElements_spec (k := .array) hmd hself (getInt_node hnode rfl) (by decide)
      (getInt_node hnode rfl)
    simp only [keptAccess, SourceTypes.access, SameShape, Fits, hshape, hkind, helem, hnum, numElements_iff]
    simp
  | pointer pointee =>
    obtain ⟨raw, hraw, -, hmd, hself, -⟩ := hwritten.read
    rw [hshape] at hraw
    obtain ⟨m, hnode, hm⟩ := hraw
    obtain ⟨hkind, helem⟩ := elementType_spec (k := .pointer) h hmd hself hnode rfl (by decide) rfl hm
    simp only [keptAccess, SourceTypes.access, SameShape, Fits, hshape, hkind, helem, Option.isSome_some, and_self,
      and_true]
    exact ⟨fun haccess => convert_access_inj (b := none) haccess, fun hcla => by rw [hcla]; rfl⟩
  | extVector elem n =>
    obtain ⟨raw, hraw, -, hmd, hself, -⟩ := hwritten.read
    rw [hshape] at hraw
    obtain ⟨m, hnode, hm⟩ := hraw
    obtain ⟨hkind, helem⟩ := elementType_spec (k := .vector) h hmd hself hnode rfl (by decide) rfl hm
    have hnum := getNumElements_spec (k := .vector) hmd hself (getInt_node hnode rfl) (by decide)
      (getInt_node hnode rfl)
    simp [keptAccess, SourceTypes.access, SameShape, Fits, hshape, hkind, helem, hnum]
  | record d =>
    rw [sameShape_record_iff h hmem hshape]
    simp only [keptAccess, SourceTypes.access, Fits, hshape]
    constructor
    · rintro ⟨haccess, hzero⟩
      have hcla : cla = none := convert_access_inj (b := none) haccess
      refine ⟨hcla, fun hasked => (addTo_empty_iff _).1 ?_⟩
      simpa [maskOf, keptAccess, hshape, hcla] using hzero hasked
    · rintro ⟨hcla, hempty⟩
      refine ⟨by rw [hcla]; rfl, fun hasked => ?_⟩
      simpa [maskOf, keptAccess, hshape, hcla] using (addTo_empty_iff _).2 (hempty hasked)

theorem element_spec {elem : T} (h : Inv g s [] R) (hmem : R md t cla)
    (hshape : (∃ size, g.shape t = .constantArray elem size) ∨ g.shape t = .pointer elem ∨
      ∃ n, g.shape t = .extVector elem n) : ∃ m, getElementType s.context md = some m ∧ R m elem none := by
  obtain ⟨raw, hraw, -, hmd, hself, -⟩ := (h.written _ _ _ hmem).read
  rcases hshape with ⟨size, hshape⟩ | hshape | ⟨n, hshape⟩
  all_goals
    rw [hshape] at hraw
    obtain ⟨m, hnode, hm⟩ := hraw
  · exact ⟨m, (elementType_spec (k := .array) h hmd hself hnode rfl (by decide) rfl hm).2, hm⟩
  · exact ⟨m, (elementType_spec (k := .pointer) h hmd hself hnode rfl (by decide) rfl hm).2, hm⟩
  · exact ⟨m, (elementType_spec (k := .vector) h hmd hself hnode rfl (by decide) rfl hm).2, hm⟩

/-- The parts that are read are descriptors of the parts of the type. -/
theorem part_spec {q : Nat × T} (h : Inv g s [] R) (hmem : R md t cla) (hpart : Part g s.context (md, t) q) :
    R q.1 q.2 none ∧ g.Next (t, cla) (q.2, none) := by
  have helement : ∀ elem, (g.shape t).parts g.decl = [elem] →
      ((∃ size, g.shape t = .constantArray elem size) ∨ g.shape t = .pointer elem ∨ ∃ n, g.shape t = .extVector elem n) →
      q.2 = elem → getElementType s.context md = some q.1 → R q.1 q.2 none ∧ g.Next (t, cla) (q.2, none) := by
    rintro elem hparts hshape rfl hread
    obtain ⟨m, hm, hR⟩ := element_spec h hmem hshape
    obtain rfl : m = q.1 := Option.some.inj (hm.symm.trans hread)
    exact ⟨hR, by rw [hparts]; exact List.mem_singleton_self _, rfl⟩
  unfold Part at hpart
  cases hshape : g.shape t with
  | builtin k =>
    rw [hshape] at hpart
    exact hpart.elim
  | constantArray elem size =>
    rw [hshape] at hpart
    exact helement elem (by rw [hshape]; rfl) (.inl ⟨size, hshape⟩) hpart.1 hpart.2
  | pointer pointee =>
    rw [hshape] at hpart
    exact helement pointee (by rw [hshape]; rfl) (.inr (.inl hshape)) hpart.1 hpart.2
  | extVector elem n =>
    rw [hshape] at hpart
    exact helement elem (by rw [hshape]; rfl) (.inr (.inr ⟨n, hshape⟩)) hpart.1 hpart.2
  | record d =>
    rw [hshape] at hpart
    obtain ⟨body, i, f, hbody, hf, hq, hread⟩ := hpart
    obtain ⟨body', hbody', -, hfields⟩ := record_body_spec h hmem hshape
    obtain rfl : body' = body := Option.some.inj (hbody'.symm.trans hbody)
    obtain ⟨m, hR, hm⟩ := hfields i f hf
    obtain rfl : m = q.1 := Option.some.inj (hm.symm.trans hread)
    refine ⟨by rw [hq]; exact hR, ?_, rfl⟩
    rw [hshape, hq]
    exact List.mem_map.2 ⟨f, List.mem_of_getElem? hf, rfl⟩

/-- Every part of the type is read. -/
theorem exists_part (h : Inv g s [] R) (hmem : R md t cla) {q : T × Option Access} (hnext : g.Next (t, cla) q) :
    ∃ m, Part g s.context (md, t) (m, q.1) ∧ R m q.1 q.2 := by
  obtain ⟨u, cla'⟩ := q
  obtain ⟨hu, rfl⟩ := hnext
  have helement : ∀ elem, (g.shape t).parts g.decl = [elem] →
      ((∃ size, g.shape t = .constantArray elem size) ∨ g.shape t = .pointer elem ∨ ∃ n, g.shape t = .extVector elem n) →
      u = elem ∧ ∃ m, getElementType s.context md = some m ∧ R m u none := by
    intro elem hparts hshape
    obtain rfl : u = elem := List.mem_singleton.1 (hparts ▸ hu)
    exact ⟨rfl, element_spec h hmem hshape⟩
  unfold Part
  cases hshape : g.shape t with
  | builtin k =>
    rw [hshape] at hu
    cases hu
  | constantArray elem size =>
    obtain ⟨heq, m, hm, hR⟩ := helement elem (by rw [hshape]; rfl) (.inl ⟨size, hshape⟩)
    exact ⟨m, ⟨heq, hm⟩, hR⟩
  | pointer pointee =>
    obtain ⟨heq, m, hm, hR⟩ := helement pointee (by rw [hshape]; rfl) (.inr (.inl hshape))
    exact ⟨m, ⟨heq, hm⟩, hR⟩
  | extVector elem n =>
    obtain ⟨heq, m, hm, hR⟩ := helement elem (by rw [hshape]; rfl) (.inr (.inr ⟨n, hshape⟩))
    exact ⟨m, ⟨heq, hm⟩, hR⟩
  | record d =>
    obtain ⟨body, hbody, -, hfields⟩ := record_body_spec h hmem hshape
    rw [hshape] at hu
    obtain ⟨f, hf, rfl⟩ := List.mem_map.1 hu
    obtain ⟨i, hi⟩ := List.mem_iff_getElem?.1 hf
    obtain ⟨m, hR, hm⟩ := hfields i f hi
    exact ⟨m, ⟨body, i, f, hbody, hi, rfl, hm⟩, hR⟩

/-! ## The round trip -/

/-- A descriptor unfolds to its type exactly when all types that are met fit. -/
theorem unfoldsTo_iff (h : Inv g s [] R) (hmem : R md t cla) :
    UnfoldsTo asked g s md t ↔ ∀ q, Relation.ReflTransGen g.Next (t, cla) q → Fits asked g q := by
  constructor
  · intro hunfolds q hpath
    have hwalk : ∃ m, Relation.ReflTransGen (Part g s.context) (md, t) (m, q.1) ∧ R m q.1 q.2 := by
      induction hpath with
      | refl => exact ⟨md, .refl, hmem⟩
      | tail _ hnext ih =>
        obtain ⟨m, hreach, hR⟩ := ih
        obtain ⟨m', hpart, hR'⟩ := exists_part h hR hnext
        exact ⟨m', hreach.tail hpart, hR'⟩
    obtain ⟨m, hreach, hR⟩ := hwalk
    exact (same_iff h hR).1 (hunfolds.same _ hreach)
  · intro hfits
    have hback : ∀ p, Relation.ReflTransGen (Part g s.context) (md, t) p →
        ∃ cla', R p.1 p.2 cla' ∧ Relation.ReflTransGen g.Next (t, cla) (p.2, cla') := by
      intro p hpath
      induction hpath with
      | refl => exact ⟨cla, hmem, .refl⟩
      | tail _ hpart ih =>
        obtain ⟨cla', hR, hreach⟩ := ih
        obtain ⟨hR', hnext⟩ := part_spec h hR hpart
        exact ⟨none, hR', hreach.tail hnext⟩
    refine ⟨fun p hpath => ?_, fun p hpath d hshape hnamed => ?_⟩
    · obtain ⟨cla', hR, hreach⟩ := hback p hpath
      exact (same_iff h hR).2 (hfits _ hreach)
    · obtain ⟨cla', hR, -⟩ := hback p hpath
      obtain ⟨raw, hraw, -, hmd, -⟩ := (h.written _ _ _ hR).read
      rw [hshape] at hraw
      have hrecord : RecordWritten g s [] R d raw := hraw
      rw [RecordWritten, if_neg (Bool.eq_false_iff.1 hnamed)] at hrecord
      rw [hmd, hrecord.1]

/-- Whatever is in the context and in whatever order types are asked for, each gets a descriptor, and in the
end the descriptor unfolds to the type exactly when the types that are met fit. -/
theorem getAll_unfolds_iff [Fintype D] (g : SourceTypes T D) (context : Context) (reqs : List (T × Option Access)) :
    ∃ mds s, getAll g reqs { context, rtCache := [] } = some (mds, s) ∧
      List.Forall₂ (fun md req => ∀ asked, UnfoldsTo asked g s md req.1 ↔
        ∀ q, Relation.ReflTransGen g.Next req q → Fits asked g q) mds reqs := by
  obtain ⟨mds, s, R, hget, hgrown, hall⟩ := getAll_spec g reqs (inv_init g context)
  exact ⟨mds, s, hget, hall.imp fun md req hmem asked => unfoldsTo_iff hgrown.inv hmem⟩

/-- The types of the parameters `global char (*p)[4294967296], global struct S *q` with `struct S { char c; }`. -/
inductive ArgType where
  | char | globalChar | array | arrayPointer | record | recordPointer

def argTypes : SourceTypes ArgType Unit where
  quals
    | .globalChar | .array | .record => { addressSpace := .openclGlobal }
    | _ => {}
  shape
    | .char | .globalChar => .builtin .charS
    | .array => .constantArray .globalChar 4294967296
    | .arrayPointer => .pointer .array
    | .record => .record ()
    | .recordPointer => .pointer .record
  decl _ := {
    isUnion := false, isAnonymousStructOrUnion := false, name := "S", isPacked := false, size := 8, alignment := 8,
    fields := [(.char, 0)] }
  vector_elem t elem n h := by cases t <;> cases h
  depth
    | .char | .globalChar | .record => 0
    | .array | .recordPointer => 1
    | .arrayPointer => 2
  depth_part t h u hu := by
    cases t with
    | record => exact absurd (h () rfl) Bool.false_ne_true
    | char | globalChar => cases hu
    | array | arrayPointer | recordPointer =>
      cases List.mem_singleton.1 hu
      decide

/-- The array has no elements when it is read back, and nobody may ask the qualified record whether it is anonymous. -/
theorem argTypes_do_not_unfold : ∃ p q s,
    getAll argTypes [(.arrayPointer, none), (.recordPointer, none)] { context := [], rtCache := [] } = some ([p, q], s) ∧
      (∀ asked, ¬ UnfoldsTo asked argTypes s p .arrayPointer) ∧ ¬ UnfoldsTo .asItIs argTypes s q .recordPointer := by
  obtain ⟨mds, s, R, hget, hgrown, hall⟩ :=
    getAll_spec argTypes [(.arrayPointer, none), (.recordPointer, none)] (inv_init _ _)
  cases hall with
  | @cons p _ mds _ hp hall =>
  cases hall with
  | @cons q _ mds _ hq hall =>
  cases hall
  refine ⟨p, q, s, hget, fun asked hunfolds => ?_, fun hunfolds => ?_⟩
  · have hfits := (unfoldsTo_iff hgrown.inv hp).1 hunfolds (.array, none) (.single ⟨List.mem_singleton_self _, rfl⟩)
    exact absurd hfits (by decide : ¬ (4294967296 : UInt64).toNat < 2 ^ 32)
  · have hfits := (unfoldsTo_iff hgrown.inv hq).1 hunfolds (.record, none) (.single ⟨List.mem_singleton_self _, rfl⟩)
    exact absurd (hfits.2 rfl).2.2.2 (by decide)

end Reads

end TypeGenerator

end OpenCRun.OpenCLTypeSystem
