import Mathlib.Data.Finset.Lattice.Fold
import Mathlib.Order.Lattice.Nat
import OpenCRun.Util.TypeDescriptor
/-!
# Generating type descriptors

`TypeGenerator::get` writes the descriptor of a type of the source. A named
record can refer to itself, so its node is there, and cached, before its body.
-/
open Lib Lib.Interning

namespace OpenCRun.OpenCLTypeSystem

/-! ## Types of the source -/

/-- `clang::LangAS`, as far as it is supported. -/
inductive LangAS where
  | default | openclPrivate | openclGlobal | openclConstant | openclLocal
  deriving DecidableEq, Repr

/-- `clang::Qualifiers` -/
structure SourceQualifiers where
  hasConst : Bool := false
  hasVolatile : Bool := false
  hasRestrict : Bool := false
  addressSpace : LangAS := .default
  deriving DecidableEq, Repr

/-- The access of an image, in its type and in an attribute. -/
inductive Access where
  | readOnly | writeOnly
  deriving DecidableEq, Repr

/-- `clang::BuiltinType::Kind` -/
inductive BuiltinKind where
  | bool | charS | charU | sChar | short | int | long | uChar | uShort | uInt | uLong
  | half | float | double | oclEvent
  | oclImage1d (access : Access) | oclImage1dArray (access : Access) | oclImage1dBuffer (access : Access)
  | oclImage2d (access : Access) | oclImage2dArray (access : Access) | oclImage3d (access : Access)
  | oclSampler
  deriving DecidableEq, Repr

/-- The access that is part of the type. -/
def BuiltinKind.access : BuiltinKind → Option Access
  | oclImage1d a | oclImage1dArray a | oclImage1dBuffer a | oclImage2d a | oclImage2dArray a | oclImage3d a => some a
  | _ => none

inductive Shape (T D : Type) where
  | builtin (k : BuiltinKind)
  | constantArray (elem : T) (size : UInt64)
  | pointer (pointee : T)
  | extVector (elem : T) (numElements : UInt32)
  | record (decl : D)
  deriving DecidableEq, Repr

/-- `clang::RecordDecl`, with its layout in bits: the fields with their offsets. -/
structure RecordDecl (T : Type) where
  isUnion : Bool
  isAnonymousStructOrUnion : Bool
  name : String
  isPacked : Bool
  size : UInt64
  alignment : UInt64
  fields : List (T × UInt64)

variable {T D : Type}

def Shape.parts (decl : D → RecordDecl T) : Shape T D → List T
  | builtin _ => []
  | constantArray elem _ | extVector elem _ => [elem]
  | pointer pointee => [pointee]
  | record d => (decl d).fields.map Prod.fst

/-- The types of a translation unit. Only a named record can be a part of its parts. -/
structure SourceTypes (T D : Type) where
  quals : T → SourceQualifiers
  shape : T → Shape T D
  decl : D → RecordDecl T
  vector_elem : ∀ t elem n, shape t = .extVector elem n → quals elem = {} ∧
    ∃ k, shape elem = .builtin k ∧ k.access = none ∧ k ≠ .oclSampler
  /-- How deep a type is, down to its named records. -/
  depth : T → Nat
  depth_part : ∀ t, (∀ d, shape t = .record d → (decl d).isAnonymousStructOrUnion = true) →
    ∀ u ∈ (shape t).parts decl, depth u < depth t

/-! ## The generator -/

/-- Which descriptor `get` returns for a builtin type. -/
def BuiltinKind.toClass : BuiltinKind → PrimitiveClass ⊕ ImageClass
  | bool => .inl .bool
  | charS | charU | sChar => .inl .char
  | short => .inl .short
  | int => .inl .int
  | long => .inl .long
  | uChar => .inl .uChar
  | uShort => .inl .uShort
  | uInt => .inl .uInt
  | uLong => .inl .uLong
  | half => .inl .half
  | float => .inl .float
  | double => .inl .double
  | oclEvent => .inl .event
  | oclImage1d _ => .inr .image1d
  | oclImage1dArray _ => .inr .image1dArray
  | oclImage1dBuffer _ => .inr .image1dBuffer
  | oclImage2d _ => .inr .image2d
  | oclImage2dArray _ => .inr .image2dArray
  | oclImage3d _ => .inr .image3d
  | oclSampler => .inr .sampler

def convertAddressSpace : LangAS → AddressSpace
  | .default | .openclPrivate => .asPrivate
  | .openclGlobal => .asGlobal
  | .openclConstant => .asConstant
  | .openclLocal => .asLocal

def convertImageAccess : Access → ImageAccess
  | .readOnly => .readOnly
  | .writeOnly => .writeOnly

structure TypeGenerator (D : Type) where
  context : Context
  rtCache : List (D × Nat)

namespace TypeGenerator

/-- `MDNode::get` -/
def getMDNode (s : TypeGenerator D) (mds : List Metadata) : Nat × TypeGenerator D :=
  ((s.context.get mds).1, { s with context := (s.context.get mds).2 })

def primitiveMDs (c : PrimitiveClass) : List Metadata :=
  [getIntegerMD 64 idType, getIntegerMD 64 Kind.primitive.toUInt64, getIntegerMD 64 c.toUInt64]

def imageMDs (c : ImageClass) : List Metadata :=
  [getIntegerMD 64 idType, getIntegerMD 64 Kind.image.toUInt64, getIntegerMD 64 c.toUInt64]

def vectorMDs (elem : Nat) (numElems : UInt32) : List Metadata :=
  [getIntegerMD 64 idType, getIntegerMD 64 Kind.vector.toUInt64, .node elem, getIntegerMD 64 numElems.toUInt64]

def arrayMDs (elem : Nat) (numElems : UInt32) : List Metadata :=
  [getIntegerMD 64 idType, getIntegerMD 64 Kind.array.toUInt64, .node elem, getIntegerMD 64 numElems.toUInt64]

def pointerMDs (pointee : Nat) : List Metadata :=
  [getIntegerMD 64 idType, getIntegerMD 64 Kind.pointer.toUInt64, .node pointee]

def recordKind (isUnion : Bool) : Kind := if isUnion then .union else .struct

def recordMDs (name : String) (isUnion isAnonymous : Bool) (body : Metadata) : List Metadata :=
  [getIntegerMD 64 idType, getIntegerMD 64 (recordKind isUnion).toUInt64, .value (.string name),
    getIntegerMD 1 isAnonymous.toUInt64, body]

def qualMDs (mask : UInt32) (ty : Nat) : List Metadata :=
  [getIntegerMD 64 idQualType, getIntegerMD 32 mask.toUInt64, .node ty]

def placeholder : Metadata := getIntegerMD 64 (-1)

def getPrimitiveType (s : TypeGenerator D) (c : PrimitiveClass) : Nat × TypeGenerator D := s.getMDNode (primitiveMDs c)

def getImageType (s : TypeGenerator D) (c : ImageClass) : Nat × TypeGenerator D := s.getMDNode (imageMDs c)

/-- The assertion is that the element is a primitive type without qualifiers. -/
def getVectorType (s : TypeGenerator D) (elem : Nat) (numElems : UInt32) : Option (Nat × TypeGenerator D) := do
  guard ((← getKind s.context elem) = .primitive)
  guard (!(← isQualType s.context elem))
  some (s.getMDNode (vectorMDs elem numElems))

/-- Refers to itself until it gets its body. -/
def getRecordType (s : TypeGenerator D) (name : String) (isUnion isAnonymous : Bool) : Nat × TypeGenerator D :=
  let (res, s) := s.getMDNode (recordMDs name isUnion isAnonymous placeholder)
  (res, { s with context := s.context.replaceOperandWith res 4 (.node res) })

def getRecordTypeWithBody (s : TypeGenerator D) (name : String) (isUnion isAnonymous : Bool) (body : Nat) :
    Nat × TypeGenerator D :=
  s.getMDNode (recordMDs name isUnion isAnonymous (.node body))

def getPointerType (s : TypeGenerator D) (pointee : Nat) : Nat × TypeGenerator D := s.getMDNode (pointerMDs pointee)

def getArrayType (s : TypeGenerator D) (elem : Nat) (numElems : UInt32) : Nat × TypeGenerator D :=
  s.getMDNode (arrayMDs elem numElems)

def getQualType (s : TypeGenerator D) (mask : UInt32) (ty : Nat) : Option (Nat × TypeGenerator D) := do
  guard (!(← isQualType s.context ty))
  some (s.getMDNode (qualMDs mask ty))

/-- The qualifiers that `addQualifiers` comes to. -/
def addTo (quals : Qualifiers) (q : SourceQualifiers) (cla : Option Access) : Qualifiers :=
  let quals := if q.hasConst then quals.addConst else quals
  let quals := if q.hasVolatile then quals.addVolatile else quals
  let quals := if q.hasRestrict then quals.addRestrict else quals
  let quals := quals.addAddressSpace (convertAddressSpace q.addressSpace)
  match cla with
  | some a => quals.addImageAccess (convertImageAccess a)
  | none => quals

def addQualifiers (s : TypeGenerator D) (q : SourceQualifiers) (cla : Option Access) (ty : Nat) :
    Option (Nat × TypeGenerator D) := do
  let quals ← getQualifiers s.context ty
  let ty ← getUnqualifiedType s.context ty
  let quals := addTo quals q cla
  if quals.empty then some (ty, s) else s.getQualType quals.mask ty

/-- The loop over the fields, with what it appends to `BodyVals`. -/
def getFields (recur : T → TypeGenerator D → Option (Nat × TypeGenerator D)) :
    List (T × UInt64) → TypeGenerator D → Option (List Metadata × TypeGenerator D)
  | [], s => some ([], s)
  | (ty, offset) :: fields, s => do
    let (md, s) ← recur ty s
    let (bodyVals, s) ← getFields recur fields s
    some (.node md :: getIntegerMD 64 offset :: bodyVals, s)

def bodyHeader (rd : RecordDecl T) : List Metadata :=
  [getIntegerMD 64 idRecordTypeBody, getIntegerMD 64 rd.size, getIntegerMD 64 rd.alignment,
    getIntegerMD 1 rd.isPacked.toUInt64]

def getBody (recur : T → TypeGenerator D → Option (Nat × TypeGenerator D)) (rd : RecordDecl T)
    (s : TypeGenerator D) : Option (Nat × TypeGenerator D) := do
  let (bodyVals, s) ← getFields recur rd.fields s
  some (s.getMDNode (bodyHeader rd ++ bodyVals))

variable [DecidableEq D]

/-- A record without its qualifiers. -/
def getRecord (g : SourceTypes T D) (recur : T → TypeGenerator D → Option (Nat × TypeGenerator D)) (d : D)
    (s : TypeGenerator D) : Option (Nat × TypeGenerator D) :=
  match s.rtCache.lookup d with
  | some r => some (r, s)
  | none =>
    let rd := g.decl d
    if rd.isAnonymousStructOrUnion then do
      let (body, s) ← getBody recur rd s
      some (s.getRecordTypeWithBody rd.name rd.isUnion true body)
    else do
      -- A record may have a field that points to it, which then finds the node.
      let (r, s) := s.getRecordType rd.name rd.isUnion false
      let (body, s) ← getBody recur rd { s with rtCache := (d, r) :: s.rtCache }
      some (r, { s with context := s.context.replaceOperandWith r 4 (.node body) })

def getBuiltin (k : BuiltinKind) (s : TypeGenerator D) : Nat × TypeGenerator D :=
  match k.toClass with
  | .inl c => s.getPrimitiveType c
  | .inr c => s.getImageType c

/-- `TypeGenerator::get`, as far as the fuel goes. -/
def getWithin (g : SourceTypes T D) : Nat → Option Access → T → TypeGenerator D → Option (Nat × TypeGenerator D)
  | 0, _, _, _ => none
  | fuel + 1, cla, t, s =>
    let q := g.quals t
    match g.shape t with
    | .builtin k =>
      let (r, s) := getBuiltin k s
      s.addQualifiers q cla r
    | .constantArray elem size => do
      let (md, s) ← getWithin g fuel none elem s
      let (r, s) := s.getArrayType md size.toUInt32
      s.addQualifiers q none r
    | .pointer pointee => do
      let (md, s) ← getWithin g fuel none pointee s
      let (r, s) := s.getPointerType md
      s.addQualifiers q cla r
    | .extVector elem numElems => do
      let (md, s) ← getWithin g fuel none elem s
      let (r, s) ← s.getVectorType md numElems
      s.addQualifiers q none r
    | .record d => do
      let (r, s) ← getRecord g (getWithin g fuel none) d s
      s.addQualifiers q cla r

variable [Fintype D]

/-- No field of a record is deeper. -/
def fieldDepth (g : SourceTypes T D) : Nat :=
  Finset.univ.sup fun d => ((g.decl d).fields.map fun f => g.depth f.1).foldr max 0

def uncached (s : TypeGenerator D) : Finset D := Finset.univ.filter fun d => s.rtCache.lookup d = none

/-- More than a type needs. -/
def fuel (g : SourceTypes T D) (t : T) (s : TypeGenerator D) : Nat :=
  s.uncached.card * (fieldDepth g + 1) + g.depth t + 1

def get (g : SourceTypes T D) (cla : Option Access) (t : T) (s : TypeGenerator D) : Option (Nat × TypeGenerator D) :=
  getWithin g (fuel g t s) cla t s

/-- The descriptors of some types with their attributes, one after the other. -/
def getAll (g : SourceTypes T D) : List (T × Option Access) → TypeGenerator D → Option (List Nat × TypeGenerator D)
  | [], s => some ([], s)
  | (t, cla) :: reqs, s => do
    let (md, s) ← get g cla t s
    let (mds, s) ← getAll g reqs s
    some (md :: mds, s)

end TypeGenerator

/-! ## What the generator has written -/

namespace TypeGenerator

/-- The attribute that `get` goes on with. -/
def keptAccess (g : SourceTypes T D) (cla : Option Access) (t : T) : Option Access :=
  match g.shape t with
  | .constantArray _ _ | .extVector _ _ => none
  | _ => cla

def maskOf (g : SourceTypes T D) (cla : Option Access) (t : T) : UInt32 :=
  (addTo ⟨0⟩ (g.quals t) (keptAccess g cla t)).mask

def builtinMDs (k : BuiltinKind) : List Metadata :=
  match k.toClass with
  | .inl c => primitiveMDs c
  | .inr c => imageMDs c

/-- The operands for fields with these types. -/
def fieldMDs : List Nat → List (T × UInt64) → List Metadata
  | md :: mds, f :: fields => .node md :: getIntegerMD 64 f.2 :: fieldMDs mds fields
  | _, _ => []

/-- Some descriptors, each of a type that was asked for with some attribute. -/
abbrev Descriptors (T : Type) := Nat → T → Option Access → Prop

section Written
variable [DecidableEq D] (g : SourceTypes T D) (s : TypeGenerator D) (opened : List D) (R : Descriptors T)

def BodyWritten (ctx : Context) (rd : RecordDecl T) (body : Nat) : Prop :=
  ∃ mds, ctx[body]? = some ⟨bodyHeader rd ++ fieldMDs mds rd.fields, true⟩ ∧
    List.Forall₂ (fun md f => R md f.1 none) mds rd.fields

/-- The node of a record. That of a named one is the cached one, and gets its body last. -/
def RecordWritten (d : D) (raw : Nat) : Prop :=
  if (g.decl d).isAnonymousStructOrUnion then
    ∃ body, s.context[raw]? = some ⟨recordMDs (g.decl d).name (g.decl d).isUnion true (.node body), true⟩ ∧
      BodyWritten R s.context (g.decl d) body
  else
    s.rtCache.lookup d = some raw ∧
      ∃ x, s.context[raw]? = some ⟨recordMDs (g.decl d).name (g.decl d).isUnion false x, false⟩ ∧
        (d ∉ opened → ∃ body, x = .node body ∧ BodyWritten R s.context (g.decl d) body)

/-- The node of a type without its qualifiers. -/
def RawWritten (raw : Nat) : Shape T D → Prop
  | .builtin k => s.context[raw]? = some ⟨builtinMDs k, true⟩
  | .constantArray elem size => ∃ md, s.context[raw]? = some ⟨arrayMDs md size.toUInt32, true⟩ ∧ R md elem none
  | .pointer pointee => ∃ md, s.context[raw]? = some ⟨pointerMDs md, true⟩ ∧ R md pointee none
  | .extVector elem n => ∃ md, s.context[raw]? = some ⟨vectorMDs md n, true⟩ ∧ R md elem none
  | .record d => RecordWritten g s opened R d raw

/-- The node of a type. -/
def Written (md : Nat) (t : T) (cla : Option Access) : Prop :=
  ∃ raw, RawWritten g s opened R raw (g.shape t) ∧
    (maskOf g cla t = 0 ∧ md = raw ∨
      maskOf g cla t ≠ 0 ∧ s.context[md]? = some ⟨qualMDs (maskOf g cla t) raw, true⟩)

/-- The descriptors are written and so are the cached records, but for the bodies of the opened ones. -/
structure Inv : Prop where
  written : ∀ md t cla, R md t cla → Written g s opened R md t cla
  named : ∀ d r, s.rtCache.lookup d = some r → (g.decl d).isAnonymousStructOrUnion = false
  cached : ∀ d r, s.rtCache.lookup d = some r → RecordWritten g s opened R d r
  injective : ∀ d d' r, s.rtCache.lookup d = some r → s.rtCache.lookup d' = some r → d = d'

end Written

/-! ### What a step keeps -/

section Steps
variable {g : SourceTypes T D} {s s' : TypeGenerator D} {opened opened' : List D} {R R' : Descriptors T}
  {md raw body : Nat} {t : T} {d : D} {cla : Option Access} {mds : List Metadata}

/-- The operands of a named record before it refers to itself. -/
def IsPlaceholder (ops : List Metadata) : Prop := ∃ name isUnion, ops = recordMDs name isUnion false placeholder

/-- The uniqued nodes are as before, but for a placeholder. -/
def KeepsUniqued (ctx ctx' : Context) : Prop :=
  ∀ (i : Nat) ops, ctx[i]? = some ⟨ops, true⟩ → ¬ IsPlaceholder ops → ctx'[i]? = some ⟨ops, true⟩

theorem not_placeholder_builtin (k : BuiltinKind) : ¬ IsPlaceholder (builtinMDs k) := by
  rintro ⟨name, isUnion, h⟩
  have := congrArg List.length h
  cases hk : k.toClass <;> simp [builtinMDs, hk, primitiveMDs, imageMDs, recordMDs] at this

theorem not_placeholder_anonymous (name : String) (isUnion : Bool) (x : Metadata) :
    ¬ IsPlaceholder (recordMDs name isUnion true x) := by
  rintro ⟨name', isUnion', h⟩
  simp only [recordMDs, getIntegerMD, List.cons.injEq, Lib.Interning.Operand.value.injEq, Constant.int.injEq] at h
  exact absurd h.2.2.2.1.2 (by decide)

theorem not_placeholder_body (rd : RecordDecl T) (mds : List Metadata) : ¬ IsPlaceholder (bodyHeader rd ++ mds) := by
  rintro ⟨name, isUnion, h⟩
  have := congrArg List.head? h
  simp [bodyHeader, recordMDs, getIntegerMD, idRecordTypeBody, idType] at this

theorem BodyWritten.mono {ctx ctx' : Context} {rd : RecordDecl T} (hkeep : KeepsUniqued ctx ctx')
    (hR : ∀ md t cla, R md t cla → R' md t cla) (h : BodyWritten R ctx rd body) : BodyWritten R' ctx' rd body := by
  obtain ⟨mds, hnode, hfields⟩ := h
  exact ⟨mds, hkeep _ _ hnode (not_placeholder_body _ _), hfields.imp fun _ _ h => hR _ _ _ h⟩

variable [DecidableEq D]

theorem RecordWritten.mono (hkeep : KeepsUniqued s.context s'.context) (hR : ∀ md t cla, R md t cla → R' md t cla)
    (hopened : d ∉ opened' → d ∉ opened) (hcache : s.rtCache.lookup d = some raw → s'.rtCache.lookup d = some raw)
    (hnode : s.rtCache.lookup d = some raw → ∀ ops, s.context[raw]? = some ⟨ops, false⟩ →
      s'.context[raw]? = some ⟨ops, false⟩)
    (h : RecordWritten g s opened R d raw) : RecordWritten g s' opened' R' d raw := by
  unfold RecordWritten at h ⊢
  split at h
  · next hanon =>
    rw [if_pos hanon]
    obtain ⟨body, hn, hbody⟩ := h
    exact ⟨body, hkeep _ _ hn (not_placeholder_anonymous _ _ _), hbody.mono hkeep hR⟩
  · next hanon =>
    rw [if_neg hanon]
    obtain ⟨hlookup, x, hn, hclosed⟩ := h
    refine ⟨hcache hlookup, x, hnode hlookup _ hn, fun hd => ?_⟩
    obtain ⟨body, hx, hbody⟩ := hclosed (hopened hd)
    exact ⟨body, hx, hbody.mono hkeep hR⟩

theorem not_placeholder_length {ops : List Metadata} (h : ops.length ≠ 5) : ¬ IsPlaceholder ops := by
  rintro ⟨name, isUnion, rfl⟩
  exact h rfl

theorem RawWritten.mono {shape : Shape T D} (hkeep : KeepsUniqued s.context s'.context)
    (hR : ∀ md t cla, R md t cla → R' md t cla)
    (hrecord : ∀ d raw, RecordWritten g s opened R d raw → RecordWritten g s' opened' R' d raw)
    (h : RawWritten g s opened R raw shape) : RawWritten g s' opened' R' raw shape := by
  cases shape with
  | builtin k => exact hkeep _ _ h (not_placeholder_builtin k)
  | constantArray elem size =>
    obtain ⟨md, hnode, hmem⟩ := h
    exact ⟨md, hkeep _ _ hnode (not_placeholder_length (by simp [arrayMDs])), hR _ _ _ hmem⟩
  | pointer pointee =>
    obtain ⟨md, hnode, hmem⟩ := h
    exact ⟨md, hkeep _ _ hnode (not_placeholder_length (by simp [pointerMDs])), hR _ _ _ hmem⟩
  | extVector elem n =>
    obtain ⟨md, hnode, hmem⟩ := h
    exact ⟨md, hkeep _ _ hnode (not_placeholder_length (by simp [vectorMDs])), hR _ _ _ hmem⟩
  | record d => exact hrecord d raw h

theorem Written.mono (hkeep : KeepsUniqued s.context s'.context) (hR : ∀ md t cla, R md t cla → R' md t cla)
    (hrecord : ∀ d raw, RecordWritten g s opened R d raw → RecordWritten g s' opened' R' d raw)
    (h : Written g s opened R md t cla) : Written g s' opened' R' md t cla := by
  obtain ⟨raw, hraw, hmd⟩ := h
  refine ⟨raw, hraw.mono hkeep hR hrecord, hmd.imp id fun ⟨hne, hnode⟩ => ⟨hne, hkeep _ _ hnode ?_⟩⟩
  exact not_placeholder_length (by simp [qualMDs])

theorem keepsUniqued_get (ctx : Context) (mds : List Metadata) : KeepsUniqued ctx (ctx.get mds).2 :=
  fun _ _ h _ => Store.get_extends ctx mds _ _ h

theorem RecordWritten.getMDNode (mds : List Metadata) (d : D) (raw : Nat) (h : RecordWritten g s opened R d raw) :
    RecordWritten g (s.getMDNode mds).2 opened R d raw :=
  h.mono (keepsUniqued_get _ _) (fun _ _ _ => id) id id fun _ _ hnode => Store.get_extends _ _ _ _ hnode

/-- A new node changes nothing of what is written. -/
theorem Inv.getMDNode (h : Inv g s opened R) (mds : List Metadata) : Inv g (s.getMDNode mds).2 opened R :=
  ⟨fun md t cla hmem => (h.written md t cla hmem).mono (keepsUniqued_get _ _) (fun _ _ _ => id) (.getMDNode mds),
    h.named, fun d r hr => (h.cached d r hr).getMDNode mds, h.injective⟩

/-- One more descriptor. -/
def Descriptors.insert (R : Descriptors T) (md : Nat) (t : T) (cla : Option Access) : Descriptors T :=
  fun md' t' cla' => R md' t' cla' ∨ md' = md ∧ t' = t ∧ cla' = cla

theorem Inv.insert (h : Inv g s opened R) (hw : Written g s opened R md t cla) :
    Inv g s opened (R.insert md t cla) := by
  have hR : ∀ md' t' cla', R md' t' cla' → R.insert md t cla md' t' cla' := fun _ _ _ => .inl
  have hrecord : ∀ d raw, RecordWritten g s opened R d raw → RecordWritten g s opened (R.insert md t cla) d raw :=
    fun d raw => .mono (fun _ _ h _ => h) hR id id fun _ _ => id
  refine ⟨?_, h.named, fun d r hr => hrecord d r (h.cached d r hr), h.injective⟩
  rintro md' t' cla' (hmem | ⟨rfl, rfl, rfl⟩)
  · exact (h.written _ _ _ hmem).mono (fun _ _ h _ => h) hR hrecord
  · exact hw.mono (fun _ _ h _ => h) hR hrecord

omit [DecidableEq D] in
/-- The new node is of no record yet; it refers to itself. -/
theorem getRecordType_spec (s : TypeGenerator D) (name : String) (isUnion : Bool) :
    ∃ r s', s.getRecordType name isUnion false = (r, s') ∧ s'.rtCache = s.rtCache ∧
      KeepsUniqued s.context s'.context ∧
      (∀ (i : Nat) ops, s.context[i]? = some ⟨ops, false⟩ → i ≠ r ∧ s'.context[i]? = some ⟨ops, false⟩) ∧
      s'.context[r]? = some ⟨recordMDs name isUnion false (.node r), false⟩ := by
  have hnode := Store.get_node s.context (recordMDs name isUnion false placeholder)
  have hext := Store.get_extends s.context (recordMDs name isUnion false placeholder)
  -- The node refers to itself, so it is not shared and is not found again.
  refine ⟨_, _, rfl, rfl, ?_, ?_, ?_⟩
  all_goals
    simp only
    rw [Store.replaceOperandWith_self hnode (by simp [recordMDs, placeholder, getIntegerMD])]
  · intro i ops hi hnot
    refine Store.set_other ?_ (hext i _ hi) _
    rintro rfl
    rw [hext _ _ hi] at hnode
    cases hnode
    exact hnot ⟨name, isUnion, rfl⟩
  · intro i ops hi
    have hne : i ≠ (s.context.get (recordMDs name isUnion false placeholder)).1 := by
      rintro rfl
      rw [hext _ _ hi] at hnode
      cases hnode
    exact ⟨hne, Store.set_other hne.symm (hext i _ hi) _⟩
  · exact Store.set_here hnode _

/-- A named record is cached before its fields are asked for. -/
theorem Inv.openRecord (h : Inv g s opened R) (hlookup : s.rtCache.lookup d = none)
    (hnamed : (g.decl d).isAnonymousStructOrUnion = false) :
    ∃ r s', s.getRecordType (g.decl d).name (g.decl d).isUnion false = (r, s') ∧ s'.rtCache = s.rtCache ∧
      Inv g { s' with rtCache := (d, r) :: s'.rtCache } (d :: opened) R := by
  obtain ⟨r, s', heq, hcache, hkeep, hdistinct, hnode⟩ := getRecordType_spec s (g.decl d).name (g.decl d).isUnion
  refine ⟨r, s', heq, hcache, ?_⟩
  have hother : ∀ d' raw, s.rtCache.lookup d' = some raw → ((d, r) :: s'.rtCache).lookup d' = some raw := by
    intro d' raw hd'
    have hne : (d' == d) = false := beq_eq_false_iff_ne.2 fun h => by simp [h, hlookup] at hd'
    rw [List.lookup_cons, hne, hcache]
    exact hd'
  have hcases : ∀ d' raw, ((d, r) :: s'.rtCache).lookup d' = some raw →
      d' = d ∧ raw = r ∨ s.rtCache.lookup d' = some raw := by
    intro d' raw hd'
    rw [List.lookup_cons, hcache] at hd'
    split at hd'
    · next hbeq => exact .inl ⟨eq_of_beq hbeq, (Option.some.inj hd').symm⟩
    · exact .inr hd'
  have hrecord : ∀ d' raw, RecordWritten g s opened R d' raw →
      RecordWritten g { s' with rtCache := (d, r) :: s'.rtCache } (d :: opened) R d' raw := fun d' raw =>
    .mono hkeep (fun _ _ _ => id) (fun hd' => fun hmem => hd' (List.mem_cons_of_mem _ hmem)) (hother d' raw)
      fun _ ops hi => (hdistinct raw ops hi).2
  -- The new node is none of those in the cache.
  have hold : ∀ d' raw, s.rtCache.lookup d' = some raw → raw ≠ r := by
    intro d' raw hd'
    have hw := h.cached d' raw hd'
    rw [RecordWritten, if_neg (Bool.eq_false_iff.1 (h.named d' raw hd'))] at hw
    obtain ⟨-, x, hx, -⟩ := hw
    exact (hdistinct raw _ hx).1
  refine ⟨fun md t cla hmem => (h.written md t cla hmem).mono hkeep (fun _ _ _ => id) hrecord, ?_, ?_, ?_⟩
  · intro d' raw hd'
    rcases hcases d' raw hd' with ⟨rfl, -⟩ | hd'
    · exact hnamed
    · exact h.named d' raw hd'
  · intro d' raw hd'
    rcases hcases d' raw hd' with ⟨rfl, rfl⟩ | hd'
    · rw [RecordWritten, if_neg (Bool.eq_false_iff.1 hnamed)]
      exact ⟨List.lookup_cons_self, _, hnode, fun hnot => absurd List.mem_cons_self hnot⟩
    · exact hrecord d' raw (h.cached d' raw hd')
  · intro d₁ d₂ raw h₁ h₂
    rcases hcases d₁ raw h₁ with ⟨h₁, hr₁⟩ | h₁ <;> rcases hcases d₂ raw h₂ with ⟨h₂, hr₂⟩ | h₂
    · rw [h₁, h₂]
    · exact absurd hr₁ (hold _ _ h₂)
    · exact absurd hr₂ (hold _ _ h₁)
    · exact h.injective _ _ _ h₁ h₂

/-- The body of a named record takes the place of the reference to itself. -/
theorem Inv.closeRecord {r : Nat} (h : Inv g s (d :: opened) R) (hlookup : s.rtCache.lookup d = some r)
    (hbody : BodyWritten R s.context (g.decl d) body) :
    Inv g { s with context := s.context.replaceOperandWith r 4 (.node body) } opened R := by
  have hnamed := h.named d r hlookup
  have hw := h.cached d r hlookup
  rw [RecordWritten, if_neg (Bool.eq_false_iff.1 hnamed)] at hw
  obtain ⟨-, x, hnode, -⟩ := hw
  rw [Store.replaceOperandWith_distinct hnode]
  -- Only the node of the record changes, and nothing that is shared.
  have hkeep : KeepsUniqued s.context (s.context.set r
      ⟨(recordMDs (g.decl d).name (g.decl d).isUnion false x).set 4 (.node body), false⟩) := by
    intro i ops hi _
    refine Store.set_other ?_ hi _
    rintro rfl
    rw [hi] at hnode
    cases hnode
  have hrecord : ∀ d' raw, RecordWritten g s (d :: opened) R d' raw → RecordWritten g { s with
      context := s.context.set r ⟨(recordMDs (g.decl d).name (g.decl d).isUnion false x).set 4 (.node body), false⟩ }
      opened R d' raw := by
    intro d' raw hw
    by_cases hd : d' = d
    · subst hd
      rw [RecordWritten, if_neg (Bool.eq_false_iff.1 hnamed)] at hw ⊢
      obtain ⟨hraw, -⟩ := hw
      obtain rfl : raw = r := Option.some.inj (hraw.symm.trans hlookup)
      exact ⟨hraw, .node body, Store.set_here hnode _, fun _ => ⟨body, rfl, hbody.mono hkeep fun _ _ _ => id⟩⟩
    · refine hw.mono hkeep (fun _ _ _ => id) (fun hnot hmem => ?_) id fun hraw ops hi => ?_
      · exact (List.mem_cons.1 hmem).elim hd hnot
      · refine Store.set_other ?_ hi _
        rintro rfl
        exact hd (h.injective _ _ _ hraw hlookup)
  exact ⟨fun md t cla hmem => (h.written md t cla hmem).mono hkeep (fun _ _ _ => id) hrecord, h.named,
    fun d' r' hr' => hrecord d' r' (h.cached d' r' hr'), h.injective⟩

end Steps

/-! ### What `get` does -/

/-- From one state of the generator to a later one. -/
structure Grown [DecidableEq D] (g : SourceTypes T D) (opened : List D) (s : TypeGenerator D) (R : Descriptors T)
    (s' : TypeGenerator D) (R' : Descriptors T) : Prop where
  inv : Inv g s' opened R'
  kept : ∀ md t cla, R md t cla → R' md t cla
  cache : ∀ d r, s.rtCache.lookup d = some r → s'.rtCache.lookup d = some r

section Get
variable [DecidableEq D] {g : SourceTypes T D} {s s' s'' : TypeGenerator D} {opened : List D} {R R' R'' : Descriptors T}
  {raw : Nat} {t : T} {d : D} {cla : Option Access}

theorem Grown.refl (h : Inv g s opened R) : Grown g opened s R s R := ⟨h, fun _ _ _ => id, fun _ _ => id⟩

theorem Grown.trans (h : Grown g opened s R s' R') (h' : Grown g opened s' R' s'' R'') :
    Grown g opened s R s'' R'' :=
  ⟨h'.inv, fun _ _ _ hmem => h'.kept _ _ _ (h.kept _ _ _ hmem), fun _ _ hr => h'.cache _ _ (h.cache _ _ hr)⟩

theorem Grown.getMDNode (h : Grown g opened s R s' R') (mds : List Metadata) :
    Grown g opened s R (s'.getMDNode mds).2 R' :=
  ⟨h.inv.getMDNode mds, h.kept, h.cache⟩

/-- A request for one type that is answered. -/
def Answered (g : SourceTypes T D) (opened : List D) (s : TypeGenerator D) (R : Descriptors T) (t : T)
    (cla : Option Access) (r : Option (Nat × TypeGenerator D)) : Prop :=
  ∃ md s' R', r = some (md, s') ∧ Grown g opened s R s' R' ∧ R' md t cla

/-- The loop over the fields, if each of them is answered. -/
theorem getFields_spec {recur : T → TypeGenerator D → Option (Nat × TypeGenerator D)} {fields : List (T × UInt64)}
    (hrecur : ∀ f ∈ fields, ∀ s' R', Grown g opened s R s' R' → Answered g opened s' R' f.1 none (recur f.1 s'))
    (h : Inv g s opened R) : ∃ mds s' R', getFields recur fields s = some (fieldMDs mds fields, s') ∧
      Grown g opened s R s' R' ∧ List.Forall₂ (fun md f => R' md f.1 none) mds fields := by
  induction fields generalizing s R with
  | nil => exact ⟨[], s, R, rfl, .refl h, .nil⟩
  | cons f fields ih =>
    obtain ⟨md, s₁, R₁, hget, hgrown, hmem⟩ := hrecur f List.mem_cons_self s R (.refl h)
    obtain ⟨mds, s₂, R₂, hrest, hgrown', hall⟩ := ih (s := s₁) (R := R₁)
      (fun f' hf' s' R' hs' => hrecur f' (List.mem_cons_of_mem _ hf') s' R' (hgrown.trans hs')) hgrown.inv
    refine ⟨md :: mds, s₂, R₂, ?_, hgrown.trans hgrown', .cons (hgrown'.kept _ _ _ hmem) hall⟩
    simp [getFields, hget, hrest, fieldMDs]

theorem getBody_spec (recur : T → TypeGenerator D → Option (Nat × TypeGenerator D)) (rd : RecordDecl T)
    (hrecur : ∀ f ∈ rd.fields, ∀ s' R', Grown g opened s R s' R' → Answered g opened s' R' f.1 none (recur f.1 s'))
    (h : Inv g s opened R) : ∃ body s' R', getBody recur rd s = some (body, s') ∧ Grown g opened s R s' R' ∧
      BodyWritten R' s'.context rd body := by
  obtain ⟨mds, s₁, R₁, hget, hgrown, hall⟩ := getFields_spec hrecur h
  refine ⟨_, _, R₁, by rw [getBody, hget]; rfl, ?_, mds, Store.get_node _ _, hall⟩
  exact hgrown.getMDNode _

theorem getRecord_spec {recur : T → TypeGenerator D → Option (Nat × TypeGenerator D)}
    (hrecur : s.rtCache.lookup d = none → ∀ f ∈ (g.decl d).fields, ∀ opened s' R', Inv g s' opened R' →
      (∀ d r, s.rtCache.lookup d = some r → s'.rtCache.lookup d = some r) →
      ((g.decl d).isAnonymousStructOrUnion = false → s'.rtCache.lookup d ≠ none) →
        Answered g opened s' R' f.1 none (recur f.1 s'))
    (h : Inv g s opened R) : ∃ raw s' R', getRecord g recur d s = some (raw, s') ∧ Grown g opened s R s' R' ∧
      RecordWritten g s' opened R' d raw := by
  unfold getRecord
  cases hlookup : s.rtCache.lookup d with
  | some r => exact ⟨r, s, R, rfl, .refl h, h.cached d r hlookup⟩
  | none =>
    cases hanon : (g.decl d).isAnonymousStructOrUnion with
    | true =>
      obtain ⟨body, s₁, R₁, hbody, hgrown, hwritten⟩ := getBody_spec recur (g.decl d)
        (fun f hf s' R' hs' => hrecur hlookup f hf opened s' R' hs'.inv hs'.cache
          fun hno => absurd hno (by simp [hanon])) h
      refine ⟨_, _, R₁, by simp only [hanon, if_true, hbody]; rfl,
        hgrown.getMDNode _, ?_⟩
      rw [RecordWritten, if_pos hanon]
      exact ⟨body, Store.get_node _ _, hwritten.mono (keepsUniqued_get _ _) fun _ _ _ => id⟩
    | false =>
      obtain ⟨r, s₁, hrec, hcache, hinv⟩ := h.openRecord hlookup hanon
      have hhere : ((d, r) :: s₁.rtCache).lookup d = some r := List.lookup_cons_self
      have hother : ∀ d' r', s.rtCache.lookup d' = some r' → ((d, r) :: s₁.rtCache).lookup d' = some r' := by
        intro d' r' hr'
        have hne : (d' == d) = false := beq_eq_false_iff_ne.2 fun heq => by simp [heq, hlookup] at hr'
        rw [List.lookup_cons, hne, hcache]
        exact hr'
      obtain ⟨body, s₂, R₂, hbody, hgrown, hwritten⟩ := getBody_spec recur (g.decl d)
        (fun f hf s' R' hs' => hrecur hlookup f hf (d :: opened) s' R' hs'.inv
          (fun d' r' hr' => hs'.cache d' r' (hother d' r' hr'))
          fun _ hnone => by simp [hs'.cache d r hhere] at hnone) hinv
      have hclosed := hgrown.inv.closeRecord (hgrown.cache d r hhere) hwritten
      refine ⟨r, _, R₂, by simp [hanon, hrec, hbody],
        ⟨hclosed, hgrown.kept, fun d' r' hr' => hgrown.cache d' r' (hother d' r' hr')⟩, ?_⟩
      exact hclosed.cached d r (hgrown.cache d r hhere)

/-- The node of a type without its qualifiers says so. -/
theorem RawWritten.isRaw {shape : Shape T D} (h : RawWritten g s opened R raw shape) :
    getInt s.context raw 0 = some idType := by
  cases shape with
  | builtin k =>
    have hop : (builtinMDs k)[0]? = some (getIntegerMD 64 idType) := by
      cases hk : k.toClass <;> simp [builtinMDs, hk, primitiveMDs, imageMDs]
    exact getInt_node h hop
  | constantArray elem size =>
    obtain ⟨md, hnode, -⟩ := h
    exact getInt_node hnode rfl
  | pointer pointee =>
    obtain ⟨md, hnode, -⟩ := h
    exact getInt_node hnode rfl
  | extVector elem n =>
    obtain ⟨md, hnode, -⟩ := h
    exact getInt_node hnode rfl
  | record d =>
    have h : RecordWritten g s opened R d raw := h
    unfold RecordWritten at h
    split at h
    · obtain ⟨body, hnode, -⟩ := h
      exact getInt_node hnode rfl
    · obtain ⟨-, x, hnode, -⟩ := h
      exact getInt_node hnode rfl

theorem addQualifiers_spec (cla : Option Access) (h : Inv g s opened R) (hraw : RawWritten g s opened R raw (g.shape t)) :
    Answered g opened s R t cla (s.addQualifiers (g.quals t) (keptAccess g cla t) raw) := by
  obtain ⟨hqual, -, -, hunqual, hquals⟩ := isRawType_spec hraw.isRaw
  by_cases hmask : maskOf g cla t = 0
  · refine ⟨raw, s, R.insert raw t cla, ?_, ⟨h.insert ⟨raw, hraw, .inl ⟨hmask, rfl⟩⟩, fun _ _ _ => .inl, fun _ _ => id⟩,
      .inr ⟨rfl, rfl, rfl⟩⟩
    have hempty : (addTo ⟨0⟩ (g.quals t) (keptAccess g cla t)).empty = true := beq_iff_eq.2 hmask
    simp [addQualifiers, hquals, hunqual, hempty]
  · have hempty : (addTo ⟨0⟩ (g.quals t) (keptAccess g cla t)).empty = false := beq_eq_false_iff_ne.2 hmask
    have hinv := h.getMDNode (qualMDs (maskOf g cla t) raw)
    have hwritten : Written g (s.getMDNode (qualMDs (maskOf g cla t) raw)).2 opened R
        (s.getMDNode (qualMDs (maskOf g cla t) raw)).1 t cla := by
      exact ⟨raw, hraw.mono (keepsUniqued_get _ _) (fun _ _ _ => id) (.getMDNode _), .inr ⟨hmask, Store.get_node _ _⟩⟩
    refine ⟨_, _, R.insert _ t cla, ?_, ⟨hinv.insert hwritten, fun _ _ _ => .inl, fun _ _ => id⟩, .inr ⟨rfl, rfl, rfl⟩⟩
    simp [addQualifiers, hquals, hunqual, hempty, getQualType, hqual, maskOf]

/-- A request is answered once the type is there without its qualifiers. -/
theorem Grown.answered {kept : Option Access} (hkept : keptAccess g cla t = kept) (hgrown : Grown g opened s R s' R')
    (hraw : RawWritten g s' opened R' raw (g.shape t)) :
    Answered g opened s R t cla (s'.addQualifiers (g.quals t) kept raw) := by
  obtain ⟨md, s'', R'', heq, hgrown', hmem⟩ := addQualifiers_spec cla hgrown.inv hraw
  exact ⟨md, s'', R'', hkept ▸ heq, hgrown.trans hgrown', hmem⟩

/-- An element without qualifiers is a primitive type. -/
theorem getVectorType_spec {elem : T} {n : UInt32} {md : Nat} (h : Inv g s opened R) (hshape : g.shape t = .extVector elem n)
    (hmem : R md elem none) : s.getVectorType md n = some (s.getMDNode (vectorMDs md n)) := by
  obtain ⟨hquals, k, helem, haccess, hsampler⟩ := g.vector_elem t elem n hshape
  obtain ⟨raw, hraw, hmd⟩ := h.written md elem none hmem
  have hmask : maskOf g none elem = 0 := by
    rw [maskOf, keptAccess, helem, hquals]
    exact (by decide : (addTo ⟨0⟩ {} none).mask = 0)
  obtain ⟨-, rfl⟩ := hmd.resolve_right fun hne => hne.1 hmask
  obtain ⟨hqual, -, -, hunqual, -⟩ := isRawType_spec hraw.isRaw
  rw [helem] at hraw
  obtain ⟨c, hc⟩ : ∃ c, k.toClass = .inl c := by
    cases k <;> first | exact ⟨_, rfl⟩ | exact absurd rfl hsampler | cases haccess
  have hnode : s.context[md]? = some ⟨primitiveMDs c, true⟩ := by
    simpa only [RawWritten, builtinMDs, hc] using hraw
  have hkind : getKind s.context md = some .primitive := by
    simp [getKind, hunqual, getInt_node (k := 1) hnode rfl]
  simp [getVectorType, hkind, hqual]

variable [Fintype D]

theorem uncached_subset (h : ∀ d r, s.rtCache.lookup d = some r → s'.rtCache.lookup d = some r) :
    s'.uncached ⊆ s.uncached := by
  intro d hd
  rw [uncached, Finset.mem_filter] at hd ⊢
  refine ⟨hd.1, ?_⟩
  cases hlookup : s.rtCache.lookup d with
  | none => rfl
  | some r => simp [h d r hlookup] at hd

omit [DecidableEq D] in
theorem depth_le_fieldDepth {f : T × UInt64} (hf : f ∈ (g.decl d).fields) : g.depth f.1 ≤ fieldDepth g := by
  have hmax : ∀ ns : List Nat, ∀ n ∈ ns, n ≤ ns.foldr max 0 := by
    intro ns
    induction ns with
    | nil => simp
    | cons m ns ih =>
      intro n hn
      rcases List.mem_cons.1 hn with rfl | hn
      · exact Nat.le_max_left _ _
      · exact (ih n hn).trans (Nat.le_max_right _ _)
  exact (hmax _ _ (List.mem_map.2 ⟨f, hf, rfl⟩)).trans
    (Finset.le_sup (f := fun d => ((g.decl d).fields.map fun f => g.depth f.1).foldr max 0) (Finset.mem_univ d))

/-- Fuel for a type is enough for its element, one level further down. -/
theorem fuel_elem {n : Nat} {elem : T} (hparts : (g.shape t).parts g.decl = [elem]) (hrecord : ∀ d, g.shape t ≠ .record d)
    (hfuel : fuel g t s ≤ n + 1) : fuel g elem s ≤ n := by
  have hmem : elem ∈ (g.shape t).parts g.decl := by rw [hparts]; exact List.mem_singleton_self elem
  have hdepth := g.depth_part t (fun d hd => absurd hd (hrecord d)) elem hmem
  unfold fuel at hfuel ⊢
  omega

/-- It is enough for the fields of a record: the record is cached by then, so there is one less to come. Those of an
anonymous record are one level further down. -/
theorem fuel_field {n : Nat} {f : T × UInt64} (hshape : g.shape t = .record d) (hf : f ∈ (g.decl d).fields)
    (hfuel : fuel g t s ≤ n + 1) (hnone : s.rtCache.lookup d = none)
    (hcache : ∀ d r, s.rtCache.lookup d = some r → s'.rtCache.lookup d = some r)
    (hnew : (g.decl d).isAnonymousStructOrUnion = false → s'.rtCache.lookup d ≠ none) : fuel g f.1 s' ≤ n := by
  have hsub := uncached_subset hcache
  have hdepth := depth_le_fieldDepth hf
  unfold fuel at hfuel ⊢
  cases hanon : (g.decl d).isAnonymousStructOrUnion with
  | true =>
    have hlt : g.depth f.1 < g.depth t := by
      refine g.depth_part t (fun d' hd' => ?_) f.1 (by rw [hshape]; exact List.mem_map.2 ⟨f, hf, rfl⟩)
      rw [hshape] at hd'
      cases hd'
      exact hanon
    have hcard := Nat.mul_le_mul_right (fieldDepth g + 1) (Finset.card_le_card hsub)
    omega
  | false =>
    have hd : d ∈ s.uncached := Finset.mem_filter.2 ⟨Finset.mem_univ d, hnone⟩
    have hd' : d ∉ s'.uncached := fun hmem => hnew hanon (Finset.mem_filter.1 hmem).2
    have hlt : s'.uncached.card + 1 ≤ s.uncached.card :=
      Finset.card_lt_card (Finset.ssubset_iff_subset_ne.2 ⟨hsub, fun heq => hd' (heq ▸ hd)⟩)
    have hcard := Nat.mul_le_mul_right (fieldDepth g + 1) hlt
    rw [Nat.add_one_mul] at hcard
    omega

/-- With enough fuel every type gets its descriptor. -/
theorem getWithin_spec {n : Nat} (h : Inv g s opened R) (hfuel : fuel g t s ≤ n) :
    Answered g opened s R t cla (getWithin g n cla t s) := by
  -- On the fuel, for all states: a record that is opened keeps the invariant with its body missing.
  induction n generalizing s opened R t cla with
  | zero => exact absurd hfuel (by simp [fuel])
  | succ n ih =>
    rw [getWithin]
    cases hshape : g.shape t with
    | builtin k =>
      have hkept : keptAccess g cla t = cla := by rw [keptAccess, hshape]
      have hbuiltin : getBuiltin k s = s.getMDNode (builtinMDs k) := by
        unfold getBuiltin builtinMDs
        cases k.toClass <;> rfl
      simp only [hbuiltin]
      exact Grown.answered hkept ((Grown.refl h).getMDNode _) (by rw [hshape]; exact Store.get_node _ _)
    | constantArray elem size =>
      have hkept : keptAccess g cla t = none := by rw [keptAccess, hshape]
      obtain ⟨md, s₁, R₁, hget, hgrown, hmem⟩ : Answered g opened s R elem none (getWithin g n none elem s) :=
        ih h (fuel_elem (by rw [hshape]; rfl) (by simp [hshape]) hfuel)
      simp only [hget, Option.bind_eq_bind, Option.bind_some, getArrayType]
      exact Grown.answered hkept (hgrown.getMDNode _) (by rw [hshape]; exact ⟨md, Store.get_node _ _, hmem⟩)
    | pointer pointee =>
      have hkept : keptAccess g cla t = cla := by rw [keptAccess, hshape]
      obtain ⟨md, s₁, R₁, hget, hgrown, hmem⟩ : Answered g opened s R pointee none (getWithin g n none pointee s) :=
        ih h (fuel_elem (by rw [hshape]; rfl) (by simp [hshape]) hfuel)
      simp only [hget, Option.bind_eq_bind, Option.bind_some, getPointerType]
      exact Grown.answered hkept (hgrown.getMDNode _) (by rw [hshape]; exact ⟨md, Store.get_node _ _, hmem⟩)
    | extVector elem numElems =>
      have hkept : keptAccess g cla t = none := by rw [keptAccess, hshape]
      obtain ⟨md, s₁, R₁, hget, hgrown, hmem⟩ : Answered g opened s R elem none (getWithin g n none elem s) :=
        ih h (fuel_elem (by rw [hshape]; rfl) (by simp [hshape]) hfuel)
      simp only [hget, Option.bind_eq_bind, Option.bind_some, getVectorType_spec hgrown.inv hshape hmem]
      exact Grown.answered hkept (hgrown.getMDNode _) (by rw [hshape]; exact ⟨md, Store.get_node _ _, hmem⟩)
    | record d =>
      have hkept : keptAccess g cla t = cla := by rw [keptAccess, hshape]
      obtain ⟨raw, s₁, R₁, hget, hgrown, hwritten⟩ : ∃ raw s' R', getRecord g (getWithin g n none) d s = some (raw, s') ∧
          Grown g opened s R s' R' ∧ RecordWritten g s' opened R' d raw :=
        getRecord_spec (fun hnone f hf opened s' R' hinv hcache hnew =>
          ih hinv (fuel_field hshape hf hfuel hnone hcache hnew)) h
      simp only [hget, Option.bind_eq_bind, Option.bind_some]
      exact Grown.answered hkept hgrown (by rw [hshape]; exact hwritten)

omit [Fintype D] in
/-- Nothing is written yet. -/
theorem inv_init (g : SourceTypes T D) (context : Context) :
    Inv g { context, rtCache := [] } [] (fun _ _ _ => False) := by
  have hnone : ∀ d r, ([] : List (D × Nat)).lookup d ≠ some r := by simp
  exact ⟨fun _ _ _ h => h.elim, fun d r h => absurd h (hnone d r), fun d r h => absurd h (hnone d r),
    fun d _ r h => absurd h (hnone d r)⟩

/-- All requests are answered, whatever was in the context before. -/
theorem getAll_spec (g : SourceTypes T D) (reqs : List (T × Option Access)) (h : Inv g s opened R) :
    ∃ mds s' R', getAll g reqs s = some (mds, s') ∧ Grown g opened s R s' R' ∧
      List.Forall₂ (fun md req => R' md req.1 req.2) mds reqs := by
  induction reqs generalizing s R with
  | nil => exact ⟨[], s, R, rfl, .refl h, .nil⟩
  | cons req reqs ih =>
    obtain ⟨md, s₁, R₁, hget, hgrown, hmem⟩ : Answered g opened s R req.1 req.2 (get g req.2 req.1 s) :=
      getWithin_spec h (Nat.le_refl _)
    obtain ⟨mds, s₂, R₂, hrest, hgrown', hall⟩ := ih hgrown.inv
    refine ⟨md :: mds, s₂, R₂, ?_, hgrown.trans hgrown', .cons (hgrown'.kept _ _ _ hmem) hall⟩
    simp [getAll, hget, hrest]

end Get

end TypeGenerator

end OpenCRun.OpenCLTypeSystem
