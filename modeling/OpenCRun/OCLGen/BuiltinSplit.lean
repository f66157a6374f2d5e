import Mathlib.Data.List.Forall2
/-!
# Splitting of builtins

The bodies that the generator emits for builtins over vectors, by the two
strategies that go back to an implementation for scalars, and what they do when
they are executed. That implementation is left open, and so is the monad of its
effects.
-/
namespace OpenCRun.OCLGen

/-! ## Types and signatures -/

inductive BasicType where
  | scalar (name : String)
  | vector (base : String) (width : Nat)
  | pointer (base : BasicType) (addressSpace : String) (modifiers : Nat)
  deriving DecidableEq, Repr

/-- The type that is returned is the first one of a signature. -/
structure BuiltinSign where
  ret : BasicType
  params : List BasicType
  deriving DecidableEq, Repr

def BuiltinSign.types (sign : BuiltinSign) : List BasicType := sign.ret :: sign.params

/-- The vector types that there are. None has more components than there are digits for a swizzle. -/
structure TypesTable where
  hasVector : String → Nat → Bool
  width_le : ∀ base width, hasVector base width = true → width ≤ 16

namespace TypesTable

variable (T : TypesTable)

def getVectorType (base : String) (width : Nat) : Option BasicType :=
  if T.hasVector base width then some (.vector base width) else none

def has : BasicType → Bool
  | .scalar _ => true
  | .vector base width => T.hasVector base width
  | .pointer base _ _ => has base

end TypesTable

/-- A builtin with its signatures, which are overloads of one another. -/
structure Builtin (T : TypesTable) where
  name : String
  /-- The name that is called has the type that is returned in it. -/
  isCast : Bool
  signs : List BuiltinSign
  overloads : ∀ s ∈ signs, ∀ s' ∈ signs, s.params = s'.params → (isCast = true → s.ret = s'.ret) → s = s'
  types : ∀ s ∈ signs, ∀ t ∈ s.types, T.has t = true

/-! ## Bodies -/

/-- The name that is called, with the type in it. -/
abbrev InternalName := String × Option BasicType

/-- Arguments: a parameter, with what follows `.s`, and the element of a pointer. -/
inductive Expr where
  | param (i : Nat) (swizzle : Option (List Char))
  | element (castTy : BasicType) (i : Nat) (offset : Nat)
  deriving DecidableEq, Repr

structure Call where
  name : InternalName
  args : List Expr
  deriving DecidableEq, Repr

structure Tmp where
  type : BasicType
  call : Call
  deriving DecidableEq, Repr

/-- What is returned of `Tmp1` and `Tmp2`. -/
inductive Result where
  | concat
  | operator (op : String)
  deriving DecidableEq, Repr

inductive Body where
  | scalarImpl
  | split (tmp1 tmp2 : Tmp) (result : Result)
  | direct (calls : List Call)
  deriving DecidableEq, Repr

inductive EmitError where
  | fatal (msg : String)
  | noType
  deriving DecidableEq, Repr

/-! ## The emitter -/

def BasicType.strip : BasicType → BasicType
  | pointer base _ _ => base.strip
  | t => t

def BasicType.isVector : BasicType → Bool
  | vector _ _ => true
  | _ => false

def isScalarSignature (sign : BuiltinSign) : Bool := sign.types.all fun t => !t.strip.isVector

abbrev Range := Nat × Nat

def writeHex (i : Nat) : List Char := Nat.toDigits 16 i

def emitSubvector (range : Range) : Option (List Char) :=
  if range.1 < range.2 then some ((List.range' range.1 (range.2 - range.1)).flatMap writeHex) else none

def Builtin.getInternalName {T : TypesTable} (B : Builtin T) (ret : BasicType) : InternalName :=
  ("__builtin_ocl_" ++ B.name, if B.isCast then some ret else none)

section Emitter
variable {T : TypesTable} (B : Builtin T)

/-- The types and ranges of a type on the left and on the right. -/
def halves (T : TypesTable) : BasicType → Except EmitError ((Option BasicType × Range) × (Option BasicType × Range))
  | .scalar b => .ok ((some (.scalar b), (0, 0)), (some (.scalar b), (0, 0)))
  | .vector b n =>
    let n1 := n / 2
    let n2 := n - n / 2
    -- A vector of one component is a scalar.
    let lTy := if n1 = 1 then some (.scalar b) else T.getVectorType b n1
    let rTy := if n2 = 1 then some (.scalar b) else T.getVectorType b n2
    .ok ((lTy, (0, n1)), (rTy, (n1, n)))
  | .pointer _ _ _ => .error (.fatal "Type not supported by RecursiveSplit strategy!")

/-- A branch. A type that there is not is a null pointer, of which only the first is looked at. -/
def emitBranch (ret : Option BasicType) (ranges : List Range) : Except EmitError Tmp :=
  match ret with
  | some type =>
    .ok { type, call := { name := B.getInternalName type, args := ranges.mapIdx fun i r => .param (i + 1) (emitSubvector r) } }
  | none => .error .noType

/-- `EmitImplementationBody` for `OCLRecursiveSplit`. -/
def emitRecursiveSplit (reduction : Option String) (sign : BuiltinSign) : Except EmitError Body :=
  if isScalarSignature sign then .ok .scalarImpl
  else do
    let ret ← halves T sign.ret
    let params ← sign.params.mapM (halves T)
    let tmp1 ← emitBranch B ret.1.1 (params.map (·.1.2))
    let tmp2 ← emitBranch B ret.2.1 (params.map (·.2.2))
    match reduction with
    | some op => .ok (.split tmp1 tmp2 (.operator op))
    | none =>
      if sign.ret.isVector then .ok (.split tmp1 tmp2 .concat)
      else .error (.fatal ("RecursiveSplit: '" ++ B.name ++ "' has not a vector return type"))

inductive DirectSplitKind where
  | none | vector | ptrVector
  deriving DecidableEq, Repr

/-- The type for the scalar builtin. -/
def scalarize : BasicType → Except EmitError (BasicType × DirectSplitKind)
  | .scalar b => .ok (.scalar b, .none)
  | .vector b _ => .ok (.scalar b, .vector)
  | .pointer (.vector b _) space modifiers => .ok (.pointer (.scalar b) space modifiers, .ptrVector)
  | .pointer _ _ _ => .error (.fatal "Type not supported by DirectSplit strategy!")

/-- A parameter for component `i`. -/
def directArg (i : Nat) (pi : Nat) : BasicType × DirectSplitKind → Expr
  | (_, .none) => .param pi none
  | (_, .vector) => .param pi (some (writeHex i))
  | (ty, .ptrVector) => .element ty pi i

/-- `EmitImplementationBody` for `OCLDirectSplit`. -/
def emitDirectSplit (sign : BuiltinSign) : Except EmitError Body :=
  if isScalarSignature sign then .ok .scalarImpl
  else
    match sign.ret with
    | .vector b n => do
      let params ← sign.params.mapM scalarize
      .ok (.direct ((List.range n).map fun i =>
        { name := B.getInternalName (.scalar b), args := params.mapIdx fun j p => directArg i (j + 1) p }))
    | _ => .error (.fatal ("DirectSplit: '" ++ B.name ++ "' has not a vector return type"))

inductive Strategy where
  | recursiveSplit (reduction : Option String)
  | directSplit
  deriving DecidableEq, Repr

def emit : Strategy → BuiltinSign → Except EmitError Body
  | .recursiveSplit reduction => emitRecursiveSplit B reduction
  | .directSplit => emitDirectSplit B

end Emitter

/-! ## What a body does -/

/-- The value of an argument; a pointer goes to an element, counted in scalars. -/
inductive Arg (S P : Type) where
  | scalar (s : S)
  | vector (lanes : List S)
  | pointer (p : P) (offset : Nat)

def Arg.ofLanes {S P : Type} : List S → Arg S P
  | [s] => .scalar s
  | lanes => .vector lanes

def digitValue (c : Char) : Option Nat := "0123456789abcdef".toList.idxOf? c.toLower

def swizzled (T : TypesTable) : BasicType → List Nat → Option BasicType
  | .vector b n, lanes =>
    if ∀ i ∈ lanes, i < n then (if lanes.length = 1 then some (.scalar b) else T.getVectorType b lanes.length) else none
  | _, _ => none

def Expr.type (T : TypesTable) (sign : BuiltinSign) : Expr → Option BasicType
  | param i none => sign.params[i - 1]?
  | param i (some digits) => do swizzled T (← sign.params[i - 1]?) (← digits.mapM digitValue)
  | element castTy i _ =>
    match sign.params[i - 1]? with
    | some (.pointer _ _ _) => some castTy
    | _ => none

def Arg.select {S P : Type} : Arg S P → List Nat → Option (Arg S P)
  | vector lanes, is => (is.mapM (lanes[·]?)).map ofLanes
  | _, _ => none

def Arg.advance {S P : Type} (offset : Nat) : Arg S P → Option (Arg S P)
  | pointer p k => some (pointer p (k + offset))
  | _ => none

def Expr.eval {S P : Type} (args : List (Arg S P)) : Expr → Option (Arg S P)
  | param i none => args[i - 1]?
  | param i (some digits) => do (← args[i - 1]?).select (← digits.mapM digitValue)
  | element _ i offset => (args[i - 1]?).bind (Arg.advance offset)

/-- How many components of a vector of `base` a value is. -/
def BasicType.components (base : String) : BasicType → Option Nat
  | scalar b => if b = base then some 1 else none
  | vector b n => if b = base then some n else none
  | pointer _ _ _ => none

/-- The overload that a call finds. -/
def Builtin.resolve {T : TypesTable} (B : Builtin T) (name : InternalName) (types : List BasicType) : Option BuiltinSign :=
  B.signs.find? fun s => B.getInternalName s.ret = name ∧ s.params = types

section Execution
variable {T : TypesTable} (B : Builtin T) {S P : Type} {m : Type → Type} [Monad m]
  (impl : List (Arg S P) → m S) (operation : String → S → S → S)

/-- What is returned, if it has the type. -/
def Result.combine (ret type1 type2 : BasicType) : Result → Option (List S → List S → List S)
  | concat =>
    match ret with
    | .vector b n => do
      if (← type1.components b) + (← type2.components b) = n then some (· ++ ·) else none
    | _ => none
  | operator op => if type1 = ret ∧ type2 = ret then some (List.zipWith (operation op)) else none

def execCall (exec : BuiltinSign → List (Arg S P) → Option (m (List S))) (sign : BuiltinSign) (args : List (Arg S P))
    (type : BasicType) (c : Call) : Option (m (List S)) := do
  let callee ← B.resolve c.name (← c.args.mapM (Expr.type T sign))
  let values ← c.args.mapM (Expr.eval args)
  if callee.ret = type then exec callee values else none

/-- What a builtin does with arguments, if its body compiles. -/
def exec (strategy : Strategy) : Nat → BuiltinSign → List (Arg S P) → Option (m (List S))
  | 0, _, _ => none
  | fuel + 1, sign, args =>
    match emit B strategy sign with
    | .error _ => none
    -- The body of the implementation itself.
    | .ok .scalarImpl => some ((fun s => [s]) <$> impl args)
    -- Both branches are called before they are joined.
    | .ok (.split tmp1 tmp2 result) => do
      let run1 ← execCall B (exec strategy fuel) sign args tmp1.type tmp1.call
      let run2 ← execCall B (exec strategy fuel) sign args tmp2.type tmp2.call
      let combine ← result.combine operation sign.ret tmp1.type tmp2.type
      some do
        let lanes1 ← run1
        let lanes2 ← run2
        pure (combine lanes1 lanes2)
    | .ok (.direct calls) =>
      match sign.ret with
      | .vector b n => do
        let runs ← calls.mapM fun c => execCall B (exec strategy fuel) sign args (.scalar b) c
        if calls.length = n then some (List.flatten <$> runs.mapM id) else none
      | _ => none

end Execution

/-! ## What a builtin should do -/

/-- The type with vectors of another width. -/
def BasicType.withWidth (w : Nat) : BasicType → BasicType
  | scalar b => scalar b
  | vector b _ => if w = 1 then scalar b else vector b w
  | pointer base space modifiers => pointer (base.withWidth w) space modifiers

def BuiltinSign.withWidth (w : Nat) (sign : BuiltinSign) : BuiltinSign where
  ret := sign.ret.withWidth w
  params := sign.params.map (·.withWidth w)

/-- Scalars and vectors of a width. -/
inductive BasicType.OfWidth (n : Nat) : BasicType → Prop
  | scalar (b : String) : OfWidth n (.scalar b)
  | vector (b : String) : OfWidth n (.vector b n)

/-- And pointers to such vectors. -/
inductive BasicType.Splittable (n : Nat) : BasicType → Prop
  | value {t : BasicType} : t.OfWidth n → Splittable n t
  | pointer (b space : String) (modifiers : Nat) : Splittable n (.pointer (.vector b n) space modifiers)

/-- The widths that halving comes to. -/
inductive Part (n : Nat) : Nat → Prop
  | whole : Part n n
  | left {w : Nat} : Part n w → 2 ≤ w → Part n (w / 2)
  | right {w : Nat} : Part n w → 2 ≤ w → Part n (w - w / 2)

/-- The signatures for a strategy over vectors of a width: those that it goes on to exist. A reduction has a scalar for
its result. -/
inductive Splits {T : TypesTable} (B : Builtin T) (n : Nat) (sign : BuiltinSign) : Strategy → Prop
  | recursiveSplit {reduction : Option String} : (∀ t ∈ sign.types, t.OfWidth n) → (∃ t ∈ sign.types, t.isVector = true) →
      sign.ret.isVector = reduction.isNone → (∀ w, Part n w → sign.withWidth w ∈ B.signs) →
      Splits B n sign (.recursiveSplit reduction)
  | directSplit : sign.ret.isVector = true → (∀ t ∈ sign.types, t.Splittable n) → sign ∈ B.signs →
      sign.withWidth 1 ∈ B.signs → Splits B n sign .directSplit

section Lanes
variable {S P : Type}

/-- Arguments that a parameter can have. -/
inductive Fits : Arg S P → BasicType → Prop
  | scalar (s : S) (b : String) : Fits (.scalar s) (.scalar b)
  | vector (lanes : List S) (b : String) : Fits (.vector lanes) (.vector b lanes.length)
  | pointer (p : P) (offset : Nat) (base : BasicType) (space : String) (modifiers : Nat) :
      Fits (.pointer p offset) (.pointer base space modifiers)

/-- What the scalar implementation has for lane `i`. -/
def Arg.lane (i : Nat) : Arg S P → Arg S P
  | scalar s => scalar s
  | vector lanes =>
    match lanes[i]? with
    | some s => scalar s
    | none => vector lanes
  | pointer p offset => pointer p (offset + i)

/-- The results of the lanes in the result of the builtin. -/
def Strategy.combined (operation : String → S → S → S) : Strategy → List S → List S
  | recursiveSplit (some op), r :: rs => [rs.foldl (operation op) r]
  | _, rs => rs

end Lanes

/-! ## Swizzles -/

section Swizzles
variable {S P : Type}

theorem digitValue_writeHex : ∀ i < 16, (writeHex i).mapM digitValue = some [i] := by
  decide

theorem mapM_digitValue {is : List Nat} (h : ∀ i ∈ is, i < 16) : (is.flatMap writeHex).mapM digitValue = some is := by
  induction is with
  | nil => rfl
  | cons i is ih =>
    rw [List.forall_mem_cons] at h
    rw [List.flatMap_cons, List.mapM_append, digitValue_writeHex i h.1, ih h.2]
    rfl

theorem mapM_getElem? (lanes : List S) {a n : Nat} (h : a + n ≤ lanes.length) :
    (List.range' a n).mapM (lanes[·]?) = some ((lanes.drop a).take n) := by
  induction n generalizing a with
  | zero => rfl
  | succ n ih =>
    have hlt : a < lanes.length := by omega
    rw [List.range'_succ, List.mapM_cons, List.getElem?_eq_getElem hlt, ih (by omega), List.drop_eq_getElem_cons hlt]
    rfl

/-- The lanes of a part of a vector. -/
def Arg.slice (a n : Nat) : Arg S P → Arg S P
  | vector lanes => ofLanes ((lanes.drop a).take n)
  | x => x

theorem lane_ofLanes {lanes : List S} {i : Nat} {s : S} (h : lanes[i]? = some s) :
    (Arg.ofLanes lanes : Arg S P).lane i = .scalar s := by
  match lanes with
  | [] => cases h
  | [s'] =>
    cases i with
    | zero => exact congrArg Arg.scalar (Option.some.inj h)
    | succ i => cases h
  | s₁ :: s₂ :: lanes => rw [Arg.ofLanes, Arg.lane, h]; nofun

theorem ofLanes_eq_vector {lanes : List S} (h : lanes.length ≠ 1) : (Arg.ofLanes lanes : Arg S P) = .vector lanes := by
  match lanes with
  | [] => rfl
  | [_] => exact absurd rfl h
  | _ :: _ :: _ => rfl

theorem fits_ofLanes (lanes : List S) (b : String) :
    Fits (Arg.ofLanes lanes : Arg S P) (if lanes.length = 1 then .scalar b else .vector b lanes.length) := by
  split
  · rename_i h
    obtain ⟨s, rfl⟩ := List.length_eq_one_iff.1 h
    exact .scalar s b
  · rename_i h
    rw [ofLanes_eq_vector h]
    exact .vector lanes b

/-- A part of an argument fits the type of the part, and has the lanes of the part. -/
theorem fits_slice {arg : Arg S P} {t : BasicType} {N w a n : Nat} (ht : t.OfWidth N) (hw : w ≠ 1)
    (h : Fits arg (t.withWidth w)) (hle : a + n ≤ w) :
    Fits (arg.slice a n) (t.withWidth n) ∧ ∀ i < n, (arg.slice a n).lane i = arg.lane (a + i) := by
  cases ht with
  | scalar b =>
    cases h with
    | scalar s => exact ⟨.scalar s b, fun _ _ => rfl⟩
  | vector b =>
    rw [BasicType.withWidth, if_neg hw] at h
    cases h with
    | vector lanes =>
      have hlength : ((lanes.drop a).take n).length = n := by
        rw [List.length_take, List.length_drop]
        omega
      have hfits := fits_ofLanes (P := P) ((lanes.drop a).take n) b
      rw [hlength] at hfits
      refine ⟨hfits, fun i hi => ?_⟩
      have hlt : a + i < lanes.length := by omega
      have hget : ((lanes.drop a).take n)[i]? = some lanes[a + i] := by
        rw [List.getElem?_take_of_lt hi, List.getElem?_drop, List.getElem?_eq_getElem hlt]
      rw [Arg.slice, lane_ofLanes hget, Arg.lane, List.getElem?_eq_getElem hlt]

end Swizzles

/-! ## Runs -/

section Runs
variable {α β γ : Type} {m : Type → Type} [Monad m] [LawfulMonad m]

theorem mapM_congr {f g : α → m β} {l : List α} (h : ∀ x ∈ l, f x = g x) : l.mapM f = l.mapM g := by
  induction l with
  | nil => rfl
  | cons x l ih =>
    rw [List.forall_mem_cons] at h
    rw [List.mapM_cons, List.mapM_cons, h.1, ih h.2]

theorem mapM_eq_pure {f : α → m β} {g : α → β} {l : List α} (h : ∀ x ∈ l, f x = pure (g x)) :
    l.mapM f = pure (l.map g) :=
  (mapM_congr h).trans List.mapM_pure

/-- What comes after a loop has a result for each turn. -/
theorem mapM_bind_congr {f : α → m β} {l : List α} {g g' : List β → m γ} (h : ∀ rs, rs.length = l.length → g rs = g' rs) :
    l.mapM f >>= g = l.mapM f >>= g' := by
  induction l generalizing g g' with
  | nil =>
    rw [List.mapM_nil, pure_bind, pure_bind]
    exact h [] rfl
  | cons x l ih =>
    rw [List.mapM_cons, bind_assoc, bind_assoc]
    congr
    funext r
    rw [bind_assoc, bind_assoc]
    refine ih fun rs hrs => ?_
    rw [pure_bind, pure_bind]
    exact h (r :: rs) (congrArg Nat.succ hrs)

/-- Runs of one result each, put together. -/
theorem flatten_mapM (f : α → m β) (l : List α) :
    List.flatten <$> l.mapM (fun x => (fun r => [r]) <$> f x) = l.mapM f := by
  induction l with
  | nil => simp
  | cons x l ih =>
    rw [List.mapM_cons, List.mapM_cons, ← ih]
    simp

end Runs

/-! ## The branches -/

theorem mapM_mapIdx {α β γ : Type} {f : Nat → α → β} {g : β → Option γ} {l : List α} {r : List γ}
    (hlength : l.length = r.length) (h : ∀ i x y, l[i]? = some x → r[i]? = some y → g (f i x) = some y) :
    (l.mapIdx f).mapM g = some r := by
  induction l generalizing f r with
  | nil =>
    rw [List.eq_nil_of_length_eq_zero hlength.symm]
    rfl
  | cons x l ih =>
    cases r with
    | nil => cases hlength
    | cons y r =>
      have hrest := ih (f := fun i => f (i + 1)) (Nat.succ.inj hlength) fun i x' y' hx hy => h (i + 1) x' y' hx hy
      rw [List.mapIdx_cons, List.mapM_cons, h 0 x y rfl rfl, hrest]
      rfl

theorem fits_of_getElem? {S P : Type} {args : List (Arg S P)} {ts : List BasicType} (h : List.Forall₂ Fits args ts) {i : Nat}
    {arg : Arg S P} {t : BasicType} (ha : args[i]? = some arg) (ht : ts[i]? = some t) : Fits arg t := by
  induction h generalizing i with
  | nil => cases ha
  | cons hfits _ ih =>
    cases i with
    | zero =>
      cases ha
      cases ht
      exact hfits
    | succ i => exact ih ha ht

section Branches
variable {T : TypesTable} {B : Builtin T} {S P : Type} {sign : BuiltinSign} {N w a b : Nat}

/-- The range of a type in a branch. -/
def partRange (a b : Nat) (t : BasicType) : Range := if t.isVector then (a, b) else (0, 0)

theorem getVectorType_of_has {base : String} {n : Nat} (h : T.has ((BasicType.vector base N).withWidth n) = true) :
    (if n = 1 then some (.scalar base) else T.getVectorType base n) = some ((BasicType.vector base N).withWidth n) := by
  rw [BasicType.withWidth] at h ⊢
  split
  · rfl
  · rename_i hn
    rw [if_neg hn] at h
    exact if_pos h

/-- The halves of a type with vectors of width `w`. -/
def halvesOf (w : Nat) (t : BasicType) : (Option BasicType × Range) × (Option BasicType × Range) :=
  ((some (t.withWidth (w / 2)), partRange 0 (w / 2) t), (some (t.withWidth (w - w / 2)), partRange (w / 2) w t))

theorem halves_withWidth {t : BasicType} (ht : t.OfWidth N) (hw : w ≠ 1) (hleft : T.has (t.withWidth (w / 2)) = true)
    (hright : T.has (t.withWidth (w - w / 2)) = true) : halves T (t.withWidth w) = .ok (halvesOf w t) := by
  cases ht with
  | scalar b => rfl
  | vector b =>
    have hself : (BasicType.vector b N).withWidth w = .vector b w := if_neg hw
    rw [hself]
    simp only [halves, getVectorType_of_has hleft, getVectorType_of_has hright]
    rfl

theorem type_branch (hsign : ∀ t ∈ sign.types, t.OfWidth N) (hw : w ≠ 1) (hw16 : w ≤ 16) (hab : a < b) (hb : b ≤ w)
    {i : Nat} {t : BasicType} (ht : sign.params[i]? = some t) (hhas : T.has (t.withWidth (b - a)) = true) :
    Expr.type T (sign.withWidth w) (.param (i + 1) (emitSubvector (partRange a b t))) = some (t.withWidth (b - a)) := by
  have hparam : (sign.withWidth w).params[i + 1 - 1]? = some (t.withWidth w) := by
    rw [Nat.add_sub_cancel, BuiltinSign.withWidth, List.getElem?_map, ht]
    rfl
  cases hsign t (List.mem_cons_of_mem _ (List.mem_of_getElem? ht)) with
  | scalar base => exact hparam
  | vector base =>
    have hself : (BasicType.vector base N).withWidth w = .vector base w := if_neg hw
    have hdigits : emitSubvector (partRange a b (.vector base N)) = some ((List.range' a (b - a)).flatMap writeHex) :=
      if_pos hab
    have hlt : ∀ i ∈ List.range' a (b - a), i < w := fun i hi => by
      have := (List.mem_range'_1.1 hi).2
      omega
    have hvalues := mapM_digitValue fun i hi => Nat.lt_of_lt_of_le (hlt i hi) hw16
    have hswizzled : swizzled T (.vector base w) (List.range' a (b - a)) =
        some ((BasicType.vector base N).withWidth (b - a)) := by
      rw [swizzled, if_pos hlt, List.length_range']
      exact getVectorType_of_has hhas
    rw [hdigits, Expr.type, hparam, hself, hvalues]
    exact hswizzled

theorem eval_branch {args : List (Arg S P)} (hsign : ∀ t ∈ sign.types, t.OfWidth N) (hw : w ≠ 1) (hw16 : w ≤ 16)
    (hab : a < b) (hb : b ≤ w) (hargs : List.Forall₂ Fits args (sign.withWidth w).params) {i : Nat} {t : BasicType}
    (ht : sign.params[i]? = some t) {arg : Arg S P} (harg : args[i]? = some arg) :
    Expr.eval args (.param (i + 1) (emitSubvector (partRange a b t))) = some (arg.slice a (b - a)) := by
  have hparam : (sign.withWidth w).params[i]? = some (t.withWidth w) := by
    rw [BuiltinSign.withWidth, List.getElem?_map, ht]
    rfl
  have hfits := fits_of_getElem? hargs harg hparam
  cases hsign t (List.mem_cons_of_mem _ (List.mem_of_getElem? ht)) with
  | scalar base =>
    cases hfits with
    | scalar s => exact harg
  | vector base =>
    rw [BasicType.withWidth, if_neg hw] at hfits
    cases hfits with
    | vector lanes =>
      have hdigits : emitSubvector (partRange a b (.vector base N)) = some ((List.range' a (b - a)).flatMap writeHex) :=
        if_pos hab
      have hvalues : ((List.range' a (b - a)).flatMap writeHex).mapM digitValue = some (List.range' a (b - a)) :=
        mapM_digitValue fun i hi => by
          have := (List.mem_range'_1.1 hi).2
          omega
      have harg' : args[i + 1 - 1]? = some (.vector lanes) := harg
      rw [hdigits, Expr.eval, harg', hvalues]
      exact congrArg (Option.map Arg.ofLanes) (mapM_getElem? lanes (by omega))

/-- A signature that there is is found by its parameters. -/
theorem resolve_of_mem {s : BuiltinSign} (h : s ∈ B.signs) : B.resolve (B.getInternalName s.ret) s.params = some s := by
  unfold Builtin.resolve
  cases hfind : B.signs.find? fun s' => B.getInternalName s'.ret = B.getInternalName s.ret ∧ s'.params = s.params with
  | none => exact absurd (decide_eq_true ⟨rfl, rfl⟩) (List.find?_eq_none.1 hfind s h)
  | some s' =>
    have hfound := List.find?_some hfind
    rw [decide_eq_true_eq] at hfound
    obtain ⟨hname, hparams⟩ := hfound
    have hret : B.isCast = true → s'.ret = s.ret := fun hcast => by
      have hsnd := (Prod.mk.inj hname).2
      rw [if_pos hcast, if_pos hcast] at hsnd
      exact Option.some.inj hsnd
    rw [B.overloads s' (List.mem_of_find?_eq_some hfind) s h hparams hret]

/-- A branch, for the components from `a` to `b`. -/
def branch (B : Builtin T) (sign : BuiltinSign) (a b : Nat) : Tmp where
  type := sign.ret.withWidth (b - a)
  call := { name := B.getInternalName (sign.ret.withWidth (b - a))
            args := (sign.params.map (partRange a b)).mapIdx fun i r => .param (i + 1) (emitSubvector r) }

/-- A branch is the builtin on the parts of the arguments. -/
theorem execCall_branch {m : Type → Type} {run : BuiltinSign → List (Arg S P) → Option (m (List S))} {args : List (Arg S P)}
    (hsign : ∀ t ∈ sign.types, t.OfWidth N) (hw : w ≠ 1) (hw16 : w ≤ 16) (hab : a < b) (hb : b ≤ w)
    (hmem : sign.withWidth (b - a) ∈ B.signs) (hargs : List.Forall₂ Fits args (sign.withWidth w).params) :
    execCall B run (sign.withWidth w) args (branch B sign a b).type (branch B sign a b).call =
      run (sign.withWidth (b - a)) (args.map (Arg.slice a (b - a))) := by
  have hrange : ∀ {i : Nat} {r : Range}, (sign.params.map (partRange a b))[i]? = some r →
      ∃ t, sign.params[i]? = some t ∧ partRange a b t = r := fun h => by
    rwa [List.getElem?_map, Option.map_eq_some_iff] at h
  have htypes : (branch B sign a b).call.args.mapM (Expr.type T (sign.withWidth w)) =
      some (sign.withWidth (b - a)).params := by
    refine mapM_mapIdx (by simp [BuiltinSign.withWidth]) fun i r y hr hy => ?_
    obtain ⟨t, ht, rfl⟩ := hrange hr
    rw [BuiltinSign.withWidth, List.getElem?_map, ht] at hy
    obtain rfl := Option.some.inj hy
    have hhas := B.types _ hmem (t.withWidth (b - a))
      (List.mem_cons_of_mem _ (List.mem_map_of_mem (List.mem_of_getElem? ht)))
    exact type_branch hsign hw hw16 hab hb ht hhas
  have hvalues : (branch B sign a b).call.args.mapM (Expr.eval args) = some (args.map (Arg.slice a (b - a))) := by
    refine mapM_mapIdx (by simpa [BuiltinSign.withWidth] using hargs.length_eq.symm) fun i r y hr hy => ?_
    obtain ⟨t, ht, rfl⟩ := hrange hr
    rw [List.getElem?_map, Option.map_eq_some_iff] at hy
    obtain ⟨arg, harg, rfl⟩ := hy
    exact eval_branch hsign hw hw16 hab hb hargs ht harg
  have hresolve := resolve_of_mem hmem
  rw [execCall, htypes]
  simp only [Option.bind_eq_bind, Option.bind_some, hvalues]
  rw [show (branch B sign a b).call.name = B.getInternalName (sign.withWidth (b - a)).ret from rfl, hresolve]
  exact if_pos rfl

theorem not_isScalarSignature (hvector : ∃ t ∈ sign.types, t.isVector = true) (hw : w ≠ 1) :
    isScalarSignature (sign.withWidth w) = false := by
  obtain ⟨t, ht, hvec⟩ := hvector
  have hmem : t.withWidth w ∈ (sign.withWidth w).types := List.mem_map_of_mem (f := fun t => t.withWidth w) ht
  refine List.all_eq_false.2 ⟨_, hmem, ?_⟩
  cases t with
  | vector b n =>
    rw [BasicType.withWidth, if_neg hw]
    exact Bool.false_ne_true
  | scalar | pointer => cases hvec

theorem isScalarSignature_one (hsign : ∀ t ∈ sign.types, t.OfWidth N) : isScalarSignature (sign.withWidth 1) = true := by
  refine List.all_eq_true.2 fun t ht => ?_
  have hmem : t ∈ sign.types.map (·.withWidth 1) := ht
  obtain ⟨t', ht', rfl⟩ := List.mem_map.1 hmem
  cases hsign t' ht' <;> rfl

def resultOf (reduction : Option String) : Result :=
  match reduction with
  | some op => .operator op
  | none => .concat

/-- What is emitted for a vector of two components or more. -/
theorem emitRecursiveSplit_eq {reduction : Option String} (hsign : ∀ t ∈ sign.types, t.OfWidth N)
    (hvector : ∃ t ∈ sign.types, t.isVector = true) (hret : sign.ret.isVector = reduction.isNone) (hw : w ≠ 1)
    (hleft : sign.withWidth (w / 2) ∈ B.signs) (hright : sign.withWidth (w - w / 2) ∈ B.signs) :
    emitRecursiveSplit B reduction (sign.withWidth w) =
      .ok (.split (branch B sign 0 (w / 2)) (branch B sign (w / 2) w) (resultOf reduction)) := by
  have hhalves : ∀ t ∈ sign.types, halves T (t.withWidth w) = .ok (halvesOf w t) := fun t ht =>
    halves_withWidth (hsign t ht) hw
      (B.types _ hleft _ (List.mem_map_of_mem (f := fun t => t.withWidth (w / 2)) ht))
      (B.types _ hright _ (List.mem_map_of_mem (f := fun t => t.withWidth (w - w / 2)) ht))
  have hreturn : halves T (sign.withWidth w).ret = .ok (halvesOf w sign.ret) := hhalves sign.ret List.mem_cons_self
  have hparams : (sign.withWidth w).params.mapM (halves T) = .ok (sign.params.map (halvesOf w)) := by
    rw [BuiltinSign.withWidth, List.mapM_map]
    exact mapM_eq_pure fun t ht => hhalves t (List.mem_cons_of_mem sign.ret ht)
  have htmp1 : emitBranch B (some (sign.ret.withWidth (w / 2))) (sign.params.map (partRange 0 (w / 2))) =
      .ok (branch B sign 0 (w / 2)) := rfl
  have htmp2 : emitBranch B (some (sign.ret.withWidth (w - w / 2))) (sign.params.map (partRange (w / 2) w)) =
      .ok (branch B sign (w / 2) w) := rfl
  have hscalar := not_isScalarSignature hvector hw
  rw [emitRecursiveSplit, if_neg (by rw [hscalar]; exact Bool.false_ne_true), hreturn, hparams]
  simp only [bind, Except.bind, List.map_map, Function.comp_def, halvesOf, htmp1, htmp2]
  cases reduction with
  | some op => rfl
  | none =>
    have hwidth : (sign.withWidth w).ret.isVector = true := by
      cases hr : sign.ret with
      | vector b n =>
        rw [BuiltinSign.withWidth, hr, BasicType.withWidth, if_neg hw]
        rfl
      | scalar | pointer =>
        rw [hr] at hret
        cases hret
    exact if_pos hwidth

end Branches

/-! ## The components -/

section Components
variable {T : TypesTable} {B : Builtin T} {S P : Type} {sign : BuiltinSign} {n : Nat}

def kindOf : BasicType → DirectSplitKind
  | .scalar _ => .none
  | .vector _ _ => .vector
  | .pointer _ _ _ => .ptrVector

theorem scalarize_eq {t : BasicType} (h : t.Splittable n) : scalarize t = .ok (t.withWidth 1, kindOf t) := by
  cases h with
  | value ht => cases ht <;> rfl
  | pointer => rfl

/-- The call for component `i`. -/
def component (B : Builtin T) (sign : BuiltinSign) (b : String) (i : Nat) : Call where
  name := B.getInternalName (.scalar b)
  args := (sign.params.map fun t => (t.withWidth 1, kindOf t)).mapIdx fun j p => directArg i (j + 1) p

theorem emitDirectSplit_eq {b : String} (hret : sign.ret = .vector b n) (hsign : ∀ t ∈ sign.types, t.Splittable n) :
    emitDirectSplit B sign = .ok (.direct ((List.range n).map (component B sign b))) := by
  have hscalar : isScalarSignature sign = false := by
    refine List.all_eq_false.2 ⟨sign.ret, List.mem_cons_self, ?_⟩
    rw [hret]
    exact Bool.false_ne_true
  have hparams : sign.params.mapM scalarize = .ok (sign.params.map fun t => (t.withWidth 1, kindOf t)) :=
    mapM_eq_pure fun t ht => scalarize_eq (hsign t (List.mem_cons_of_mem sign.ret ht))
  rw [emitDirectSplit, if_neg (by rw [hscalar]; exact Bool.false_ne_true), hret]
  simp only [hparams]
  rfl

theorem type_directArg {i j : Nat} {t : BasicType} (ht : t.Splittable n) (hi : i < n) (hn : n ≤ 16)
    (hparam : sign.params[j]? = some t) :
    Expr.type T sign (directArg i (j + 1) (t.withWidth 1, kindOf t)) = some (t.withWidth 1) := by
  have hparam' : sign.params[j + 1 - 1]? = some t := hparam
  cases ht with
  | value ht =>
    cases ht with
    | scalar b => exact hparam
    | vector b =>
      have hlt : ∀ k ∈ [i], k < n := fun k hk => List.mem_singleton.1 hk ▸ hi
      have hswizzled : swizzled T (.vector b n) [i] = some (.scalar b) := if_pos hlt
      simp only [kindOf, directArg, Expr.type, hparam', digitValue_writeHex i (Nat.lt_of_lt_of_le hi hn)]
      exact hswizzled
  | pointer b space modifiers => simp only [kindOf, directArg, Expr.type, hparam']

theorem eval_directArg {args : List (Arg S P)} {i j : Nat} {t : BasicType} (ht : t.Splittable n) (hi : i < n) (hn : n ≤ 16)
    {arg : Arg S P} (harg : args[j]? = some arg) (hfits : Fits arg t) :
    Expr.eval args (directArg i (j + 1) (t.withWidth 1, kindOf t)) = some (arg.lane i) := by
  have harg' : args[j + 1 - 1]? = some arg := harg
  cases ht with
  | value ht =>
    cases ht with
    | scalar b =>
      cases hfits with
      | scalar s => exact harg
    | vector b =>
      cases hfits with
      | vector lanes =>
        have hget : lanes[i]? = some lanes[i] := List.getElem?_eq_getElem hi
        simp only [kindOf, directArg, Expr.eval, harg', digitValue_writeHex i (Nat.lt_of_lt_of_le hi hn),
          Option.bind_eq_bind, Option.bind_some, Arg.select, List.mapM_cons, List.mapM_nil, hget, Arg.lane]
        rfl
  | pointer b space modifiers =>
    cases hfits with
    | pointer p offset => simp only [kindOf, directArg, Expr.eval, harg', Option.bind_some, Arg.advance, Arg.lane]

theorem isScalarSignature_of_splittable (hsign : ∀ t ∈ sign.types, t.Splittable n) :
    isScalarSignature (sign.withWidth 1) = true := by
  refine List.all_eq_true.2 fun t ht => ?_
  have hmem : t ∈ sign.types.map (·.withWidth 1) := ht
  obtain ⟨t', ht', rfl⟩ := List.mem_map.1 hmem
  cases hsign t' ht' with
  | value h => cases h <;> rfl
  | pointer => rfl

theorem execCall_component {m : Type → Type} {run : BuiltinSign → List (Arg S P) → Option (m (List S))}
    {args : List (Arg S P)} {b : String}
    (hret : sign.ret = .vector b n) (hsign : ∀ t ∈ sign.types, t.Splittable n) (hmem : sign.withWidth 1 ∈ B.signs)
    (hn : n ≤ 16) (hargs : List.Forall₂ Fits args sign.params) {i : Nat} (hi : i < n) :
    execCall B run sign args (.scalar b) (component B sign b i) = run (sign.withWidth 1) (args.map (Arg.lane i)) := by
  have hsplittable : ∀ {j : Nat} {t : BasicType}, sign.params[j]? = some t → t.Splittable n := fun ht =>
    hsign _ (List.mem_cons_of_mem _ (List.mem_of_getElem? ht))
  have hparam : ∀ {j : Nat} {p : BasicType × DirectSplitKind},
      (sign.params.map fun t => (t.withWidth 1, kindOf t))[j]? = some p →
        ∃ t, sign.params[j]? = some t ∧ (t.withWidth 1, kindOf t) = p := fun h => by
    rwa [List.getElem?_map, Option.map_eq_some_iff] at h
  have htypes : (component B sign b i).args.mapM (Expr.type T sign) = some (sign.withWidth 1).params := by
    refine mapM_mapIdx (by simp [BuiltinSign.withWidth]) fun j p y hp hy => ?_
    obtain ⟨t, ht, rfl⟩ := hparam hp
    rw [BuiltinSign.withWidth, List.getElem?_map, ht] at hy
    obtain rfl := Option.some.inj hy
    exact type_directArg (hsplittable ht) hi hn ht
  have hvalues : (component B sign b i).args.mapM (Expr.eval args) = some (args.map (Arg.lane i)) := by
    refine mapM_mapIdx (by simpa using hargs.length_eq.symm) fun j p y hp hy => ?_
    obtain ⟨t, ht, rfl⟩ := hparam hp
    rw [List.getElem?_map, Option.map_eq_some_iff] at hy
    obtain ⟨arg, harg, rfl⟩ := hy
    exact eval_directArg (hsplittable ht) hi hn harg (fits_of_getElem? hargs harg ht)
  have hwidth : (sign.withWidth 1).ret = .scalar b := by
    rw [BuiltinSign.withWidth, hret]
    rfl
  have hresolve := resolve_of_mem hmem
  rw [hwidth] at hresolve
  rw [execCall, htypes]
  simp only [Option.bind_eq_bind, Option.bind_some, hvalues]
  rw [show (component B sign b i).name = B.getInternalName (.scalar b) from rfl, hresolve]
  exact if_pos hwidth

end Components

/-! ## Putting results together -/

section Joining
variable {S : Type} (operation : String → S → S → S)

/-- How the results of the branches are put together. -/
def join (reduction : Option String) : List S → List S → List S :=
  match reduction with
  | some op => List.zipWith (operation op)
  | none => (· ++ ·)

theorem join_combined {reduction : Option String} (hassoc : ∀ op, reduction = some op → Std.Associative (operation op))
    {as bs : List S} (ha : as ≠ []) (hb : bs ≠ []) :
    join operation reduction ((Strategy.recursiveSplit reduction).combined operation as)
      ((Strategy.recursiveSplit reduction).combined operation bs) =
      (Strategy.recursiveSplit reduction).combined operation (as ++ bs) := by
  cases reduction with
  | none => rfl
  | some op =>
    cases as with
    | nil => exact absurd rfl ha
    | cons a as =>
      cases bs with
      | nil => exact absurd rfl hb
      | cons b bs =>
        have := hassoc op rfl
        rw [List.cons_append]
        simp only [Strategy.combined, join, List.zipWith_cons_cons, List.zipWith_nil_left, List.foldl_append,
          List.foldl_cons]
        rw [List.foldl_assoc]

/-- The lanes of the first branch, then those of the second. -/
theorem join_runs {m : Type → Type} [Monad m] [LawfulMonad m] {reduction : Option String}
    (hassoc : ∀ op, reduction = some op → Std.Associative (operation op)) (f : Nat → m S) {n n' : Nat} (hn : 0 < n)
    (hn' : 0 < n') :
    (do
      let as ← (Strategy.recursiveSplit reduction).combined operation <$> (List.range n).mapM f
      let bs ← (Strategy.recursiveSplit reduction).combined operation <$> (List.range n').mapM fun i => f (n + i)
      pure (join operation reduction as bs)) =
      (Strategy.recursiveSplit reduction).combined operation <$> (List.range (n + n')).mapM f := by
  rw [List.range_add, List.mapM_append, List.mapM_map, map_bind]
  simp only [bind_map_left, map_bind, map_pure]
  refine mapM_bind_congr fun as has => ?_
  refine mapM_bind_congr fun bs hbs => ?_
  rw [List.length_range] at has hbs
  rw [join_combined operation hassoc (List.ne_nil_of_length_pos (has ▸ hn)) (List.ne_nil_of_length_pos (hbs ▸ hn'))]

end Joining

/-! ## Splitting keeps the meaning -/

section Meaning
variable {T : TypesTable} {B : Builtin T} {S P : Type} {m : Type → Type} [Monad m] [LawfulMonad m]
  {impl : List (Arg S P) → m S} {operation : String → S → S → S} {sign : BuiltinSign} {n : Nat}

theorem components_withWidth (b : String) (k w : Nat) : ((BasicType.vector b k).withWidth w).components b = some w := by
  rw [BasicType.withWidth]
  split
  · rename_i hw
    rw [hw]
    exact if_pos rfl
  · exact if_pos rfl

/-- The types of the branches are such that their results can be put together. -/
theorem combine_resultOf {reduction : Option String} (hret : sign.ret.OfWidth n)
    (hreduction : sign.ret.isVector = reduction.isNone) {w : Nat} (hw : w ≠ 1) :
    (resultOf reduction).combine operation (sign.withWidth w).ret (sign.ret.withWidth (w / 2))
      (sign.ret.withWidth (w - w / 2)) = some (join operation reduction) := by
  cases reduction with
  | none =>
    cases hr : sign.ret with
    | vector b k =>
      have hself : (sign.withWidth w).ret = .vector b w := by
        rw [BuiltinSign.withWidth, hr]
        exact if_neg hw
      have hsum : w / 2 + (w - w / 2) = w := by omega
      rw [hself]
      simp only [resultOf, Result.combine, components_withWidth, Option.bind_eq_bind, Option.bind_some, if_pos hsum]
      rfl
    | scalar | pointer =>
      rw [hr] at hreduction
      cases hreduction
  | some op =>
    cases hr : sign.ret with
    | scalar b =>
      rw [BuiltinSign.withWidth, hr]
      exact if_pos ⟨rfl, rfl⟩
    | vector =>
      rw [hr] at hreduction
      cases hreduction
    | pointer =>
      rw [hr] at hret
      cases hret

theorem map_lane_of_scalar {args : List (Arg S P)} {ts : List BasicType} (hargs : List.Forall₂ Fits args ts)
    (hscalar : ∀ t ∈ ts, ∃ b, t = .scalar b) (i : Nat) : args.map (Arg.lane i) = args := by
  induction hargs with
  | nil => rfl
  | cons hfits _ ih =>
    rw [List.forall_mem_cons] at hscalar
    obtain ⟨⟨b, rfl⟩, hrest⟩ := hscalar
    cases hfits with
    | scalar s => exact congrArg (Arg.scalar s :: ·) (ih hrest)

/-- The parts of the arguments for a branch. -/
theorem forall₂_slice {args : List (Arg S P)} {ts : List BasicType} {w a k : Nat} (hts : ∀ t ∈ ts, t.OfWidth n) (hw : w ≠ 1)
    (hle : a + k ≤ w) (hargs : List.Forall₂ Fits args (ts.map (·.withWidth w))) :
    List.Forall₂ Fits (args.map (Arg.slice a k)) (ts.map (·.withWidth k)) ∧
      ∀ i < k, (args.map (Arg.slice a k)).map (Arg.lane i) = args.map (Arg.lane (a + i)) := by
  induction ts generalizing args with
  | nil =>
    cases hargs
    exact ⟨.nil, fun _ _ => rfl⟩
  | cons t ts ih =>
    rw [List.forall_mem_cons] at hts
    cases hargs with
    | cons hfits hrest =>
      obtain ⟨hslice, hlane⟩ := fits_slice hts.1 hw hfits hle
      obtain ⟨hslices, hlanes⟩ := ih hts.2 hrest
      exact ⟨.cons hslice hslices, fun i hi => congrArg₂ List.cons (hlane i hi) (hlanes i hi)⟩

/-- The builtin for a part of the vectors. -/
theorem exec_part {reduction : Option String} (hsign : ∀ t ∈ sign.types, t.OfWidth n)
    (hvector : ∃ t ∈ sign.types, t.isVector = true) (hret : sign.ret.isVector = reduction.isNone)
    (hparts : ∀ w, Part n w → sign.withWidth w ∈ B.signs) (hn : n ≤ 16)
    (hassoc : ∀ op, reduction = some op → Std.Associative (operation op)) {w : Nat} (hpart : Part n w) (hpos : 0 < w)
    (hle : w ≤ n) {fuel : Nat} (hfuel : w ≤ fuel) {args : List (Arg S P)}
    (hargs : List.Forall₂ Fits args (sign.withWidth w).params) :
    exec B impl operation (.recursiveSplit reduction) fuel (sign.withWidth w) args =
      some ((Strategy.recursiveSplit reduction).combined operation <$>
        (List.range w).mapM fun i => impl (args.map (Arg.lane i))) := by
  induction w using Nat.strongRecOn generalizing fuel args with
  | ind w ih =>
    cases fuel with
    | zero => omega
    | succ fuel =>
      by_cases hw : w = 1
      · subst hw
        have hscalar : ∀ t ∈ (sign.withWidth 1).params, ∃ b, t = .scalar b := by
          intro t ht
          obtain ⟨t', ht', rfl⟩ := List.mem_map.1 ht
          cases hsign t' (List.mem_cons_of_mem _ ht') with
          | scalar b => exact ⟨b, rfl⟩
          | vector b => exact ⟨b, rfl⟩
        have hemit : emit B (.recursiveSplit reduction) (sign.withWidth 1) = .ok .scalarImpl :=
          if_pos (isScalarSignature_one hsign)
        rw [exec, hemit, List.range_one, List.mapM_cons, List.mapM_nil, map_lane_of_scalar hargs hscalar]
        cases reduction <;> simp [Strategy.combined]
      · have hw2 : 2 ≤ w := by omega
        have hleft := Part.left hpart hw2
        have hright := Part.right hpart hw2
        have hemit : emit B (.recursiveSplit reduction) (sign.withWidth w) = _ :=
          emitRecursiveSplit_eq hsign hvector hret hw (hparts _ hleft) (hparts _ hright)
        obtain ⟨hargs1, hlanes1⟩ := forall₂_slice (a := 0) (k := w / 2)
          (fun t ht => hsign t (List.mem_cons_of_mem _ ht)) hw (by omega) hargs
        obtain ⟨hargs2, hlanes2⟩ := forall₂_slice (a := w / 2) (k := w - w / 2)
          (fun t ht => hsign t (List.mem_cons_of_mem _ ht)) hw (by omega) hargs
        have hrun1 := ih (w / 2) (by omega) hleft (by omega) (by omega) (show w / 2 ≤ fuel by omega) hargs1
        have hrun2 := ih (w - w / 2) (by omega) hright (by omega) (by omega) (show w - w / 2 ≤ fuel by omega) hargs2
        have hsame1 : (List.range (w / 2)).mapM (fun i => impl ((args.map (Arg.slice 0 (w / 2))).map (Arg.lane i))) =
            (List.range (w / 2)).mapM fun i => impl (args.map (Arg.lane i)) :=
          mapM_congr fun i hi => by rw [hlanes1 i (List.mem_range.1 hi), Nat.zero_add]
        have hsame2 : (List.range (w - w / 2)).mapM
              (fun i => impl ((args.map (Arg.slice (w / 2) (w - w / 2))).map (Arg.lane i))) =
            (List.range (w - w / 2)).mapM fun i => impl (args.map (Arg.lane (w / 2 + i))) :=
          mapM_congr fun i hi => by rw [hlanes2 i (List.mem_range.1 hi)]
        rw [hsame1] at hrun1
        rw [hsame2] at hrun2
        have hcall1 := (execCall_branch hsign hw (Nat.le_trans hle hn) (show 0 < w / 2 by omega) (by omega) (hparts _ hleft)
          hargs).trans hrun1
        have hcall2 := (execCall_branch hsign hw (Nat.le_trans hle hn) (show w / 2 < w by omega) (Nat.le_refl w) (hparts _ hright)
          hargs).trans hrun2
        have hsum : w / 2 + (w - w / 2) = w := by omega
        have hjoin := join_runs operation hassoc (fun i => impl (args.map (Arg.lane i))) (show 0 < w / 2 by omega)
          (show 0 < w - w / 2 by omega)
        rw [hsum] at hjoin
        rw [exec, hemit]
        simp only [hcall1, hcall2, Option.bind_eq_bind, Option.bind_some]
        rw [show (resultOf reduction).combine operation (sign.withWidth w).ret (branch B sign 0 (w / 2)).type
          (branch B sign (w / 2) w).type = _ from combine_resultOf (hsign _ List.mem_cons_self) hret hw]
        exact congrArg some hjoin

/-- The builtin that calls the one for scalars for each component. -/
theorem exec_direct (hret : sign.ret.isVector = true) (hsign : ∀ t ∈ sign.types, t.Splittable n) (hself : sign ∈ B.signs)
    (hmem : sign.withWidth 1 ∈ B.signs) {fuel : Nat} (hfuel : 2 ≤ fuel) {args : List (Arg S P)}
    (hargs : List.Forall₂ Fits args sign.params) :
    exec B impl operation .directSplit fuel sign args =
      some ((List.range n).mapM fun i => impl (args.map (Arg.lane i))) := by
  obtain ⟨b, hb⟩ : ∃ b, sign.ret = .vector b n := by
    have hfirst := hsign sign.ret List.mem_cons_self
    cases hr : sign.ret with
    | vector b k =>
      rw [hr] at hfirst
      cases hfirst with
      | value h =>
        cases h
        exact ⟨b, rfl⟩
    | scalar | pointer =>
      rw [hr] at hret
      cases hret
  have hn : n ≤ 16 := T.width_le b n (by simpa [hb, TypesTable.has] using B.types sign hself sign.ret List.mem_cons_self)
  match fuel, hfuel with
  | fuel + 2, _ =>
    have hscalar : ∀ args' : List (Arg S P), exec B impl operation .directSplit (fuel + 1) (sign.withWidth 1) args' =
        some ((fun s => [s]) <$> impl args') := fun args' => by
      have hemit : emit B .directSplit (sign.withWidth 1) = .ok .scalarImpl :=
        if_pos (isScalarSignature_of_splittable hsign)
      rw [exec, hemit]
    have hemit : emit B .directSplit sign = _ := emitDirectSplit_eq hb hsign
    have hcalls : ((List.range n).map (component B sign b)).mapM
        (execCall B (exec B impl operation .directSplit (fuel + 1)) sign args (.scalar b)) =
        some ((List.range n).map fun i => (fun s => [s]) <$> impl (args.map (Arg.lane i))) := by
      rw [List.mapM_map]
      exact mapM_eq_pure fun i hi => (execCall_component hb hsign hmem hn hargs (List.mem_range.1 hi)).trans (hscalar _)
    have hlength : ((List.range n).map (component B sign b)).length = n := by simp
    rw [exec, hemit, hb]
    simp only [hcalls, Option.bind_eq_bind, Option.bind_some, if_pos hlength]
    rw [List.mapM_map]
    exact congrArg some (flatten_mapM _ _)

theorem withWidth_self (hsign : ∀ t ∈ sign.types, t.OfWidth n) (hn : n ≠ 1) : sign.withWidth n = sign := by
  have hself : ∀ t ∈ sign.types, t.withWidth n = t := fun t ht => by
    cases hsign t ht with
    | scalar b => rfl
    | vector b => exact if_neg hn
  have hret : sign.ret.withWidth n = sign.ret := hself _ List.mem_cons_self
  have hparams : sign.params.map (·.withWidth n) = sign.params :=
    (List.map_congr_left fun t ht => hself t (List.mem_cons_of_mem _ ht)).trans sign.params.map_id
  rw [BuiltinSign.withWidth, hret, hparams]

theorem width_le_of_vector (hsign : ∀ t ∈ sign.types, t.OfWidth n) (hvector : ∃ t ∈ sign.types, t.isVector = true)
    (hmem : sign ∈ B.signs) : n ≤ 16 := by
  obtain ⟨t, ht, hvec⟩ := hvector
  have hhas := B.types sign hmem t ht
  cases hsign t ht with
  | scalar => cases hvec
  | vector b => exact T.width_le b n hhas

/-- A builtin over vectors applies the scalar implementation once to each lane, in order, and has their results. -/
theorem exec_eq_lanes (hn : 2 ≤ n) {strategy : Strategy} (hsplits : Splits B n sign strategy)
    (hassoc : ∀ op, strategy = .recursiveSplit (some op) → Std.Associative (operation op)) {args : List (Arg S P)}
    (hargs : List.Forall₂ Fits args sign.params) {fuel : Nat} (hfuel : n ≤ fuel) :
    exec B impl operation strategy fuel sign args =
      some (strategy.combined operation <$> (List.range n).mapM fun i => impl (args.map (Arg.lane i))) := by
  cases hsplits with
  | recursiveSplit hsign hvector hret hparts =>
    have hself : sign.withWidth n = sign := withWidth_self hsign (by omega)
    have hmem : sign ∈ B.signs := hself ▸ hparts n .whole
    have hexec : exec B impl operation _ fuel (sign.withWidth n) args = _ := exec_part hsign hvector hret hparts
      (width_le_of_vector hsign hvector hmem) (fun op hop => hassoc op (by rw [hop])) .whole (show 0 < n by omega)
      (Nat.le_refl n) hfuel (hself.symm ▸ hargs)
    rwa [hself] at hexec
  | directSplit hret hsign hself hmem =>
    have hcombined : Strategy.directSplit.combined operation = id := by
      funext rs
      cases rs <;> rfl
    rw [exec_direct hret hsign hself hmem (Nat.le_trans hn hfuel) hargs, hcombined, id_map]

/-- The vector types of OpenCL. -/
def oclTypes : TypesTable where
  hasVector _ width := width ∈ [2, 3, 4, 8, 16]
  width_le _ width h := by
    have hmem : width ∈ [2, 3, 4, 8, 16] := of_decide_eq_true h
    have hall : ∀ w ∈ [2, 3, 4, 8, 16], w ≤ 16 := by decide
    exact hall width hmem

def charSign (t : BasicType) : BuiltinSign := ⟨t, [t, t]⟩

/-- Half of the sum, over vectors of up to three components. -/
def hadd : Builtin oclTypes where
  name := "hadd"
  isCast := false
  signs := [charSign (.scalar "char"), charSign (.vector "char" 2), charSign (.vector "char" 3)]
  overloads := by decide
  types := by decide

def haddImpl : List (Arg Nat Unit) → Id Nat
  | [.scalar x, .scalar y] => pure ((x + y) / 2)
  | _ => pure 0

theorem hadd_three :
    exec hadd haddImpl (fun _ x _ => x) (.recursiveSplit none) 3 (charSign (.vector "char" 3))
      [.vector [1, 2, 3], .vector [3, 4, 9]] = some (pure [2, 3, 6]) := by
  have hparts : ∀ w, Part 3 w → w = 1 ∨ w = 2 ∨ w = 3 := by
    intro w hw
    induction hw with
    | whole => omega
    | left _ _ ih => omega
    | right _ _ ih => omega
  have hsplits : Splits hadd 3 (charSign (.vector "char" 3)) (.recursiveSplit none) := by
    refine .recursiveSplit (fun t ht => ?_) ⟨_, List.mem_cons_self, rfl⟩ rfl fun w hw => ?_
    · have hchar : t = .vector "char" 3 := by simpa [charSign, BuiltinSign.types] using ht
      exact hchar ▸ .vector "char"
    · rcases hparts w hw with rfl | rfl | rfl <;> decide
  exact exec_eq_lanes (by decide) hsplits nofun (.cons (.vector _ _) (.cons (.vector _ _) .nil)) (by decide)

end Meaning

end OpenCRun.OCLGen
