import OpenCRun.Lib.Linearization
/-!
# The atomic built-ins

The bodies of the two files `Atomic.td`. A built-in has one body for all its
names (`atomic_`, and `atom_` for 32 bit local and global and for 64 bit) and
address spaces. Work-items run their calls step by step: a plain read of the
location, a compare-and-exchange, or a fetch-and-op.
-/
open Lib Lib.Runs Lib.Linearization

namespace OpenCRun.Atomics

/-- The types with atomics. -/
inductive IntType where
  | int | uint | long | ulong
  deriving DecidableEq, Repr

namespace IntType

def width : IntType → Nat
  | int | uint => 32
  | long | ulong => 64

def isSigned : IntType → Bool
  | int | long => true
  | uint | ulong => false

/-- `<` -/
def lt (t : IntType) (a b : BitVec t.width) : Bool := if t.isSigned then a.slt b else a.ult b

/-- The number that a value stands for. -/
def toInt (t : IntType) (a : BitVec t.width) : Int := if t.isSigned then a.toInt else a.toNat

theorem lt_iff {t : IntType} {a b : BitVec t.width} : t.lt a b = true ↔ t.toInt a < t.toInt b := by
  unfold lt toInt
  split
  · exact BitVec.slt_iff_toInt_lt
  · rw [BitVec.ult_iff_lt, BitVec.lt_def, Int.ofNat_lt]

end IntType

variable {t : IntType}

/-! ## Bodies -/

/-- The forms of the bodies. -/
inductive Body (t : IntType) where
  /-- `do { old = *param1; } while(again && !CAS(param1, &old, desired)); return old;` -/
  | casLoop (again : BitVec t.width → Bool) (desired : BitVec t.width)
  /-- `return __atomic_fetch_op(param1, ..);`, or an exchange -/
  | fetchOp (f : BitVec t.width → BitVec t.width)
  /-- `CAS(param1, &param2, desired); return param2;` -/
  | compareExchange (param2 desired : BitVec t.width)

def atomicMin (param2 : BitVec t.width) : Body t := .casLoop (fun old => t.lt param2 old) param2

def atomicMax (param2 : BitVec t.width) : Body t := .casLoop (fun old => t.lt old param2) param2

def atomicAdd (param2 : BitVec t.width) : Body t := .fetchOp (· + param2)

def atomicSub (param2 : BitVec t.width) : Body t := .fetchOp (· - param2)

def atomicXchg (param2 : BitVec t.width) : Body t := .fetchOp fun _ => param2

def atomicInc : Body t := atomicAdd 1

def atomicDec : Body t := atomicSub 1

def atomicCmpxchg (param2 param3 : BitVec t.width) : Body t := .compareExchange param2 param3

def atomicAnd (param2 : BitVec t.width) : Body t := .fetchOp (· &&& param2)

def atomicOr (param2 : BitVec t.width) : Body t := .fetchOp (· ||| param2)

def atomicXor (param2 : BitVec t.width) : Body t := .fetchOp (· ^^^ param2)

/-- A call with its operands. -/
inductive Builtin (t : IntType) where
  | min (param2 : BitVec t.width)
  | max (param2 : BitVec t.width)
  | add (param2 : BitVec t.width)
  | sub (param2 : BitVec t.width)
  | xchg (param2 : BitVec t.width)
  | inc
  | dec
  | cmpxchg (param2 param3 : BitVec t.width)
  | and (param2 : BitVec t.width)
  | or (param2 : BitVec t.width)
  | xor (param2 : BitVec t.width)
  deriving DecidableEq

def Builtin.body : Builtin t → Body t
  | min param2 => atomicMin param2
  | max param2 => atomicMax param2
  | add param2 => atomicAdd param2
  | sub param2 => atomicSub param2
  | xchg param2 => atomicXchg param2
  | inc => atomicInc
  | dec => atomicDec
  | cmpxchg param2 param3 => atomicCmpxchg param2 param3
  | and param2 => atomicAnd param2
  | or param2 => atomicOr param2
  | xor param2 => atomicXor param2

/-- Where a call is in its body: before its first access, after the read of the loop, or about to return. -/
inductive Place (t : IntType) where
  | start
  | compare (old : BitVec t.width)
  | ret (old : BitVec t.width)
  deriving DecidableEq

/-- The next step of a body, on the value of the location. -/
def Body.step : Body t → Place t → BitVec t.width → Place t × BitVec t.width
  | casLoop _ _, .start, loc => (.compare loc, loc)
  | casLoop again desired, .compare old, loc =>
    if again old then
      -- a failure overwrites `old`, which the loop reads again
      if loc = old then (.ret old, desired) else (.start, loc)
    else (.ret old, loc)
  | fetchOp f, .start, loc => (.ret loc, f loc)
  | compareExchange param2 desired, .start, loc => if loc = param2 then (.ret param2, desired) else (.ret loc, loc)
  | _, place, loc => (place, loc)

/-- The calls of the work-items. -/
def builtins (t : IntType) : Implementation (Builtin t) (BitVec t.width) (Place t) where
  start _ := .start
  step b place loc := b.body.step place loc
  returns
    | .ret old => some old
    | _ => none

/-! ## What a call does at once -/

/-- The operation of a built-in on the value of the location. -/
def Builtin.result : Builtin t → BitVec t.width → BitVec t.width
  | min param2, v => if t.toInt param2 < t.toInt v then param2 else v
  | max param2, v => if t.toInt v < t.toInt param2 then param2 else v
  | add param2, v => v + param2
  | sub param2, v => v - param2
  | xchg param2, _ => param2
  | inc, v => v + 1
  | dec, v => v - 1
  | cmpxchg param2 param3, v => if v = param2 then param3 else v
  | and param2, v => v &&& param2
  | or param2, v => v ||| param2
  | xor param2, v => v ^^^ param2

/-- What a form does, without its steps. -/
def Body.result : Body t → BitVec t.width → BitVec t.width
  | casLoop again desired, v => if again v then desired else v
  | fetchOp f, v => f v
  | compareExchange param2 desired, v => if v = param2 then desired else v

theorem body_result (b : Builtin t) (v : BitVec t.width) : b.body.result v = b.result v := by
  cases b with
  | min param2 | max param2 => exact if_congr IntType.lt_iff rfl rfl
  | add | sub | xchg | inc | dec | cmpxchg | and | or | xor => rfl

/-- The value that a call has taken effect on. The loop that does not go on took effect when it read. -/
def taken (b : Builtin t) : Place t → Option (BitVec t.width)
  | .start => none
  | .compare old =>
    match b.body with
    | .casLoop again _ => if again old then none else some old
    | _ => none
  | .ret old => some old

/-- A call that has taken effect goes on without a write. -/
theorem step_of_taken {b : Builtin t} {place : Place t} {v loc : BitVec t.width} (h : taken b place = some v)
    (hreturns : (builtins t).returns place = none) : b.body.step place loc = (.ret v, loc) := by
  cases place with
  | start => cases h
  | ret old => cases hreturns
  | compare old =>
    unfold taken at h
    dsimp only at h
    cases hbody : b.body with
    | fetchOp | compareExchange =>
      rw [hbody] at h
      cases h
    | casLoop again desired =>
      simp only [hbody, Option.ite_none_left_eq_some, Option.some.injEq] at h
      obtain ⟨hagain, rfl⟩ := h
      simp [Body.step, hagain]

/-- A call takes effect at a read that ends its loop, at a compare-and-exchange that is not to be repeated, or at its
only access. -/
theorem step_takes {b : Builtin t} {place : Place t} (loc : BitVec t.width) (h : taken b place = none)
    (hreturns : (builtins t).returns place = none) :
    (taken b (b.body.step place loc).1 = none ∧ (b.body.step place loc).2 = loc) ∨
      (taken b (b.body.step place loc).1 = some loc ∧ (b.body.step place loc).2 = b.result loc) := by
  have hresult := body_result b loc
  cases hbody : b.body with
  | fetchOp f =>
    rw [hbody] at hresult
    cases place with
    | start => exact .inr ⟨rfl, hresult⟩
    | compare old => exact .inl ⟨h, rfl⟩
    | ret old => cases hreturns
  | compareExchange param2 desired =>
    rw [hbody] at hresult
    cases place with
    | start =>
      refine .inr ?_
      rw [← hresult]
      unfold Body.step Body.result
      dsimp only
      split
      · next heq => exact ⟨congrArg some heq.symm, rfl⟩
      · exact ⟨rfl, rfl⟩
    | compare old => exact .inl ⟨h, rfl⟩
    | ret old => cases hreturns
  | casLoop again desired =>
    rw [hbody] at hresult
    cases place with
    | start =>
      cases hagain : again loc with
      | true => exact .inl ⟨by simp [Body.step, taken, hbody, hagain], rfl⟩
      | false =>
        refine .inr ⟨by simp [Body.step, taken, hbody, hagain], ?_⟩
        rw [← hresult]
        simp [Body.step, Body.result, hagain]
    | compare old =>
      have hagain : again old = true := by
        simpa [taken, hbody] using h
      -- The exchange succeeds if the location has the value that was read.
      by_cases heq : loc = old
      · subst heq
        refine .inr ⟨by simp [Body.step, taken, hagain], ?_⟩
        rw [← hresult]
        simp [Body.step, Body.result, hagain]
      · exact .inl ⟨by simp [Body.step, taken, hagain, heq], by simp [Body.step, hagain, heq]⟩
    | ret old => cases hreturns

theorem linearizes (t : IntType) : Linearizes (builtins t) Builtin.result taken where
  start _ := rfl
  returns b place v h := by
    cases place with
    | ret old => exact h
    | start | compare => cases h
  kept b place v loc h hreturns := by
    have hstep : b.body.step place loc = (.ret v, loc) := step_of_taken h hreturns
    exact ⟨congrArg (taken b ·.1) hstep, congrArg Prod.snd hstep⟩
  takes b place loc h hreturns := step_takes loc h hreturns

/-! ## Minimum and maximum -/

/-- The least of some numbers that `f` gives. -/
structure IsLeastOf {α : Type} (f : α → Int) (a : α) (as : List α) : Prop where
  mem : a ∈ as
  le : ∀ b ∈ as, f a ≤ f b

/-- Taking the lesser of two again and again gives the least of all. -/
theorem foldl_isLeastOf {α : Type} {f : α → Int} {pick : α → α → α} (hmem : ∀ a b, pick a b = a ∨ pick a b = b)
    (hle : ∀ a b, f (pick a b) ≤ f a ∧ f (pick a b) ≤ f b) (as : List α) (a : α) :
    IsLeastOf f (as.foldl pick a) (a :: as) := by
  induction as generalizing a with
  | nil => exact ⟨List.mem_singleton_self _, fun b hb => by rw [List.mem_singleton.1 hb]; exact Int.le_refl _⟩
  | cons b as ih =>
    obtain ⟨hm, hl⟩ := ih (pick a b)
    refine ⟨?_, fun c hc => ?_⟩
    · rcases List.mem_cons.1 hm with heq | hm
      · rw [List.foldl_cons, heq]
        rcases hmem a b with h | h
        · rw [h]
          exact List.mem_cons_self
        · rw [h]
          exact List.mem_cons_of_mem _ List.mem_cons_self
      · exact List.mem_cons_of_mem _ (List.mem_cons_of_mem _ hm)
    · have hpick := hl _ List.mem_cons_self
      rcases List.mem_cons.1 hc with rfl | hc
      · exact Int.le_trans hpick (hle c b).1
      rcases List.mem_cons.1 hc with rfl | hc
      · exact Int.le_trans hpick (hle a c).2
      · exact hl c (List.mem_cons_of_mem _ hc)

theorem IsLeastOf.congr {α : Type} {f : α → Int} {a : α} {as as' : List α} (h : IsLeastOf f a as)
    (hmem : ∀ b, b ∈ as ↔ b ∈ as') : IsLeastOf f a as' :=
  ⟨(hmem a).1 h.mem, fun b hb => h.le b ((hmem b).2 hb)⟩

theorem exists_map_of_mem {α β : Type} {c : α → β} {l : List β} (h : ∀ b ∈ l, ∃ a, c a = b) : ∃ as : List α, l = as.map c := by
  induction l with
  | nil => exact ⟨[], rfl⟩
  | cons b l ih =>
    rw [List.forall_mem_cons] at h
    obtain ⟨⟨a, rfl⟩, hrest⟩ := h
    obtain ⟨as, rfl⟩ := ih hrest
    exact ⟨a :: as, rfl⟩

theorem min_le (v b : BitVec t.width) : t.toInt ((Builtin.min b).result v) ≤ t.toInt v ∧
    t.toInt ((Builtin.min b).result v) ≤ t.toInt b := by
  change t.toInt (if t.toInt b < t.toInt v then b else v) ≤ _ ∧ t.toInt (if t.toInt b < t.toInt v then b else v) ≤ _
  split <;> omega

theorem le_max (v b : BitVec t.width) : t.toInt v ≤ t.toInt ((Builtin.max b).result v) ∧
    t.toInt b ≤ t.toInt ((Builtin.max b).result v) := by
  change _ ≤ t.toInt (if t.toInt v < t.toInt b then b else v) ∧ _ ≤ t.toInt (if t.toInt v < t.toInt b then b else v)
  split <;> omega

section Reachable
variable {v₀ : BitVec t.width} {s : State (Builtin t) (BitVec t.width) (Place t)}

/-- When only calls that pick the lesser of two values were made, and all have returned, the location has the least. -/
theorem least_of_calls {effects : List (Effect (Builtin t))} (h : Inv Builtin.result taken v₀ s effects)
    (hidle : ∀ i, s.pending i = none) {c : BitVec t.width → Builtin t} (hc : ∀ b b', c b = c b' → b = b')
    {f : BitVec t.width → Int} (hmem : ∀ v b, (c b).result v = v ∨ (c b).result v = b)
    (hle : ∀ v b, f ((c b).result v) ≤ f v ∧ f ((c b).result v) ≤ f b) {bs : List (BitVec t.width)}
    (hcalls : s.completed.map Call.op = bs.map c) : IsLeastOf f s.loc (v₀ :: bs) := by
  have hops := h.ops_iff hidle
  rw [hcalls] at hops
  -- The effects are the same calls, in the order in which they were taken.
  obtain ⟨cs, hcs⟩ : ∃ cs : List (BitVec t.width), effects.map Effect.op = cs.map c := by
    apply exists_map_of_mem
    intro op hop
    obtain ⟨b, -, hb⟩ := List.mem_map.1 ((hops op).1 hop)
    exact ⟨b, hb⟩
  have hloc : cs.foldl (fun v b => (c b).result v) v₀ = s.loc := by
    rw [← h.trace.foldl, ← List.foldl_map (f := Effect.op) (g := fun v (op : Builtin t) => op.result v), hcs, List.foldl_map]
  rw [← hloc]
  refine (foldl_isLeastOf hmem hle cs v₀).congr fun b => ?_
  rw [List.mem_cons, List.mem_cons]
  refine or_congr_right ?_
  have hb := hops (c b)
  rw [hcs, List.mem_map, List.mem_map] at hb
  constructor
  · intro hmem
    obtain ⟨b', hb', heq⟩ := hb.1 ⟨b, hmem, rfl⟩
    exact hc _ _ heq ▸ hb'
  · intro hmem
    obtain ⟨b', hb', heq⟩ := hb.2 ⟨b, hmem, rfl⟩
    exact hc _ _ heq ▸ hb'

/-- The calls take effect one at a time, and lose no update; calls for the minimum (the maximum) leave that. -/
structure ActsAtOnce (v₀ : BitVec t.width) (s : State (Builtin t) (BitVec t.width) (Place t)) : Prop where
  linearized : ∃ effects, Linearized Builtin.result s effects ∧
    effects.foldl (fun v e => e.op.result v) v₀ = s.loc
  minimum : (∀ i, s.pending i = none) → ∀ bs, s.completed.map Call.op = bs.map .min →
    IsLeastOf t.toInt s.loc (v₀ :: bs)
  maximum : (∀ i, s.pending i = none) → ∀ bs, s.completed.map Call.op = bs.map .max →
    IsLeastOf (fun v => -t.toInt v) s.loc (v₀ :: bs)

/-- In every interleaving of any number of work-items. -/
theorem acts_at_once (hr : Reachable (system (builtins t) v₀) s) : ActsAtOnce v₀ s := by
  obtain ⟨effects, h⟩ := reachable_inv (linearizes t) hr
  refine ⟨⟨effects, h.linearized, h.trace.foldl⟩, fun hidle bs hcalls => ?_, fun hidle bs hcalls => ?_⟩
  · exact least_of_calls h hidle (fun b b' => Builtin.min.inj) (fun v b => (ite_eq_or_eq _ b v).symm) min_le hcalls
  · refine least_of_calls h hidle (fun b b' => Builtin.max.inj) (fun v b => (ite_eq_or_eq _ b v).symm) (fun v b => ?_) hcalls
    obtain ⟨hv, hb⟩ := le_max v b
    exact ⟨Int.neg_le_neg hv, Int.neg_le_neg hb⟩

end Reachable

/-- Two work-items on a location with the value 4: the first reads it, the second writes 3, and the first has to read
again. -/
def race : List (Label (Builtin .int)) :=
  [.call 0 (.min 2), .step 0, .call 1 (.min 3), .step 1, .step 1, .step 1, .step 0, .step 0, .step 0, .step 0]

def raced : State (Builtin .int) (BitVec 32) (Place .int) :=
  (race.foldlM (step (builtins .int)) { loc := 4 }).getD { loc := 0 }

theorem acts_at_once_race : Reachable (system (builtins .int) 4) raced ∧ raced.loc = 2 ∧ raced.completed.length = 2 ∧
    ActsAtOnce (t := .int) 4 raced := by
  have hrun : race.foldlM (step (builtins .int)) { loc := 4 } = some raced := rfl
  have hr : Reachable (system (builtins .int) 4) raced := Reachable.foldlM (fun _ _ _ => id) (.init rfl) hrun
  exact ⟨hr, rfl, rfl, acts_at_once hr⟩

end OpenCRun.Atomics
