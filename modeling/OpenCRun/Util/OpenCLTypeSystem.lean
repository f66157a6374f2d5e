import Mathlib.Data.Fintype.Prod
import Mathlib.Data.Fintype.Card
import OpenCRun.Lib.Comparison
import OpenCRun.Lib.Runs
/-!
# OpenCL types and their comparison

`OpenCLTypeSystem.cpp`: a type is a metadata node of an LLVM context, and
types refer to each other, in cycles through records. `TypeComparator`
compares types of different contexts; it keeps the records that it found equal.
-/
open Lib

namespace OpenCRun.OpenCLTypeSystem

/-! ## Types -/

inductive PrimitiveClass where
  | bool
  | char | uChar
  | short | uShort
  | int | uInt
  | long | uLong
  | half | float | double
  | event
  deriving DecidableEq, Repr

inductive ImageClass where
  | image1d | image1dArray | image1dBuffer | image2d | image2dArray | image3d | sampler
  deriving DecidableEq, Repr

/-- `RecordTypeBody`, with the type and the offset of each field. -/
structure RecordTypeBody (N : Type) where
  alignment : Nat
  isPacked : Bool
  fields : List (N × Nat)
  deriving DecidableEq, Repr

inductive RecordKind where
  | struct | union
  deriving DecidableEq, Repr

/-- A record; the name is read only if it is not anonymous. -/
structure Record (N : Type) where
  kind : RecordKind
  name : String
  isAnonymous : Bool
  body : RecordTypeBody N
  deriving DecidableEq, Repr

/-- The operands of a type's metadata node. -/
inductive Desc (N : Type) where
  | qual (mask : Nat) (ty : N)
  | primitive (c : PrimitiveClass)
  | vector (elem : N) (numElements : Nat)
  | image (c : ImageClass)
  | array (elem : N) (numElements : Nat)
  | pointer (pointee : N)
  | record (r : Record N)
  deriving DecidableEq, Repr

namespace Desc

variable {N : Type}

/-- The types that a type is made of. -/
def parts : Desc N → List N
  | qual _ ty => [ty]
  | primitive _ | image _ => []
  | vector elem _ | array elem _ => [elem]
  | pointer pointee => [pointee]
  | record r => r.body.fields.map Prod.fst

def isQualType : Desc N → Bool
  | qual _ _ => true
  | _ => false

def isRecordType : Desc N → Bool
  | record _ => true
  | _ => false

end Desc

/-- The types of some contexts. Cycles go through records, which alone get their body later. -/
structure TypeGraph (N : Type) where
  context : N → Nat
  desc : N → Desc N
  context_part : ∀ t, ∀ u ∈ (desc t).parts, context u = context t
  /-- `addQualifiers` removes the qualifiers of a type before it adds some. -/
  qual_raw : ∀ t mask u, desc t = .qual mask u → (desc u).isQualType = false
  /-- How deep a type is, down to its records. -/
  depth : N → Nat
  depth_part : ∀ t, (desc t).isRecordType = false → ∀ u ∈ (desc t).parts, depth u < depth t
  maxDepth : Nat
  depth_le : ∀ t, depth t ≤ maxDepth

section Comparator

variable {N : Type} (g : TypeGraph N)

namespace TypeGraph

/-- `Type::getQualifiers` -/
def getQualifiers (t : N) : Nat :=
  match g.desc t with
  | .qual mask _ => mask
  | _ => 0

/-- `Type::getUnqualifiedType` -/
def getUnqualifiedType (t : N) : N :=
  match g.desc t with
  | .qual _ u => u
  | _ => t

end TypeGraph

/-! ## The comparator -/

/-- The records that are being compared, and those that were found equal. -/
structure Matching (N : Type) where
  visited : List (N × N) := []
  cache : List (N × N) := []
  deriving DecidableEq, Repr

/-- The loop over the fields of two records; it ends at the first that does not match. -/
def matchFields (recur : N → N → Matching N → Option (Bool × Matching N)) :
    List (N × Nat) → List (N × Nat) → Matching N → Option (Bool × Matching N)
  | f₁ :: fs₁, f₂ :: fs₂, s =>
    if f₁.2 ≠ f₂.2 then some (false, s)
    else do
      let (matches', s) ← recur f₁.1 f₂.1 s
      if matches' then matchFields recur fs₁ fs₂ s else some (false, s)
  | _, _, s => some (true, s)

variable [DecidableEq N]

/-- The part of `match` that is about records. -/
def matchRecords (recur : N → N → Matching N → Option (Bool × Matching N)) (mp : N × N) (r₁ r₂ : Record N)
    (s : Matching N) : Option (Bool × Matching N) :=
  -- A record that is being compared counts as equal, so that cycles end.
  if mp ∈ s.visited then some (true, s)
  else if r₁.isAnonymous ≠ r₂.isAnonymous then some (false, s)
  else if !r₁.isAnonymous ∧ r₁.name ≠ r₂.name then some (false, s)
  else if r₁.body.isPacked ≠ r₂.body.isPacked ∨ r₁.body.alignment ≠ r₂.body.alignment ∨
      r₁.body.fields.length ≠ r₂.body.fields.length then some (false, s)
  else do
    let (allFieldsMatch, s) ←
      matchFields recur r₁.body.fields r₂.body.fields { s with visited := mp :: s.visited }
    let s := { s with visited := s.visited.erase mp }
    some (allFieldsMatch, if allFieldsMatch then { s with cache := s.cache.insert mp } else s)

/-- The part of `match` after the qualifiers and the cache; types of two kinds do not match. -/
def matchDescs (recur : N → N → Matching N → Option (Bool × Matching N)) (mp : N × N) :
    Desc N → Desc N → Matching N → Option (Bool × Matching N)
  | .primitive c₁, .primitive c₂, s => some (c₁ == c₂, s)
  | .image c₁, .image c₂, s => some (c₁ == c₂, s)
  | .vector e₁ n₁, .vector e₂ n₂, s => if n₁ = n₂ then recur e₁ e₂ s else some (false, s)
  | .array e₁ n₁, .array e₂ n₂, s => if n₁ = n₂ then recur e₁ e₂ s else some (false, s)
  | .pointer e₁, .pointer e₂, s => recur e₁ e₂ s
  | .record r₁, .record r₂, s => if r₁.kind = r₂.kind then matchRecords recur mp r₁ r₂ s else some (false, s)
  | _, _, s => some (false, s)

/-- `TypeComparator::match`, as far as the fuel goes. -/
def matchTypes : Nat → N → N → Matching N → Option (Bool × Matching N)
  | 0, _, _, _ => none
  | fuel + 1, t₁, t₂, s =>
    if t₁ = t₂ then some (true, s)
    else if g.context t₁ = g.context t₂ then some (false, s)
    else if g.getQualifiers t₁ ≠ g.getQualifiers t₂ then some (false, s)
    else
      let mp := (g.getUnqualifiedType t₁, g.getUnqualifiedType t₂)
      if mp ∈ s.cache then some (true, s)
      else matchDescs (matchTypes fuel) mp (g.desc mp.1) (g.desc mp.2) s

/-- More than any comparison needs. -/
def TypeGraph.fuel [Fintype N] : Nat := Fintype.card (N × N) * (g.maxDepth + 1) + g.maxDepth + 1

/-- `TypeComparator::equals`, with the cache before and after. -/
def equals [Fintype N] (cache : List (N × N)) (t₁ t₂ : N) : Option (Bool × List (N × N)) := do
  let (r, s) ← matchTypes g g.fuel t₁ t₂ { cache }
  some (r, s.cache)

/-! ## What types have in common -/

/-- What is compared of two unqualified types, but for their parts. -/
inductive Head where
  | qual
  | primitive (c : PrimitiveClass)
  | vector (numElements : Nat)
  | image (c : ImageClass)
  | array (numElements : Nat)
  | pointer
  | record (kind : RecordKind) (name : Option String) (isPacked : Bool) (alignment : Nat) (offsets : List Nat)
  deriving DecidableEq, Repr

omit [DecidableEq N] in
def Desc.head : Desc N → Head
  | qual _ _ => .qual
  | primitive c => .primitive c
  | vector _ n => .vector n
  | image c => .image c
  | array _ n => .array n
  | pointer _ => .pointer
  | record r => .record r.kind (if r.isAnonymous then none else some r.name) r.body.isPacked r.body.alignment
    (r.body.fields.map Prod.snd)

namespace TypeGraph
omit [DecidableEq N]

/-- Both types without their qualifiers. -/
def key (p : N × N) : N × N := (g.getUnqualifiedType p.1, g.getUnqualifiedType p.2)

def SameQualifiers (p : N × N) : Prop := g.getQualifiers p.1 = g.getQualifiers p.2

def SameHead (k : N × N) : Prop := (g.desc k.1).head = (g.desc k.2).head

/-- The pairs of pointees, of elements, or of fields. -/
def partPairs (k : N × N) : List (N × N) := (g.desc k.1).parts.zip (g.desc k.2).parts

/-- No pointee, element and field steps lead to types that differ. -/
def Bisimilar (t₁ t₂ : N) : Prop :=
  Comparison.Bisimilar g.SameQualifiers (fun p => g.SameHead (g.key p)) (fun p q => q ∈ g.partPairs (g.key p))
    (t₁, t₂)

/-- Such steps lead to types that differ, and meet no pair of the cache before. -/
def Refuted (cache : List (N × N)) : N × N → Prop :=
  Comparison.Refuted g.SameQualifiers (fun p => g.SameHead (g.key p)) (fun p q => q ∈ g.partPairs (g.key p))
    (fun p => g.key p ∈ cache)

/-- The types are equal as far as what the matching knows is. -/
def Approved (s : Matching N) : N × N → Prop :=
  Comparison.Approved g.SameQualifiers (fun p => g.SameHead (g.key p)) (fun p q => q ∈ g.partPairs (g.key p))
    (fun p => g.key p ∈ s.cache ∨ g.key p ∈ s.visited)

end TypeGraph

end Comparator

/-! ## What one comparison does -/

section Outcomes
variable {N : Type}

/-- What a comparison leaves of the state it started in. -/
structure Outcome (s s' : Matching N) : Prop where
  visited : s'.visited = s.visited
  cache : ∀ k ∈ s.cache, k ∈ s'.cache

/-- The pair is alike, and its parts are equal as far as what the matching knows is. -/
def Supported (g : TypeGraph N) (s : Matching N) (k : N × N) : Prop :=
  g.SameHead k ∧ ∀ q ∈ g.partPairs k, g.Approved s q

/-- What the answer about all pairs of a list means. -/
structure Answer (g : TypeGraph N) (s : Matching N) (qs : List (N × N)) (r : Bool × Matching N) : Prop where
  outcome : Outcome s r.2
  refuted : r.1 = false → ∃ q ∈ qs, g.Refuted s.cache q
  supported : r.1 = true → ∀ k ∈ r.2.cache, k ∈ s.cache ∨ Supported g r.2 k
  approved : r.1 = true → ∀ q ∈ qs, g.Approved r.2 q

variable {g : TypeGraph N} {s s' s'' : Matching N} {p q k : N × N} {qs : List (N × N)}

theorem Outcome.refl (s : Matching N) : Outcome s s := ⟨rfl, fun _ h => h⟩

theorem Outcome.trans (h : Outcome s s') (h' : Outcome s' s'') : Outcome s s'' :=
  ⟨h'.visited.trans h.visited, fun k hk => h'.cache k (h.cache k hk)⟩

theorem approved_mono (h : Outcome s s') (hp : g.Approved s p) : g.Approved s' p := by
  refine Comparison.Approved.mono (fun p hk => ?_) hp
  rcases hk with hk | hk
  · exact .inl (h.cache _ hk)
  · exact .inr (h.visited ▸ hk)

theorem supported_mono (h : Outcome s s') (hk : Supported g s k) : Supported g s' k :=
  ⟨hk.1, fun _ hq => approved_mono h (hk.2 _ hq)⟩

theorem refuted_mono (h : Outcome s s') (hp : g.Refuted s'.cache p) : g.Refuted s.cache p :=
  Comparison.Refuted.mono (fun _ hk => h.cache _ hk) hp

/-- An answer on the first pair, then one on the others. -/
theorem Answer.cons {r : Bool × Matching N} (h : Answer g s [p] (true, s')) (h' : Answer g s' qs r) :
    Answer g s (p :: qs) r := by
  refine ⟨h.outcome.trans h'.outcome, fun hr => ?_, fun hr k hk => ?_, fun hr q hq => ?_⟩
  · obtain ⟨q, hq, href⟩ := h'.refuted hr
    exact ⟨q, List.mem_cons_of_mem _ hq, refuted_mono h.outcome href⟩
  · rcases h'.supported hr k hk with hk | hk
    · rcases h.supported rfl k hk with hk | hk
      · exact .inl hk
      · exact .inr (supported_mono h'.outcome hk)
    · exact .inr hk
  · rcases List.mem_cons.1 hq with rfl | hq
    · exact approved_mono h'.outcome (h.approved rfl q (List.mem_singleton_self q))
    · exact h'.approved hr q hq

/-- The first pair is enough to refute. -/
theorem Answer.cons_false (h : Answer g s [p] (false, s')) (qs : List (N × N)) : Answer g s (p :: qs) (false, s') := by
  refine ⟨h.outcome, fun _ => ?_, fun hr => absurd hr Bool.false_ne_true, fun hr => absurd hr Bool.false_ne_true⟩
  obtain ⟨q, hq, href⟩ := h.refuted rfl
  exact ⟨q, List.mem_cons.2 (.inl (List.mem_singleton.1 hq)), href⟩

/-- An answer that changes nothing. -/
theorem answer_unchanged {b : Bool} (hf : b = false → g.Refuted s.cache p) (ht : b = true → g.Approved s p) :
    Answer g s [p] (b, s) :=
  ⟨.refl s, fun hr => ⟨p, List.mem_singleton_self p, hf hr⟩, fun _ _ hk => .inl hk,
    fun hr _ hq => List.mem_singleton.1 hq ▸ ht hr⟩

/-- The answer about the parts of a type is the one about the type. -/
theorem Answer.of_parts {r : Bool × Matching N} (h : Answer g s (g.partPairs (g.key p)) r)
    (hquals : g.SameQualifiers p) (hcache : g.key p ∉ s.cache) (hhead : g.SameHead (g.key p)) : Answer g s [p] r := by
  refine ⟨h.outcome, fun hr => ?_, h.supported, fun hr q hq => ?_⟩
  · obtain ⟨q, hq, href⟩ := h.refuted hr
    exact ⟨p, List.mem_singleton_self p, .next hcache hq href⟩
  · rw [List.mem_singleton.1 hq]
    exact .look hquals hhead (h.approved hr)

/-- The loop compares the fields, unless their offsets differ. -/
theorem matchFields_answer {recur : N → N → Matching N → Option (Bool × Matching N)} {visited : List (N × N)}
    {fs₁ fs₂ : List (N × Nat)} (hlen : fs₁.length = fs₂.length)
    (hrecur : ∀ q ∈ (fs₁.map Prod.fst).zip (fs₂.map Prod.fst), ∀ s : Matching N, s.visited = visited →
      ∃ r, recur q.1 q.2 s = some r ∧ Answer g s [q] r)
    (hs : s.visited = visited) :
    ∃ r, matchFields recur fs₁ fs₂ s = some r ∧ Outcome s r.2 ∧
      (fs₁.map Prod.snd ≠ fs₂.map Prod.snd → r.1 = false) ∧
      (fs₁.map Prod.snd = fs₂.map Prod.snd → Answer g s ((fs₁.map Prod.fst).zip (fs₂.map Prod.fst)) r) := by
  induction fs₁ generalizing fs₂ s with
  | nil =>
    obtain rfl := List.length_eq_zero_iff.1 hlen.symm
    refine ⟨(true, s), rfl, .refl s, fun h => absurd rfl h, fun _ => ⟨.refl s, ?_, fun _ _ hk => .inl hk, ?_⟩⟩
    · exact fun h => absurd h Bool.false_ne_true.symm
    · exact fun _ q hq => absurd hq List.not_mem_nil
  | cons f₁ fs₁ ih =>
    obtain _ | ⟨f₂, fs₂⟩ := fs₂
    · cases hlen
    simp only [List.map_cons, List.zip_cons_cons, List.cons.injEq, matchFields] at hrecur ⊢
    by_cases hoff : f₁.2 = f₂.2
    · obtain ⟨⟨m, s₁⟩, heq, hans⟩ := hrecur (f₁.1, f₂.1) (by simp) s hs
      simp only [hoff, ne_eq, not_true_eq_false, if_false, heq, Option.bind_eq_bind, Option.bind_some, true_and]
      cases m with
      | false =>
        exact ⟨_, rfl, hans.outcome, fun _ => rfl, fun _ => hans.cons_false _⟩
      | true =>
        obtain ⟨r, hr, hout, hne, hsame⟩ := ih (Nat.succ.inj hlen) (fun q hq => hrecur q (List.mem_cons_of_mem _ hq))
          (hans.outcome.visited.trans hs)
        exact ⟨r, hr, hans.outcome.trans hout, fun h => hne fun h' => h (by rw [h']), fun h => hans.cons (hsame h)⟩
    · rw [if_pos hoff]
      exact ⟨_, rfl, .refl s, fun _ => rfl, fun h => absurd h.1 hoff⟩

/-- The tests of `match` on two records. -/
theorem head_record_iff {r₁ r₂ : Record N} : (Desc.record r₁).head = (Desc.record r₂).head ↔
    r₁.kind = r₂.kind ∧ r₁.isAnonymous = r₂.isAnonymous ∧ ¬ (!r₁.isAnonymous ∧ r₁.name ≠ r₂.name) ∧
      r₁.body.isPacked = r₂.body.isPacked ∧ r₁.body.alignment = r₂.body.alignment ∧
      r₁.body.fields.map Prod.snd = r₂.body.fields.map Prod.snd := by
  simp only [Desc.head, Head.record.injEq]
  cases r₁.isAnonymous <;> cases r₂.isAnonymous <;> simp

variable [DecidableEq N]

theorem outcome_erase {visited : List (N × N)} (h : Outcome { s with visited := k :: s.visited } s')
    (hvisited : visited = s'.visited.erase k) : Outcome s { s' with visited } :=
  ⟨by simp [hvisited, h.visited], h.cache⟩

/-- What was found while a pair counted as equal stays right once the pair is in the cache. -/
theorem approved_close {visited : List (N × N)} (h : Outcome { s with visited := k :: s.visited } s')
    (hvisited : visited = s'.visited.erase k) (hp : g.Approved s' p) :
    g.Approved { visited, cache := s'.cache.insert k } p := by
  refine Comparison.Approved.mono (fun p hk => ?_) hp
  rw [h.visited] at hvisited hk
  rw [hvisited, List.erase_cons_head]
  rcases hk with hk | hk
  · exact .inl (List.mem_insert_of_mem hk)
  · rcases List.mem_cons.1 hk with hk | hk
    · exact .inl (List.mem_insert_iff.2 (.inl hk))
    · exact .inr hk

/-- The answer about the fields gives the one about the records. -/
theorem Answer.close {r : Bool × Matching N} {visited : List (N × N)}
    (h : Answer g { s with visited := g.key p :: s.visited } (g.partPairs (g.key p)) r)
    (hvisited : visited = r.2.visited.erase (g.key p)) (hquals : g.SameQualifiers p) (hcache : g.key p ∉ s.cache)
    (hhead : g.SameHead (g.key p)) :
    Answer g s [p] (r.1, if r.1 then { visited, cache := r.2.cache.insert (g.key p) } else { r.2 with visited }) := by
  obtain ⟨b, s'⟩ := r
  cases b with
  | false =>
    refine ⟨outcome_erase h.outcome hvisited, fun _ => ?_, fun h => absurd h Bool.false_ne_true,
      fun h => absurd h Bool.false_ne_true⟩
    obtain ⟨q, hq, href⟩ := h.refuted rfl
    exact ⟨p, List.mem_singleton_self p, .next hcache hq href⟩
  | true =>
    have hout := outcome_erase h.outcome hvisited
    have happ : ∀ q ∈ g.partPairs (g.key p), g.Approved { visited, cache := s'.cache.insert (g.key p) } q :=
      fun q hq => approved_close h.outcome hvisited (h.approved rfl q hq)
    refine ⟨⟨hout.visited, fun k hk => List.mem_insert_of_mem (hout.cache k hk)⟩,
      fun h => absurd h Bool.false_ne_true.symm, fun _ k hk => ?_, fun _ q hq => ?_⟩
    · rcases List.mem_insert_iff.1 hk with rfl | hk
      · exact .inr ⟨hhead, happ⟩
      · rcases h.supported rfl k hk with hk | hk
        · exact .inl hk
        · exact .inr ⟨hk.1, fun q hq => approved_close h.outcome hvisited (hk.2 q hq)⟩
    · rw [List.mem_singleton.1 hq]
      exact .look hquals hhead happ

/-- Two records of a kind are compared by name and body, then by field; meanwhile they count as equal. -/
theorem matchRecords_answer {recur : N → N → Matching N → Option (Bool × Matching N)} {r₁ r₂ : Record N}
    (h₁ : g.desc (g.key p).1 = .record r₁) (h₂ : g.desc (g.key p).2 = .record r₂) (hkind : r₁.kind = r₂.kind)
    (hquals : g.SameQualifiers p) (hcache : g.key p ∉ s.cache)
    (hrecur : g.key p ∉ s.visited → ∀ q ∈ g.partPairs (g.key p), ∀ s₁ : Matching N,
      s₁.visited = g.key p :: s.visited → ∃ r, recur q.1 q.2 s₁ = some r ∧ Answer g s₁ [q] r) :
    ∃ r, matchRecords recur (g.key p) r₁ r₂ s = some r ∧ Answer g s [p] r := by
  have hhead : g.SameHead (g.key p) ↔ (Desc.record r₁).head = (Desc.record r₂).head := by
    rw [TypeGraph.SameHead, h₁, h₂]
  rw [head_record_iff] at hhead
  have hdiffers : ∀ s', Outcome s s' → ¬ g.SameHead (g.key p) → Answer g s [p] (false, s') := fun s' hout hne =>
    ⟨hout, fun _ => ⟨p, List.mem_singleton_self p, .late hcache hne⟩, fun h => absurd h Bool.false_ne_true,
      fun h => absurd h Bool.false_ne_true⟩
  unfold matchRecords
  by_cases hvis : g.key p ∈ s.visited
  · rw [if_pos hvis]
    exact ⟨_, rfl, answer_unchanged (fun h => absurd h Bool.false_ne_true.symm) fun _ => .known hquals (.inr hvis)⟩
  by_cases hanon : r₁.isAnonymous = r₂.isAnonymous
  swap
  · rw [if_neg hvis, if_pos hanon]
    exact ⟨_, rfl, hdiffers s (.refl s) fun h => hanon (hhead.1 h).2.1⟩
  by_cases hname : !r₁.isAnonymous ∧ r₁.name ≠ r₂.name
  · rw [if_neg hvis, if_neg (not_not.2 hanon), if_pos hname]
    exact ⟨_, rfl, hdiffers s (.refl s) fun h => (hhead.1 h).2.2.1 hname⟩
  by_cases hbody : r₁.body.isPacked ≠ r₂.body.isPacked ∨ r₁.body.alignment ≠ r₂.body.alignment ∨
      r₁.body.fields.length ≠ r₂.body.fields.length
  · rw [if_neg hvis, if_neg (not_not.2 hanon), if_neg hname, if_pos hbody]
    refine ⟨_, rfl, hdiffers s (.refl s) fun h => ?_⟩
    obtain ⟨-, -, -, hpacked, halign, hoffsets⟩ := hhead.1 h
    have hlen : r₁.body.fields.length = r₂.body.fields.length := by simpa using congrArg List.length hoffsets
    simp [hpacked, halign, hlen] at hbody
  rw [if_neg hvis, if_neg (not_not.2 hanon), if_neg hname, if_neg hbody]
  simp only [not_or, not_not] at hbody
  have hpairs : g.partPairs (g.key p) = (r₁.body.fields.map Prod.fst).zip (r₂.body.fields.map Prod.fst) := by
    rw [TypeGraph.partPairs, h₁, h₂]
    rfl
  obtain ⟨r, hr, hout, hne, hsame⟩ := matchFields_answer (s := { s with visited := g.key p :: s.visited }) hbody.2.2
    (fun q hq => hrecur hvis q (hpairs ▸ hq)) rfl
  rw [hr]
  refine ⟨_, rfl, ?_⟩
  -- Fields at other offsets are told by the loop, whatever their types.
  by_cases hoffsets : r₁.body.fields.map Prod.snd = r₂.body.fields.map Prod.snd
  · have hans : Answer g { s with visited := g.key p :: s.visited } (g.partPairs (g.key p)) r :=
      hpairs ▸ hsame hoffsets
    exact hans.close rfl hquals hcache (hhead.2 ⟨hkind, hanon, hname, hbody.1, hbody.2.1, hoffsets⟩)
  · simp only [hne hoffsets, Bool.false_eq_true, if_false]
    exact hdiffers _ (outcome_erase hout rfl) fun h => hoffsets (hhead.1 h).2.2.2.2.2

/-- Types that are alike have their parts compared, others do not match. -/
theorem matchDescs_answer {recur : N → N → Matching N → Option (Bool × Matching N)} {d₁ d₂ : Desc N}
    (h₁ : g.desc (g.key p).1 = d₁) (h₂ : g.desc (g.key p).2 = d₂) (hraw : d₁.isQualType = false)
    (hquals : g.SameQualifiers p) (hcache : g.key p ∉ s.cache)
    (hparts : d₁.isRecordType = false → ∀ q ∈ g.partPairs (g.key p),
      ∃ r, recur q.1 q.2 s = some r ∧ Answer g s [q] r)
    (hfields : g.key p ∉ s.visited → ∀ q ∈ g.partPairs (g.key p), ∀ s₁ : Matching N,
      s₁.visited = g.key p :: s.visited → ∃ r, recur q.1 q.2 s₁ = some r ∧ Answer g s₁ [q] r) :
    ∃ r, matchDescs recur (g.key p) d₁ d₂ s = some r ∧ Answer g s [p] r := by
  have hpairs : g.partPairs (g.key p) = d₁.parts.zip d₂.parts := by rw [TypeGraph.partPairs, h₁, h₂]
  have hhead : g.SameHead (g.key p) ↔ d₁.head = d₂.head := by rw [TypeGraph.SameHead, h₁, h₂]
  have hdiffers : d₁.head ≠ d₂.head → Answer g s [p] (false, s) := fun hne =>
    answer_unchanged (fun _ => .late hcache fun h => hne (hhead.1 h)) fun h => absurd h Bool.false_ne_true
  have hleaf : d₁.parts = [] → ∀ b, (b = true ↔ d₁.head = d₂.head) → Answer g s [p] (b, s) := by
    intro hnone b hb
    refine answer_unchanged (fun hf => ?_) fun ht => ?_
    · exact .late hcache fun h => Bool.false_ne_true (hf ▸ hb.2 (hhead.1 h))
    · refine .look hquals (hhead.2 (hb.1 ht)) fun q hq => ?_
      rw [hpairs, hnone] at hq
      cases hq
  -- A type with one part is equal when the part is.
  have hsingle : d₁.isRecordType = false → ∀ e₁ e₂, d₁.parts = [e₁] → d₂.parts = [e₂] → d₁.head = d₂.head →
      ∃ r, recur e₁ e₂ s = some r ∧ Answer g s [p] r := by
    intro hflat e₁ e₂ he₁ he₂ hsame
    rw [he₁, he₂] at hpairs
    obtain ⟨r, hr, hans⟩ := hparts hflat (e₁, e₂) (by rw [hpairs]; exact List.mem_singleton_self _)
    exact ⟨r, hr, .of_parts (hpairs ▸ hans) hquals hcache (hhead.2 hsame)⟩
  cases d₁ with
  | qual => cases hraw
  | primitive c₁ =>
    cases d₂ with
    | primitive c₂ => exact ⟨_, rfl, hleaf rfl _ (by simp [Desc.head])⟩
    | _ => exact ⟨_, rfl, hdiffers (by simp [Desc.head])⟩
  | image c₁ =>
    cases d₂ with
    | image c₂ => exact ⟨_, rfl, hleaf rfl _ (by simp [Desc.head])⟩
    | _ => exact ⟨_, rfl, hdiffers (by simp [Desc.head])⟩
  | vector e₁ n₁ =>
    cases d₂ with
    | vector e₂ n₂ =>
      simp only [matchDescs]
      split
      · next hn => exact hsingle rfl e₁ e₂ rfl rfl (by simp [Desc.head, hn])
      · next hn => exact ⟨_, rfl, hdiffers (by simp [Desc.head, hn])⟩
    | _ => exact ⟨_, rfl, hdiffers (by simp [Desc.head])⟩
  | array e₁ n₁ =>
    cases d₂ with
    | array e₂ n₂ =>
      simp only [matchDescs]
      split
      · next hn => exact hsingle rfl e₁ e₂ rfl rfl (by simp [Desc.head, hn])
      · next hn => exact ⟨_, rfl, hdiffers (by simp [Desc.head, hn])⟩
    | _ => exact ⟨_, rfl, hdiffers (by simp [Desc.head])⟩
  | pointer e₁ =>
    cases d₂ with
    | pointer e₂ => exact hsingle rfl e₁ e₂ rfl rfl rfl
    | _ => exact ⟨_, rfl, hdiffers (by simp [Desc.head])⟩
  | record r₁ =>
    cases d₂ with
    | record r₂ =>
      simp only [matchDescs]
      split
      · next hkind => exact matchRecords_answer h₁ h₂ hkind hquals hcache hfields
      · next hkind => exact ⟨_, rfl, hdiffers fun h => hkind (head_record_iff.1 h).1⟩
    | _ => exact ⟨_, rfl, hdiffers (by simp [Desc.head])⟩

section Graph
omit [DecidableEq N]

theorem unqualified_spec (g : TypeGraph N) (t : N) : (g.desc (g.getUnqualifiedType t)).isQualType = false ∧
    g.context (g.getUnqualifiedType t) = g.context t ∧ g.depth (g.getUnqualifiedType t) ≤ g.depth t := by
  unfold TypeGraph.getUnqualifiedType
  cases h : g.desc t with
  | qual mask u =>
    have hpart : u ∈ (g.desc t).parts := by rw [h]; exact List.mem_singleton_self u
    exact ⟨g.qual_raw t mask u h, g.context_part t u hpart, (g.depth_part t (by rw [h]; rfl) u hpart).le⟩
  | _ => exact ⟨by rw [h]; rfl, rfl, Nat.le_refl _⟩

/-- The parts of types of two contexts are of those contexts. -/
theorem partPairs_context (hctx : g.context p.1 ≠ g.context p.2) (hq : q ∈ g.partPairs (g.key p)) :
    g.context q.1 ≠ g.context q.2 := by
  obtain ⟨h₁, h₂⟩ := List.of_mem_zip hq
  rw [g.context_part _ _ h₁, g.context_part _ _ h₂]
  rwa [TypeGraph.key, (unqualified_spec g p.1).2.1, (unqualified_spec g p.2).2.1]

theorem partPairs_depth (hflat : (g.desc (g.key p).1).isRecordType = false) (hq : q ∈ g.partPairs (g.key p)) :
    g.depth q.1 < g.depth p.1 :=
  (g.depth_part _ hflat _ (List.of_mem_zip hq).1).trans_le (unqualified_spec g p.1).2.2

end Graph

variable [Fintype N]

/-- What a comparison may still need. -/
def fuelFor (g : TypeGraph N) (s : Matching N) (t : N) : Nat :=
  (Fintype.card (N × N) - s.visited.length) * (g.maxDepth + 1) + g.depth t

/-- A comparison of types of different contexts ends, with an answer. -/
theorem matchTypes_answer {fuel : Nat} (hfuel : fuelFor g s p.1 < fuel) (hnodup : s.visited.Nodup)
    (hctx : g.context p.1 ≠ g.context p.2) : ∃ r, matchTypes g fuel p.1 p.2 s = some r ∧ Answer g s [p] r := by
  induction fuel generalizing p s with
  | zero => exact absurd hfuel (Nat.not_lt_zero _)
  | succ fuel ih =>
    have hne : p.1 ≠ p.2 := fun h => hctx (congrArg g.context h)
    rw [matchTypes, if_neg hne, if_neg hctx]
    by_cases hquals : g.getQualifiers p.1 = g.getQualifiers p.2
    swap
    · rw [if_pos hquals]
      exact ⟨_, rfl, answer_unchanged (fun _ => .early hquals) fun h => absurd h Bool.false_ne_true⟩
    rw [if_neg (not_not.2 hquals)]
    by_cases hcache : g.key p ∈ s.cache
    · rw [if_pos (show (g.getUnqualifiedType p.1, g.getUnqualifiedType p.2) ∈ s.cache from hcache)]
      exact ⟨_, rfl, answer_unchanged (fun h => absurd h Bool.false_ne_true.symm)
        fun _ => .known hquals (.inl hcache)⟩
    rw [if_neg (show (g.getUnqualifiedType p.1, g.getUnqualifiedType p.2) ∉ s.cache from hcache)]
    refine matchDescs_answer rfl rfl (unqualified_spec g p.1).1 hquals hcache (fun hflat q hq => ?_)
      fun hvis q hq s₁ hs₁ => ?_
    · have hdepth := partPairs_depth hflat hq
      refine ih ?_ hnodup (partPairs_context hctx hq)
      unfold fuelFor at hfuel ⊢
      omega
    · have hnodup₁ : s₁.visited.Nodup := hs₁ ▸ List.nodup_cons.2 ⟨hvis, hnodup⟩
      refine ih ?_ hnodup₁ (partPairs_context hctx hq)
      have hcard := hnodup₁.length_le_card
      have hdepth := g.depth_le q.1
      unfold fuelFor at hfuel ⊢
      rw [hs₁, List.length_cons] at hcard ⊢
      obtain ⟨left, hleft⟩ := Nat.exists_eq_add_of_le hcard
      rw [show Fintype.card (N × N) - s.visited.length = left + 1 by omega, Nat.add_one_mul] at hfuel
      rw [show Fintype.card (N × N) - (s.visited.length + 1) = left by omega]
      omega

/-- `equals` ends; it denies what can be refuted past the cache, and nothing else. -/
theorem equals_spec (cache : List (N × N)) {t₁ t₂ : N} (hctx : g.context t₁ ≠ g.context t₂) :
    ∃ r, equals g cache t₁ t₂ = some r ∧ (r.1 = true ↔ ¬ g.Refuted cache (t₁, t₂)) ∧
      (r.1 = true → ∀ k ∈ r.2, k ∈ cache ∨ g.SameHead k ∧ ∀ q ∈ g.partPairs k, ¬ g.Refuted cache q) := by
  have hfuel : fuelFor g { cache } t₁ < g.fuel := by
    have := g.depth_le t₁
    simp only [fuelFor, TypeGraph.fuel, List.length_nil, Nat.sub_zero]
    omega
  obtain ⟨⟨b, s'⟩, hr, hans⟩ := matchTypes_answer (p := (t₁, t₂)) hfuel List.nodup_nil hctx
  refine ⟨(b, s'.cache), by rw [equals, hr]; rfl, ?_, fun hb k hk => ?_⟩
  all_goals
    have happ : b = true → ∀ q, g.Approved s' q → ¬ g.Refuted cache q := by
      intro hb q hq
      refine Comparison.Approved.not_refuted (fun p hk => ?_) hq
      rcases hk with hk | hk
      · exact hans.supported hb _ hk
      · rw [hans.outcome.visited] at hk
        cases hk
  · constructor
    · exact fun hb => happ hb _ (hans.approved hb _ (List.mem_singleton_self _))
    · intro hnot
      refine eq_true_of_ne_false fun hb => hnot ?_
      obtain ⟨q, hq, href⟩ := hans.refuted hb
      exact List.mem_singleton.1 hq ▸ href
  · rcases hans.supported hb k hk with hk | ⟨hhead, hparts⟩
    · exact .inl hk
    · exact .inr ⟨hhead, fun q hq => happ hb q (hparts q hq)⟩

end Outcomes

/-! ## Histories -/

section Histories
variable {N : Type} [DecidableEq N] [Fintype N] (g : TypeGraph N)

/-- A comparator, with the answers that it has given. -/
structure TypeComparator (N : Type) where
  cache : List (N × N) := []
  answers : List ((N × N) × Option Bool) := []

inductive Call (N : Type) where
  | equals (t₁ t₂ : N)
  | reset

def TypeComparator.call (c : TypeComparator N) : Call N → TypeComparator N
  | .equals t₁ t₂ =>
    match equals g c.cache t₁ t₂ with
    | some (r, cache) => { cache, answers := ((t₁, t₂), some r) :: c.answers }
    | none => { c with answers := ((t₁, t₂), none) :: c.answers }
  | .reset => { c with cache := [] }

/-- Every answer about types of different contexts was given, and is right. -/
def TypeComparator.Right (c : TypeComparator N) : Prop :=
  ∀ a ∈ c.answers, g.context a.1.1 ≠ g.context a.1.2 →
    ∃ r, a.2 = some r ∧ (r = true ↔ g.Bisimilar a.1.1 a.1.2)

/-- The types to compare are equal, or steps lead to a difference and meet no pair of the cache before. -/
def Meets (c : TypeComparator N) : Call N → Prop
  | .equals t₁ t₂ => g.context t₁ ≠ g.context t₂ → g.Bisimilar t₁ t₂ ∨ g.Refuted c.cache (t₁, t₂)
  | .reset => True

variable {g}

theorem equals_right_iff (cache : List (N × N)) {t₁ t₂ : N} (hctx : g.context t₁ ≠ g.context t₂) :
    ∃ r, equals g cache t₁ t₂ = some r ∧
      ((r.1 = true ↔ g.Bisimilar t₁ t₂) ↔ g.Bisimilar t₁ t₂ ∨ g.Refuted cache (t₁, t₂)) := by
  obtain ⟨r, hr, hiff, -⟩ := equals_spec cache hctx
  refine ⟨r, hr, ?_⟩
  rw [hiff]
  constructor
  · intro h
    by_cases hb : g.Bisimilar t₁ t₂
    · exact .inl hb
    · exact .inr (not_not.1 fun hn => hb (h.1 hn))
  · rintro (hb | hr)
    · exact ⟨fun _ => hb, fun _ hr => hr.not_bisimilar hb⟩
    · exact ⟨fun hn => absurd hr hn, fun hb => absurd hb hr.not_bisimilar⟩

/-- A call keeps the answers right exactly when it meets the condition. -/
theorem right_call_iff (c : TypeComparator N) (call : Call N) (hc : c.Right g) :
    (c.call g call).Right g ↔ Meets g c call := by
  cases call with
  | reset => exact iff_of_true hc trivial
  | equals t₁ t₂ =>
    have hcons : ∀ r cache, (TypeComparator.mk cache (((t₁, t₂), r) :: c.answers)).Right g ↔
        (g.context t₁ ≠ g.context t₂ → ∃ b, r = some b ∧ (b = true ↔ g.Bisimilar t₁ t₂)) := by
      intro r cache
      simp only [TypeComparator.Right, List.forall_mem_cons]
      exact and_iff_left hc
    by_cases hctx : g.context t₁ = g.context t₂
    · refine iff_of_true ?_ fun hne => absurd hctx hne
      rw [TypeComparator.call]
      cases equals g c.cache t₁ t₂ with
      | none => exact (hcons _ _).2 fun hne => absurd hctx hne
      | some r => exact (hcons _ _).2 fun hne => absurd hctx hne
    · obtain ⟨⟨b, cache⟩, hr, hiff⟩ := equals_right_iff c.cache hctx
      rw [TypeComparator.call, hr, hcons, Meets, ← hiff]
      simp

/-- All along any history, the answers about types of different contexts are given and are right as long
as each call compares equal types, or types with a difference that no pair of the cache hides. -/
theorem comparator_right_iff (g : TypeGraph N) (calls : List (Call N)) :
    (∀ done, done <+: calls → (done.foldl (TypeComparator.call g) {}).Right g) ↔
      ∀ done call, done ++ [call] <+: calls → Meets g (done.foldl (TypeComparator.call g) {}) call := by
  have hstep : ∀ (c : TypeComparator N) (call : Call N), True → c.Right g →
      ((c.call g call).Right g ↔ ¬ ¬ Meets g c call) := fun c call _ hc =>
    (right_call_iff c call hc).trans not_not.symm
  have hruns := Runs.prefixes_iff (TypeComparator.call g) (s := {}) trivial (fun a ha => absurd ha List.not_mem_nil)
    (fun _ _ _ => trivial) hstep calls
  simpa only [not_not] using hruns

/-! ## A cache without mistakes -/

/-- The cache has only records that are equal. -/
def Sound (g : TypeGraph N) (cache : List (N × N)) : Prop :=
  ∀ k ∈ cache, g.SameHead k ∧ ∀ q ∈ g.partPairs k, g.Bisimilar q.1 q.2

omit [DecidableEq N] [Fintype N] in
theorem bisimilar_of_sound {cache : List (N × N)} (hsound : Sound g cache) {p : N × N} (h : ¬ g.Refuted cache p) :
    g.Bisimilar p.1 p.2 :=
  Comparison.bisimilar_of_not_refuted (fun _ hq => hsound _ hq) h

/-- With a sound cache the answer is right, and one that is true leaves it sound. -/
theorem equals_of_sound {cache : List (N × N)} (hsound : Sound g cache) {t₁ t₂ : N}
    (hctx : g.context t₁ ≠ g.context t₂) : ∃ r, equals g cache t₁ t₂ = some r ∧
      (r.1 = true ↔ g.Bisimilar t₁ t₂) ∧ (r.1 = true → Sound g r.2) := by
  obtain ⟨r, hr, hiff, hcache⟩ := equals_spec cache hctx
  refine ⟨r, hr, ?_, fun hb k hk => ?_⟩
  · rw [hiff]
    exact ⟨bisimilar_of_sound hsound, fun hb href => href.not_bisimilar hb⟩
  · rcases hcache hb k hk with hk | ⟨hhead, hparts⟩
    · exact hsound k hk
    · exact ⟨hhead, fun q hq => bisimilar_of_sound hsound (hparts q hq)⟩

/-- The loop of `KernelSignature::operator==`, which ends at the first argument that differs. -/
def equalsAll (g : TypeGraph N) : List (N × N) → List (N × N) → Option Bool
  | _, [] => some true
  | cache, p :: ps => do
    let (r, cache) ← equals g cache p.1 p.2
    if r then equalsAll g cache ps else some false

/-- `KernelSignature::operator==`, on the types of the arguments. -/
def signatureEq (g : TypeGraph N) (args₁ args₂ : List N) : Option Bool :=
  if args₁.length ≠ args₂.length then some false else equalsAll g [] (args₁.zip args₂)

theorem equalsAll_of_sound {cache : List (N × N)} (hsound : Sound g cache) {ps : List (N × N)}
    (hctx : ∀ p ∈ ps, g.context p.1 ≠ g.context p.2) :
    ∃ b, equalsAll g cache ps = some b ∧ (b = true ↔ ∀ p ∈ ps, g.Bisimilar p.1 p.2) := by
  induction ps generalizing cache with
  | nil => exact ⟨true, rfl, by simp⟩
  | cons p ps ih =>
    obtain ⟨⟨r, cache'⟩, hr, hiff, hkeep⟩ := equals_of_sound hsound (hctx p (by simp))
    rw [equalsAll, hr]
    cases r with
    | false =>
      refine ⟨false, rfl, iff_of_false Bool.false_ne_true fun hall => ?_⟩
      exact Bool.false_ne_true (hiff.2 (hall p (by simp)))
    | true =>
      obtain ⟨b, hb, hball⟩ := ih (hkeep rfl) (fun q hq => hctx q (by simp [hq]))
      refine ⟨b, hb, ?_⟩
      rw [hball, List.forall_mem_cons]
      exact (and_iff_right (hiff.1 rfl)).symm

/-- Signatures from two contexts are equal when their arguments are, one by one. -/
theorem signatureEq_spec (g : TypeGraph N) {args₁ args₂ : List N}
    (hctx : ∀ t₁ ∈ args₁, ∀ t₂ ∈ args₂, g.context t₁ ≠ g.context t₂) :
    ∃ b, signatureEq g args₁ args₂ = some b ∧ (b = true ↔ List.Forall₂ g.Bisimilar args₁ args₂) := by
  unfold signatureEq
  by_cases hlen : args₁.length = args₂.length
  · rw [if_neg (not_not.2 hlen)]
    have hnil : Sound g [] := fun k hk => absurd hk List.not_mem_nil
    have hzip : ∀ p ∈ args₁.zip args₂, g.context p.1 ≠ g.context p.2 := fun p hp =>
      hctx _ (List.of_mem_zip hp).1 _ (List.of_mem_zip hp).2
    obtain ⟨b, hb, hiff⟩ := equalsAll_of_sound hnil hzip
    refine ⟨b, hb, hiff.trans ?_⟩
    rw [List.forall₂_iff_zip]
    exact ⟨fun h => ⟨hlen, fun hp => h _ hp⟩, fun h p hp => h.2 hp⟩
  · rw [if_pos hlen]
    exact ⟨false, rfl, iff_of_false Bool.false_ne_true fun h => hlen h.length_eq⟩

end Histories

/-! ## Equal types -/

section Equality
variable {N : Type} {g : TypeGraph N}

/-- The head of a type says how many parts it has. -/
theorem length_parts_of_head {d₁ d₂ : Desc N} (h : d₁.head = d₂.head) : d₁.parts.length = d₂.parts.length := by
  cases d₁ with
  | record r₁ =>
    cases d₂ with
    | record r₂ =>
      obtain ⟨-, -, -, -, -, hoffsets⟩ := head_record_iff.1 h
      simpa [Desc.parts] using congrArg List.length hoffsets
    | _ => cases h
  | _ => cases d₂ <;> first | rfl | cases h

theorem partPairs_swap {p q : N × N} (h : q ∈ g.partPairs p) : q.swap ∈ g.partPairs p.swap := by
  obtain ⟨i, hi⟩ := List.getElem?_of_mem h
  rw [TypeGraph.partPairs, List.getElem?_zip_eq_some] at hi
  exact List.mem_of_getElem? (List.getElem?_zip_eq_some.2 ⟨hi.2, hi.1⟩)

/-- A step from the first of three types to the last goes through the one between. -/
theorem partPairs_trans {t₁ t₂ t₃ : N} (h : g.SameHead (t₁, t₂)) {q : N × N} (hq : q ∈ g.partPairs (t₁, t₃)) :
    ∃ u, (q.1, u) ∈ g.partPairs (t₁, t₂) ∧ ((u, q.2) ∈ g.partPairs (t₂, t₃)) := by
  obtain ⟨i, hi⟩ := List.getElem?_of_mem hq
  obtain ⟨h₁, h₃⟩ := List.getElem?_zip_eq_some.1 hi
  have hlt : i < (g.desc t₂).parts.length := length_parts_of_head h ▸ (List.getElem?_eq_some_iff.1 h₁).1
  have h₂ := List.getElem?_eq_getElem hlt
  exact ⟨(g.desc t₂).parts[i], List.mem_of_getElem? (List.getElem?_zip_eq_some.2 ⟨h₁, h₂⟩),
    List.mem_of_getElem? (List.getElem?_zip_eq_some.2 ⟨h₂, h₃⟩)⟩

theorem Bisimilar.refl (t : N) : g.Bisimilar t t := by
  refine Comparison.bisimilar_of_invariant (I := fun p => p.1 = p.2) (fun p hp => ?_) (fun p q hp hq => ?_) rfl
  · exact ⟨congrArg g.getQualifiers hp, congrArg (fun t => (g.desc (g.getUnqualifiedType t)).head) hp⟩
  · obtain ⟨i, hi⟩ := List.getElem?_of_mem hq
    rw [TypeGraph.partPairs, TypeGraph.key, hp, List.getElem?_zip_eq_some] at hi
    exact Option.some.inj (hi.1.symm.trans hi.2)

theorem Bisimilar.symm {t₁ t₂ : N} (h : g.Bisimilar t₁ t₂) : g.Bisimilar t₂ t₁ := by
  refine Comparison.bisimilar_of_invariant (I := fun p => g.Bisimilar p.2 p.1) (fun p hp => ?_) (fun p q hp hq => ?_) h
  · exact ⟨hp.here.1.symm, hp.here.2.symm⟩
  · exact hp.after (partPairs_swap hq)

theorem Bisimilar.trans {t₁ t₂ t₃ : N} (h : g.Bisimilar t₁ t₂) (h' : g.Bisimilar t₂ t₃) : g.Bisimilar t₁ t₃ := by
  refine Comparison.bisimilar_of_invariant (I := fun p => ∃ t, g.Bisimilar p.1 t ∧ g.Bisimilar t p.2)
    (fun p hp => ?_) (fun p q hp hq => ?_) ⟨t₂, h, h'⟩
  · obtain ⟨t, h₁, h₂⟩ := hp
    exact ⟨h₁.here.1.trans h₂.here.1, h₁.here.2.trans h₂.here.2⟩
  · obtain ⟨t, h₁, h₂⟩ := hp
    obtain ⟨u, hu₁, hu₂⟩ := partPairs_trans h₁.here.2 hq
    exact ⟨u, h₁.after hu₁, h₂.after hu₂⟩

/-- Equal signatures: equal arguments, one by one. -/
def EqualSignatures (g : TypeGraph N) (args₁ args₂ : List N) : Prop := List.Forall₂ g.Bisimilar args₁ args₂

theorem EqualSignatures.refl (args : List N) : EqualSignatures g args args := by
  induction args with
  | nil => exact .nil
  | cons t args ih => exact .cons (Bisimilar.refl t) ih

theorem EqualSignatures.symm {args₁ args₂ : List N} (h : EqualSignatures g args₁ args₂) :
    EqualSignatures g args₂ args₁ :=
  List.Forall₂.flip (h.imp fun _ _ => Bisimilar.symm)

theorem EqualSignatures.trans {args₁ args₂ args₃ : List N} (h : EqualSignatures g args₁ args₂)
    (h' : EqualSignatures g args₂ args₃) : EqualSignatures g args₁ args₃ := by
  induction h generalizing args₃ with
  | nil => exact h'
  | cons hhead _ ih =>
    cases h' with
    | cons hhead' htail' => exact .cons (Bisimilar.trans hhead hhead') (ih htail')

end Equality

/-! ## Two records that refer to each other -/

namespace Mutual

/-- `struct A { struct B *b; T member; }` and `struct B { struct A *a; }` -/
inductive Part where
  | structA | structB | pointerA | pointerB | member
  deriving DecidableEq, Repr

instance : Fintype Part := ⟨{.structA, .structB, .pointerA, .pointerB, .member}, fun t => by cases t <;> decide⟩

/-- In one context `T` is `int`, in the other it is `float`. -/
def desc (t : Bool × Part) : Desc (Bool × Part) :=
  match t.2 with
  | .structA => .record { kind := .struct, name := "A", isAnonymous := false, body := {
      alignment := 64, isPacked := false, fields := [((t.1, .pointerB), 0), ((t.1, .member), 64)] } }
  | .structB => .record { kind := .struct, name := "B", isAnonymous := false, body := {
      alignment := 64, isPacked := false, fields := [((t.1, .pointerA), 0)] } }
  | .pointerA => .pointer (t.1, .structA)
  | .pointerB => .pointer (t.1, .structB)
  | .member => .primitive (if t.1 then .float else .int)

def graph : TypeGraph (Bool × Part) where
  context t := t.1.toNat
  desc := desc
  context_part := by decide
  qual_raw t mask u h := by
    obtain ⟨b, t⟩ := t
    cases t <;> cases h
  depth t := if t.2 = .pointerA ∨ t.2 = .pointerB then 1 else 0
  depth_part := by decide
  maxDepth := 1
  depth_le := by decide

/-- The answer about `A` is right, but it leaves the two `B` in the cache. -/
theorem equals_A : equals graph [] (false, .structA) (true, .structA) =
    some (false, [((false, .structB), (true, .structB))]) := by
  decide +kernel

theorem equals_B : equals graph [((false, .structB), (true, .structB))] (false, .structB) (true, .structB) =
    some (true, [((false, .structB), (true, .structB))]) := by
  decide +kernel

theorem not_bisimilar_B : ¬ graph.Bisimilar (false, .structB) (true, .structB) := by
  intro hb
  have hpointer := hb.after (q := ((false, .pointerA), (true, .pointerA))) (by decide)
  have hstruct := hpointer.after (q := ((false, .structA), (true, .structA))) (by decide)
  have hmember := hstruct.after (q := ((false, .member), (true, .member))) (by decide)
  have hhead := hmember.here.2
  simp [TypeGraph.SameHead, TypeGraph.key, TypeGraph.getUnqualifiedType, graph, desc, Desc.head] at hhead

end Mutual

/-- A comparison of `A` from two contexts, and one of `B` after it. -/
theorem mutual_records_wrong :
    ¬ ∀ (N : Type) (_ : DecidableEq N) (_ : Fintype N) (g : TypeGraph N) (calls : List (Call N)),
      (calls.foldl (TypeComparator.call g) {}).Right g := by
  intro hall
  have hright := hall (Bool × Mutual.Part) inferInstance inferInstance Mutual.graph
    [.equals (false, .structA) (true, .structA), .equals (false, .structB) (true, .structB)]
  rw [List.foldl_cons, List.foldl_cons, List.foldl_nil, TypeComparator.call, TypeComparator.call, Mutual.equals_A,
    Mutual.equals_B] at hright
  obtain ⟨r, hr, hiff⟩ := hright _ List.mem_cons_self (by decide)
  cases hr
  exact Mutual.not_bisimilar_B (hiff.1 rfl)

end OpenCRun.OpenCLTypeSystem
