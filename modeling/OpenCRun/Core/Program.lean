import Mathlib.Data.List.TakeWhile
import Mathlib.Data.String.Basic
import OpenCRun.Lib.Grouping
import OpenCRun.Util.OpenCLTypeSystem
/-!
# The kernels of a program

`Program.cpp`: a program has the results of its builds, device by device, and
creates kernels from them, one by name or all at once.
-/
open Lib

namespace OpenCRun

open OpenCLTypeSystem

namespace Program

/-- `KernelInfo`, with the types of the kernel's arguments. -/
structure KernelInfo (N : Type) where
  name : String
  function : Nat
  signature : List N
  deriving DecidableEq, Repr

/-- The kernels of an LLVM module that is no SPIR module, as the iterator of `ModuleInfo` lists them. -/
structure Module (N : Type) where
  kernels : List (KernelInfo N)
  nodup : (kernels.map KernelInfo.name).Nodup

inductive BuildStatus where
  | none | inProgress | success | error
  deriving DecidableEq, Repr

/-- The build of a program for a device. A build that fails keeps the module of one before. -/
structure BuildInformation (N : Type) where
  buildStatus : BuildStatus
  bitCode : Option (Module N)
  hasBitCode : buildStatus = .success → bitCode.isSome

inductive ErrCode where
  | invalidProgramExecutable
  | invalidKernelName
  | invalidKernelDefinition
  | invalidValue
  deriving DecidableEq, Repr

/-- `KernelDescriptor`: the kernel of each device. -/
structure KernelDescriptor (N : Type) where
  name : String
  infos : List (Nat × Option (KernelInfo N))
  deriving DecidableEq, Repr

variable {N : Type}

/-- `ModuleInfo::find` -/
def Module.find (m : Module N) (name : String) : Option (KernelInfo N) := m.kernels.find? (·.name == name)

namespace BuildInformation

def isBuilt (b : BuildInformation N) : Bool := b.buildStatus == .success

/-- The kernel, or one without a function. -/
def getKernel (b : BuildInformation N) (name : String) : Option (KernelInfo N) := b.bitCode.bind (·.find name)

/-- The signature, or null. -/
def getKernelSignature (b : BuildInformation N) (name : String) : Option (List N) :=
  (b.getKernel name).map KernelInfo.signature

/-- `ModuleInfo(*BitCode).contains(KernName)`, if there is a module. -/
def defineKernel (b : BuildInformation N) (name : String) : Option Bool := b.bitCode.map fun m => (m.find name).isSome

end BuildInformation

end Program

open Program in
/-- A program, with its builds in the order of the map. Each device's compiler has a context of its own. -/
structure Program (N : Type) where
  types : TypeGraph N
  buildInfo : List (Nat × BuildInformation N)
  nodup : (buildInfo.map Prod.fst).Nodup
  context_eq : ∀ e ∈ buildInfo, ∀ m, e.2.bitCode = some m → ∀ k ∈ m.kernels, ∀ t ∈ k.signature,
    types.context t = e.1

namespace Program

variable {N : Type}

section Creation
variable [DecidableEq N] [Fintype N]

/-! ## One kernel -/

/-- `KernelSignature::operator!=`; neither signature may be null. -/
def signatureNe (g : TypeGraph N) (s₁ s₂ : Option (List N)) : Option Bool := do
  let args₁ ← s₁
  let args₂ ← s₂
  (signatureEq g args₁ args₂).map not

/-- The first loop of `CreateKernel`: the first build that defines the kernel, and those after it. -/
def findDefinition (name : String) : List (Nat × BuildInformation N) →
    Option (Option ((Nat × BuildInformation N) × List (Nat × BuildInformation N)))
  | [] => some none
  | e :: rest => do
    if ← e.2.defineKernel name then some (some (e, rest)) else findDefinition name rest

/-- The second loop of `CreateKernel`. -/
def collect (g : TypeGraph N) (name : String) (fst : BuildInformation N) : List (Nat × BuildInformation N) →
    List (Nat × Option (KernelInfo N)) → Option (Except (ErrCode × String) (List (Nat × Option (KernelInfo N))))
  | [], infos => some (.ok infos)
  | e :: rest, infos =>
    -- A build that has failed is skipped here, but not in the first loop.
    if !e.2.isBuilt then collect g name fst rest infos
    else do
      if ← signatureNe g (e.2.getKernelSignature name) (fst.getKernelSignature name) then
        some (.error (.invalidKernelDefinition, "kernel signatures do not match"))
      else collect g name fst rest (infos ++ [(e.1, e.2.getKernel name)])

/-- `Program::CreateKernel`, unless it dereferences a null module or signature. -/
def createKernel (p : Program N) (name : String) : Option (Except (ErrCode × String) (KernelDescriptor N)) :=
  if p.buildInfo.isEmpty then some (.error (.invalidProgramExecutable, "no program has been built"))
  else do
    match ← findDefinition name p.buildInfo with
    | none => some (.error (.invalidKernelName, "no kernel definition"))
    | some (fst, rest) =>
      let infos ← collect p.types name fst.2 rest [(fst.1, fst.2.getKernel name)]
      some (infos.map fun infos => { name, infos })

/-! ## All kernels -/

/-- The kernels of one device go into the map. -/
def pushKernels (dev : Nat) (kernels : List (KernelInfo N)) (signMap : List (String × List (Nat × KernelInfo N))) :
    List (String × List (Nat × KernelInfo N)) :=
  kernels.foldl (fun signMap k => Grouping.push k.name (dev, k) signMap) signMap

/-- The loop over the builds in `CreateKernelsInProgram`. -/
def signaturesMap : List (Nat × BuildInformation N) → List (String × List (Nat × KernelInfo N)) →
    Option (List (String × List (Nat × KernelInfo N)))
  | [], signMap => some signMap
  | e :: rest, signMap =>
    if !e.2.isBuilt then signaturesMap rest signMap
    else do
      let m ← e.2.bitCode
      signaturesMap rest (pushKernels e.1 m.kernels signMap)

/-- `Program::CreateKernelsInProgram` with room for `numKernels` kernels, or none asked for: the kernels, and
how many there are. -/
def createKernelsInProgram (p : Program N) (numKernels : Nat) (kernels : Bool) :
    Option (Except ErrCode (List (KernelDescriptor N) × Nat)) :=
  if p.buildInfo.isEmpty then some (.error .invalidProgramExecutable)
  else do
    let signMap ← signaturesMap p.buildInfo []
    if kernels then
      if numKernels < signMap.length then some (.error .invalidValue)
      else
        let descs := signMap.map fun x =>
          { name := x.1, infos := x.2.map fun y => (y.1, some y.2) : KernelDescriptor N }
        some (.ok (descs, signMap.length))
    else some (.ok ([], signMap.length))

end Creation

/-! ## Builds and definitions -/

section Definitions
variable (p : Program N) (name : String)

def Built (e : Nat × BuildInformation N) : Prop := e.2.isBuilt = true

def Defines (e : Nat × BuildInformation N) : Prop := (e.2.getKernel name).isSome

/-- Both builds define the kernel, with equal signatures. -/
def Matches (e e' : Nat × BuildInformation N) : Prop :=
  ∃ k ∈ e.2.getKernel name, ∃ k' ∈ e'.2.getKernel name, EqualSignatures p.types k.signature k'.signature

instance (e : Nat × BuildInformation N) : Decidable (Built e) := inferInstanceAs (Decidable (_ = _))

instance (e : Nat × BuildInformation N) : Decidable (Defines name e) := inferInstanceAs (Decidable (_ = _))

/-- Some build has succeeded, and those that have agree on the kernel. -/
structure Creatable : Prop where
  built : ∃ e ∈ p.buildInfo, Built e
  defines : ∀ e ∈ p.buildInfo, Built e → Defines name e
  equal : ∀ e ∈ p.buildInfo, ∀ e' ∈ p.buildInfo, Built e → Built e' → Matches p name e e'

/-- The builds before the first that defines the kernel, whether or not they have succeeded. -/
def before : List (Nat × BuildInformation N) := p.buildInfo.takeWhile fun e => !Defines name e

/-- The first build that defines the kernel, and those after it. -/
def fromFirst : List (Nat × BuildInformation N) := p.buildInfo.dropWhile fun e => !Defines name e

variable {p name}

theorem buildInfo_eq (p : Program N) (name : String) : p.buildInfo = p.before name ++ p.fromFirst name :=
  List.takeWhile_append_dropWhile.symm

theorem not_defines_before {e : Nat × BuildInformation N} (he : e ∈ p.before name) : ¬ Defines name e := by
  simpa using List.mem_takeWhile_imp he

theorem defines_first {F : Nat × BuildInformation N} {after : List (Nat × BuildInformation N)}
    (h : p.fromFirst name = F :: after) : Defines name F := by
  have hhead := List.head_dropWhile_not (fun e => !Defines name e) (l := p.buildInfo) (by
    rw [show p.buildInfo.dropWhile (fun e => !Defines name e) = F :: after from h]
    exact List.cons_ne_nil _ _)
  simp only [show p.buildInfo.dropWhile (fun e => !Defines name e) = F :: after from h, List.head_cons] at hhead
  simpa using hhead

theorem getKernel_eq_some {b : BuildInformation N} {k : KernelInfo N} (h : b.getKernel name = some k) :
    ∃ m, b.bitCode = some m ∧ k ∈ m.kernels ∧ k.name = name := by
  obtain ⟨m, hm, hk⟩ := Option.bind_eq_some_iff.1 h
  exact ⟨m, hm, List.mem_of_find?_eq_some hk, by simpa using List.find?_some hk⟩

theorem Matches.defines {e e' : Nat × BuildInformation N} (h : p.Matches name e e') : Defines name e ∧ Defines name e' := by
  obtain ⟨k, hk, k', hk', -⟩ := h
  exact ⟨Option.isSome_iff_exists.2 ⟨k, hk⟩, Option.isSome_iff_exists.2 ⟨k', hk'⟩⟩

theorem Matches.trans {e e' e'' : Nat × BuildInformation N} (h : p.Matches name e e') (h' : p.Matches name e' e'') :
    p.Matches name e e'' := by
  obtain ⟨k, hk, k', hk', heq⟩ := h
  obtain ⟨l, hl, l', hl', heq'⟩ := h'
  obtain rfl : k' = l := Option.some.inj (hk'.symm.trans hl)
  exact ⟨k, hk, l', hl', heq.trans heq'⟩

theorem Matches.symm {e e' : Nat × BuildInformation N} (h : p.Matches name e e') : p.Matches name e' e := by
  obtain ⟨k, hk, k', hk', heq⟩ := h
  exact ⟨k', hk', k, hk, heq.symm⟩

theorem Matches.self {e : Nat × BuildInformation N} (h : Defines name e) : p.Matches name e e := by
  obtain ⟨k, hk⟩ := Option.isSome_iff_exists.1 h
  exact ⟨k, hk, k, hk, .refl _⟩

variable [DecidableEq N] [Fintype N]

/-- The comparison of two builds' signatures, from different devices. -/
theorem signatureNe_cases {e F : Nat × BuildInformation N} (he : e ∈ p.buildInfo) (hF : F ∈ p.buildInfo)
    (hne : e.1 ≠ F.1) (hdef : Defines name F) :
    (¬ Defines name e ∧ signatureNe p.types (e.2.getKernelSignature name) (F.2.getKernelSignature name) = none) ∨
    Defines name e ∧ ∃ b, signatureNe p.types (e.2.getKernelSignature name) (F.2.getKernelSignature name) = some b ∧
      (b = false ↔ p.Matches name e F) := by
  obtain ⟨k', hk'⟩ := Option.isSome_iff_exists.1 hdef
  cases hk : e.2.getKernel name with
  | none => exact .inl ⟨by simp [Defines, hk], by simp [BuildInformation.getKernelSignature, hk, signatureNe]⟩
  | some k =>
    obtain ⟨m, hm, hmem, -⟩ := getKernel_eq_some hk
    obtain ⟨m', hm', hmem', -⟩ := getKernel_eq_some hk'
    have hctx : ∀ t₁ ∈ k.signature, ∀ t₂ ∈ k'.signature, p.types.context t₁ ≠ p.types.context t₂ := by
      intro t₁ h₁ t₂ h₂
      rw [p.context_eq e he m hm k hmem t₁ h₁, p.context_eq F hF m' hm' k' hmem' t₂ h₂]
      exact hne
    obtain ⟨b, hb, hiff⟩ := signatureEq_spec p.types hctx
    refine .inr ⟨by simp [Defines, hk], !b, ?_, ?_⟩
    · simp [BuildInformation.getKernelSignature, hk, hk', signatureNe, hb]
    · simp only [Bool.not_eq_false', hiff, Matches, hk, hk', Option.mem_some_iff, exists_eq_left']
      rfl

/-- The build has succeeded, and its signature is not equal to that of the first definition. -/
def isOdd (p : Program N) (name : String) (F e : Nat × BuildInformation N) : Bool :=
  e.2.isBuilt && signatureNe p.types (e.2.getKernelSignature name) (F.2.getKernelSignature name) != some false

omit [DecidableEq N] [Fintype N] in
theorem after_mem {F : Nat × BuildInformation N} {after : List (Nat × BuildInformation N)}
    (h : p.fromFirst name = F :: after) : F ∈ p.buildInfo ∧ ∀ e ∈ after, e ∈ p.buildInfo ∧ e.1 ≠ F.1 := by
  have hnodup := p.nodup
  rw [buildInfo_eq p name, h] at hnodup ⊢
  rw [List.map_append, List.map_cons, List.nodup_append, List.nodup_cons] at hnodup
  refine ⟨by simp, fun e he => ⟨by simp [he], fun heq => hnodup.2.1.1 ?_⟩⟩
  rw [← heq]
  exact List.mem_map_of_mem he

theorem isOdd_eq_false_iff {F e : Nat × BuildInformation N} {after : List (Nat × BuildInformation N)}
    (h : p.fromFirst name = F :: after) (he : e ∈ after) :
    p.isOdd name F e = false ↔ (Built e → p.Matches name e F) := by
  obtain ⟨hF, hafter⟩ := after_mem h
  unfold isOdd Built
  cases e.2.isBuilt with
  | false => simp
  | true =>
    rcases signatureNe_cases (hafter e he).1 hF (hafter e he).2 (defines_first h) with ⟨hdef, hnone⟩ | ⟨-, b, hb, hiff⟩
    · have hno : ¬ p.Matches name e F := fun hm => hdef hm.defines.1
      simp [hnone, hno]
    · rw [hb, Bool.true_and, ← hiff]
      cases b <;> simp

theorem find_isOdd_eq_none {F : Nat × BuildInformation N} {after : List (Nat × BuildInformation N)}
    (h : p.fromFirst name = F :: after) :
    after.find? (p.isOdd name F) = none ↔ ∀ e ∈ after, Built e → p.Matches name e F := by
  rw [List.find?_eq_none]
  refine forall_congr' fun e => forall_congr' fun he => ?_
  rw [Bool.not_eq_true, isOdd_eq_false_iff h he]

/-! ## What `CreateKernel` does -/

omit [DecidableEq N] [Fintype N] in
theorem findDefinition_eq (name : String) (l : List (Nat × BuildInformation N)) : findDefinition name l =
    if (l.takeWhile fun e => !Defines name e).all (·.2.bitCode.isSome) then
      match l.dropWhile fun e => !Defines name e with
      | [] => some none
      | F :: after => some (some (F, after))
    else none := by
  induction l with
  | nil => rfl
  | cons e l ih =>
    cases hm : e.2.bitCode with
    | none =>
      have hdef : ¬ Defines name e := by simp [Defines, BuildInformation.getKernel, hm]
      simp [findDefinition, BuildInformation.defineKernel, hm, hdef]
    | some m =>
      have hdef : Defines name e ↔ (m.find name).isSome := by simp [Defines, BuildInformation.getKernel, hm]
      by_cases h : Defines name e
      · simp [findDefinition, BuildInformation.defineKernel, hm, h, hdef.1 h]
      · have hfind : (m.find name).isSome = false := eq_false_of_ne_true fun h' => h (hdef.2 h')
        have hsome : e.2.bitCode.isSome = true := by rw [hm]; rfl
        rw [List.takeWhile_cons_of_pos (by simpa using h), List.dropWhile_cons_of_pos (by simpa using h), List.all_cons,
          hsome, Bool.true_and, ← ih]
        simp [findDefinition, BuildInformation.defineKernel, hm, hfind]

/-- The second loop stops at the first odd build, whose signature may be missing. -/
theorem collect_eq {F : Nat × BuildInformation N} {after : List (Nat × BuildInformation N)}
    (h : ∀ e ∈ after, (¬ Defines name e ∧
        signatureNe p.types (e.2.getKernelSignature name) (F.2.getKernelSignature name) = none) ∨
      Defines name e ∧
        ∃ b, signatureNe p.types (e.2.getKernelSignature name) (F.2.getKernelSignature name) = some b)
    (infos : List (Nat × Option (KernelInfo N))) : collect p.types name F.2 after infos =
      match after.find? (p.isOdd name F) with
      | none => some (.ok (infos ++ (after.filter (·.2.isBuilt)).map fun e => (e.1, e.2.getKernel name)))
      | some e =>
        if Defines name e then some (.error (.invalidKernelDefinition, "kernel signatures do not match")) else none := by
  induction after generalizing infos with
  | nil => simp [collect]
  | cons e after ih =>
    obtain ⟨he, hafter⟩ := List.forall_mem_cons.1 h
    cases hb : e.2.isBuilt with
    | false => simp [collect, hb, isOdd, ih hafter]
    | true =>
      -- The signature is missing, or differs, or is equal and the loop goes on.
      rcases he with ⟨hdef, hnone⟩ | ⟨hdef, b, hsome⟩
      · simp [collect, hb, isOdd, hnone, hdef]
      · cases b with
        | true => simp [collect, hb, isOdd, hsome, hdef]
        | false => simp [collect, hb, isOdd, hsome, ih hafter]

/-- What `CreateKernel` returns, or that it dereferences null. -/
theorem createKernel_eq (p : Program N) (name : String) : p.createKernel name =
    if p.buildInfo = [] then some (.error (.invalidProgramExecutable, "no program has been built"))
    else if (p.before name).all (·.2.bitCode.isSome) then
      match p.fromFirst name with
      | [] => some (.error (.invalidKernelName, "no kernel definition"))
      | F :: after =>
        match after.find? (p.isOdd name F) with
        | none => some (.ok { name, infos := (F :: after.filter (·.2.isBuilt)).map fun e => (e.1, e.2.getKernel name) })
        | some e =>
          if Defines name e then some (.error (.invalidKernelDefinition, "kernel signatures do not match")) else none
    else none := by
  unfold createKernel
  by_cases hnil : p.buildInfo = []
  · rw [if_pos (List.isEmpty_iff.2 hnil), if_pos hnil]
  rw [if_neg (mt List.isEmpty_iff.1 hnil), if_neg hnil, findDefinition_eq]
  change (if (p.before name).all (·.2.bitCode.isSome) then match p.fromFirst name with
    | [] => some none
    | F :: after => some (some (F, after)) else none) >>= _ = _
  split
  swap
  · rfl
  cases hfirst : p.fromFirst name with
  | nil => rfl
  | cons F after =>
    obtain ⟨hF, hafter⟩ := after_mem hfirst
    have hsig := fun e (he : e ∈ after) =>
      signatureNe_cases (hafter e he).1 hF (hafter e he).2 (defines_first hfirst)
    have hcollect := collect_eq (p := p) (F := F)
      (fun e (he : e ∈ after) => (hsig e he).imp id fun h => ⟨h.1, h.2.imp fun _ hb => hb.1⟩) [(F.1, F.2.getKernel name)]
    simp only [Option.bind_eq_bind, Option.bind_some, hcollect]
    cases hodd : after.find? (p.isOdd name F) with
    | none => rfl
    | some e =>
      dsimp only
      split <;> rfl

/-- What `CreateKernel` comes to, and for which builds. -/
inductive CreateOutcome (p : Program N) (name : String) :
    Option (Except (ErrCode × String) (KernelDescriptor N)) → Prop
  | unbuilt (hnil : p.buildInfo = []) :
      CreateOutcome p name (some (.error (.invalidProgramExecutable, "no program has been built")))
  | noModule {e : Nat × BuildInformation N} (he : e ∈ p.before name) (hnone : e.2.bitCode = none) :
      CreateOutcome p name none
  | undefined (hmods : ∀ e ∈ p.before name, e.2.bitCode.isSome) (hfirst : p.fromFirst name = []) :
      CreateOutcome p name (some (.error (.invalidKernelName, "no kernel definition")))
  | even {F : Nat × BuildInformation N} {after : List (Nat × BuildInformation N)}
      (hmods : ∀ e ∈ p.before name, e.2.bitCode.isSome) (hfirst : p.fromFirst name = F :: after)
      (hodd : after.find? (p.isOdd name F) = none) :
      CreateOutcome p name
        (some (.ok { name, infos := (F :: after.filter (·.2.isBuilt)).map fun e => (e.1, e.2.getKernel name) }))
  | odd {F e : Nat × BuildInformation N} {after : List (Nat × BuildInformation N)}
      (hmods : ∀ e ∈ p.before name, e.2.bitCode.isSome) (hfirst : p.fromFirst name = F :: after)
      (hodd : after.find? (p.isOdd name F) = some e) (hdef : Defines name e) :
      CreateOutcome p name (some (.error (.invalidKernelDefinition, "kernel signatures do not match")))
  | noSignature {F e : Nat × BuildInformation N} {after : List (Nat × BuildInformation N)}
      (hfirst : p.fromFirst name = F :: after) (hodd : after.find? (p.isOdd name F) = some e)
      (hdef : ¬ Defines name e) :
      CreateOutcome p name none

theorem createKernel_outcome (p : Program N) (name : String) : CreateOutcome p name (p.createKernel name) := by
  rw [createKernel_eq]
  by_cases hnil : p.buildInfo = []
  · rw [if_pos hnil]
    exact .unbuilt hnil
  rw [if_neg hnil]
  by_cases hmods : (p.before name).all (·.2.bitCode.isSome) = true
  swap
  · rw [if_neg hmods]
    simp only [List.all_eq_true, not_forall, Option.not_isSome_iff_eq_none] at hmods
    obtain ⟨e, he, hnone⟩ := hmods
    exact .noModule he hnone
  rw [if_pos hmods]
  rw [List.all_eq_true] at hmods
  cases hfirst : p.fromFirst name with
  | nil => exact .undefined hmods hfirst
  | cons F after =>
    dsimp only
    cases hodd : after.find? (p.isOdd name F) with
    | none => exact .even hmods hfirst hodd
    | some e =>
      dsimp only
      split
      · next hdef => exact .odd hmods hfirst hodd hdef
      · next hdef => exact .noSignature hfirst hodd hdef

/-- A kernel is created when it should be, and else an error is returned. -/
def CreatesRightly (p : Program N) (name : String) : Prop :=
  ∃ r, p.createKernel name = some r ∧ ((∃ desc, r = .ok desc) ↔ p.Creatable name)

/-- What the builds have to be for `CreateKernel` to do as it should. -/
structure Settled (p : Program N) (name : String) : Prop where
  /-- Every build that is asked before the first definition has a module. -/
  modules : ∀ e ∈ p.before name, e.2.bitCode.isSome
  /-- If the builds after the first definition go along with it, none before it has succeeded, and one has. -/
  even : ∀ F after, p.fromFirst name = F :: after → (∀ e ∈ after, Built e → p.Matches name e F) →
    (∀ e ∈ p.before name, ¬ Built e) ∧ ∃ e ∈ F :: after, Built e
  /-- If one does not, the first such defines the kernel, and a failed build is not the one to differ from. -/
  odd : ∀ F after e, p.fromFirst name = F :: after → after.find? (p.isOdd name F) = some e →
    Defines name e ∧ (Built F ∨ ¬ p.Creatable name)

omit [DecidableEq N] [Fintype N] in
theorem Creatable.first (h : p.Creatable name) : ∃ F after, p.fromFirst name = F :: after := by
  obtain ⟨e, he, hbuilt⟩ := h.built
  cases hfirst : p.fromFirst name with
  | nil =>
    rw [buildInfo_eq p name, hfirst, List.append_nil] at he
    have hdef := h.defines e (by rw [buildInfo_eq p name, hfirst, List.append_nil]; exact he) hbuilt
    exact absurd hdef (not_defines_before he)
  | cons F after => exact ⟨F, after, rfl⟩

omit [DecidableEq N] [Fintype N] in
/-- Where the builds after the first definition go along with it, it depends on those before. -/
theorem creatable_iff {F : Nat × BuildInformation N} {after : List (Nat × BuildInformation N)}
    (hfirst : p.fromFirst name = F :: after) (hall : ∀ e ∈ after, Built e → p.Matches name e F) :
    p.Creatable name ↔ (∀ e ∈ p.before name, ¬ Built e) ∧ ∃ e ∈ F :: after, Built e := by
  have hmem : ∀ e, e ∈ p.buildInfo ↔ e ∈ p.before name ∨ e ∈ F :: after := fun e => by
    rw [buildInfo_eq p name, hfirst, List.mem_append]
  have hmatch : ∀ e ∈ F :: after, Built e → p.Matches name e F :=
    List.forall_mem_cons.2 ⟨fun _ => .self (defines_first hfirst), hall⟩
  constructor
  · intro hc
    have hbefore : ∀ e ∈ p.before name, ¬ Built e := fun e he hb =>
      not_defines_before he (hc.defines e ((hmem e).2 (.inl he)) hb)
    obtain ⟨e, he, hb⟩ := hc.built
    exact ⟨hbefore, e, ((hmem e).1 he).resolve_left fun h => hbefore e h hb, hb⟩
  · rintro ⟨hbefore, e, he, hb⟩
    have hafter : ∀ e ∈ p.buildInfo, Built e → p.Matches name e F := fun e he hb =>
      hmatch e (((hmem e).1 he).resolve_left fun h => hbefore e h hb) hb
    exact ⟨⟨e, (hmem e).2 (.inr he), hb⟩, fun e he hb => (hafter e he hb).defines.1,
      fun e he e' he' hb hb' => (hafter e he hb).trans (hafter e' he' hb').symm⟩

omit [DecidableEq N] [Fintype N] in
/-- A successful build that does not match the first definition, itself successful, settles it. -/
theorem not_creatable {F e : Nat × BuildInformation N} {after : List (Nat × BuildInformation N)}
    (hfirst : p.fromFirst name = F :: after) (he : e ∈ after) (hbuilt : Built e) (hne : ¬ p.Matches name e F)
    (hF : Built F) : ¬ p.Creatable name := by
  obtain ⟨hFmem, hafter⟩ := after_mem hfirst
  exact fun hc => hne (hc.equal e (hafter e he).1 F hFmem hbuilt hF)

theorem find_isOdd_eq_some {F e : Nat × BuildInformation N} {after : List (Nat × BuildInformation N)}
    (hfirst : p.fromFirst name = F :: after) (h : after.find? (p.isOdd name F) = some e) :
    e ∈ after ∧ Built e ∧ ¬ p.Matches name e F := by
  have he := List.mem_of_find?_eq_some h
  have hodd := mt (isOdd_eq_false_iff hfirst he).2 (by simpa using List.find?_some h)
  rw [Classical.not_imp] at hodd
  exact ⟨he, hodd⟩

theorem settled_of_undefined (hmods : ∀ e ∈ p.before name, e.2.bitCode.isSome) (hfirst : p.fromFirst name = []) :
    p.Settled name := by
  refine ⟨hmods, fun F after h => ?_, fun F after e h => ?_⟩
  · cases hfirst.symm.trans h
  · cases hfirst.symm.trans h

theorem settled_iff {F : Nat × BuildInformation N} {after : List (Nat × BuildInformation N)}
    (hmods : ∀ e ∈ p.before name, e.2.bitCode.isSome) (hfirst : p.fromFirst name = F :: after) :
    p.Settled name ↔ ((∀ e ∈ after, Built e → p.Matches name e F) → p.Creatable name) ∧
      ∀ e, after.find? (p.isOdd name F) = some e → Defines name e ∧ (Built F ∨ ¬ p.Creatable name) := by
  constructor
  · exact fun h => ⟨fun hall => (creatable_iff hfirst hall).2 (h.even F after hfirst hall),
      fun e => h.odd F after e hfirst⟩
  · rintro ⟨heven, hodd⟩
    refine ⟨hmods, fun F' after' h hall => ?_, fun F' after' e h he => ?_⟩
    · cases hfirst.symm.trans h
      exact (creatable_iff hfirst hall).1 (heven hall)
    · cases hfirst.symm.trans h
      exact hodd e he

/-- `CreateKernel` does as it should exactly when the builds are so. -/
theorem creates_rightly_iff (p : Program N) (name : String) : p.CreatesRightly name ↔ p.Settled name := by
  have hresult : ∀ {r}, p.createKernel name = some r →
      (p.CreatesRightly name ↔ ((∃ desc, r = .ok desc) ↔ p.Creatable name)) := by
    intro r hr
    rw [CreatesRightly, hr]
    exact ⟨fun ⟨r', hr', hiff⟩ => Option.some.inj hr' ▸ hiff, fun hiff => ⟨r, rfl, hiff⟩⟩
  have hnull : p.createKernel name = none → ¬ p.CreatesRightly name := by
    rintro hr ⟨r, hr', -⟩
    cases hr.symm.trans hr'
  -- One case for each outcome.
  have houtcome := createKernel_outcome p name
  generalize hr : p.createKernel name = r at houtcome
  cases houtcome with
  | unbuilt hnil =>
    have hfirst : p.fromFirst name = [] := by rw [fromFirst, hnil]; rfl
    have hbefore : p.before name = [] := by rw [before, hnil]; rfl
    rw [hresult hr]
    refine iff_of_true (iff_of_false nofun fun hc => ?_) (settled_of_undefined (by simp [hbefore]) hfirst)
    obtain ⟨F, after, h⟩ := hc.first
    cases hfirst.symm.trans h
  | noModule he hnone =>
    refine iff_of_false (hnull hr) fun hs => ?_
    have hsome := hs.modules _ he
    rw [hnone] at hsome
    cases hsome
  | undefined hmods hfirst =>
    rw [hresult hr]
    refine iff_of_true (iff_of_false nofun fun hc => ?_) (settled_of_undefined hmods hfirst)
    obtain ⟨F, after, h⟩ := hc.first
    cases hfirst.symm.trans h
  | even hmods hfirst hodd =>
    have hall := (find_isOdd_eq_none hfirst).1 hodd
    rw [hresult hr, settled_iff hmods hfirst]
    constructor
    · exact fun hiff => ⟨fun _ => hiff.1 ⟨_, rfl⟩, fun e he => by cases hodd.symm.trans he⟩
    · exact fun hs => iff_of_true ⟨_, rfl⟩ (hs.1 hall)
  | @odd F e after hmods hfirst hodd hdef =>
    obtain ⟨he, hbuilt, hne⟩ := find_isOdd_eq_some hfirst hodd
    rw [hresult hr, settled_iff hmods hfirst]
    constructor
    · intro hiff
      have hnot : ¬ p.Creatable name := fun hc => by
        obtain ⟨desc, hdesc⟩ := hiff.2 hc
        cases hdesc
      exact ⟨fun hall => absurd (hall e he hbuilt) hne, fun e' he' => by
        obtain rfl := Option.some.inj (hodd.symm.trans he')
        exact ⟨hdef, .inr hnot⟩⟩
    · rintro ⟨-, hsettled⟩
      refine iff_of_false nofun ?_
      rcases (hsettled e hodd).2 with hF | hnot
      · exact not_creatable hfirst he hbuilt hne hF
      · exact hnot
  | noSignature hfirst hodd hdef => exact iff_of_false (hnull hr) fun hs => hdef (hs.odd _ _ _ hfirst hodd).1

/-- The build for the first device fails, the one for the second succeeds. -/
def failedFirst : Program Empty where
  types := { context := nofun, desc := nofun, context_part := nofun, qual_raw := nofun, depth := nofun,
             depth_part := nofun, maxDepth := 0, depth_le := nofun }
  buildInfo := [
    (0, { buildStatus := .error, bitCode := none, hasBitCode := nofun }),
    (1, { buildStatus := .success, hasBitCode := fun _ => rfl,
          bitCode := some { kernels := [{ name := "k", function := 7, signature := [] }], nodup := by decide } })]
  nodup := by decide
  context_eq := fun _ _ _ _ _ _ t => t.elim

/-- A kernel should be created, but the module that is missing is dereferenced. -/
theorem failed_build_dereferenced : failedFirst.createKernel "k" = none ∧ ¬ failedFirst.CreatesRightly "k" := by
  have hnull : failedFirst.createKernel "k" = none := by decide
  refine ⟨hnull, ?_⟩
  rintro ⟨r, hr, -⟩
  rw [hnull] at hr
  cases hr

/-! ## What `CreateKernelsInProgram` does -/

omit [DecidableEq N] [Fintype N]

/-- The kernels of a build, under their names. -/
def kernelsOf (e : Nat × BuildInformation N) : List (String × (Nat × KernelInfo N)) :=
  match e.2.bitCode with
  | some m => m.kernels.map fun k => (k.name, (e.1, k))
  | none => []

theorem pushKernels_eq (dev : Nat) (kernels : List (KernelInfo N)) (signMap : List (String × List (Nat × KernelInfo N))) :
    pushKernels dev kernels signMap =
      (kernels.map fun k => (k.name, (dev, k))).foldl (fun m x => Grouping.push x.1 x.2 m) signMap := by
  rw [List.foldl_map]
  rfl

/-- A successful build has a module, so the map has all kernels of the successful builds. -/
theorem signaturesMap_eq (l : List (Nat × BuildInformation N)) (signMap : List (String × List (Nat × KernelInfo N))) :
    signaturesMap l signMap =
      some (((l.filter (·.2.isBuilt)).flatMap kernelsOf).foldl (fun m x => Grouping.push x.1 x.2 m) signMap) := by
  induction l generalizing signMap with
  | nil => rfl
  | cons e l ih =>
    cases hb : e.2.isBuilt with
    | false => simp [signaturesMap, hb, ih]
    | true =>
      obtain ⟨m, hm⟩ := Option.isSome_iff_exists.1 (e.2.hasBitCode (by simpa [BuildInformation.isBuilt] using hb))
      simp [signaturesMap, hb, hm, ih, pushKernels_eq, kernelsOf, List.foldl_append]

/-- The kernels of a name, of all the builds that have succeeded. -/
def infosOf (p : Program N) (name : String) : List (Nat × Option (KernelInfo N)) :=
  (p.buildInfo.filter fun e => Built e ∧ Defines name e).map fun e => (e.1, e.2.getKernel name)

theorem filter_name {ks : List (KernelInfo N)} (hnodup : (ks.map KernelInfo.name).Nodup) (name : String) :
    ks.filter (fun k => k.name = name) = (ks.find? (·.name == name)).toList := by
  induction ks with
  | nil => rfl
  | cons k ks ih =>
    rw [List.map_cons, List.nodup_cons] at hnodup
    by_cases h : k.name = name
    · have hnone : ks.filter (fun k => decide (k.name = name)) = [] := by
        refine List.filter_eq_nil_iff.2 fun k' hk' heq => hnodup.1 ?_
        rw [h, ← of_decide_eq_true heq]
        exact List.mem_map_of_mem hk'
      simp [h, hnone]
    · simp [h, ih hnodup.2]

theorem valuesAt_kernelsOf (p : Program N) (name : String) :
    (Grouping.valuesAt ((p.buildInfo.filter (·.2.isBuilt)).flatMap kernelsOf) name).map (fun y => (y.1, some y.2)) =
      p.infosOf name := by
  unfold infosOf
  induction p.buildInfo with
  | nil => rfl
  | cons e l ih =>
    have hone : ((kernelsOf e).filter (·.1 = name)).map Prod.snd = (e.2.getKernel name).toList.map (Prod.mk e.1) := by
      cases hm : e.2.bitCode with
      | none => simp [kernelsOf, hm, BuildInformation.getKernel]
      | some m =>
        simp only [kernelsOf, hm, BuildInformation.getKernel, Option.bind_some, Module.find, ← filter_name m.nodup,
          List.filter_map, List.map_map]
        rfl
    rw [Grouping.valuesAt] at ih ⊢
    by_cases hb : Built e
    · have hfilter : (e :: l).filter (·.2.isBuilt) = e :: l.filter (·.2.isBuilt) := by
        rw [List.filter_cons, if_pos (show e.2.isBuilt = true from hb)]
      rw [hfilter, List.flatMap_cons, List.filter_append, List.map_append, hone, List.map_append, ih]
      cases hk : e.2.getKernel name with
      | none => simp [Defines, hk]
      | some k => simp [Defines, hb, hk]
    · have hfilter : (e :: l).filter (·.2.isBuilt) = l.filter (·.2.isBuilt) := by
        rw [List.filter_cons, if_neg (show ¬ e.2.isBuilt = true from hb)]
      rw [hfilter, ih]
      simp [hb]

/-- The kernels that are made all at once: of each name, those of all successful builds. -/
theorem createKernelsInProgram_eq (p : Program N) : ∃ descs : List (KernelDescriptor N),
    (descs.map KernelDescriptor.name).Nodup ∧
    (∀ desc, desc ∈ descs ↔ desc.infos = p.infosOf desc.name ∧ desc.infos ≠ []) ∧
    ∀ numKernels kernels, p.createKernelsInProgram numKernels kernels =
      if p.buildInfo = [] then some (.error .invalidProgramExecutable)
      else if kernels then
        if numKernels < descs.length then some (.error .invalidValue) else some (.ok (descs, descs.length))
      else some (.ok ([], descs.length)) := by
  have hgroups := Grouping.groups_group ((p.buildInfo.filter (·.2.isBuilt)).flatMap kernelsOf)
  refine ⟨(Grouping.group ((p.buildInfo.filter (·.2.isBuilt)).flatMap kernelsOf)).map fun x =>
    { name := x.1, infos := x.2.map fun y => (y.1, some y.2) }, ?_, fun desc => ?_, fun numKernels kernels => ?_⟩
  · rw [List.map_map]
    exact hgroups.keys_nodup
  · rw [List.mem_map, ← valuesAt_kernelsOf]
    constructor
    · rintro ⟨x, hx, rfl⟩
      obtain ⟨heq, hne⟩ := hgroups.mem_iff.1 (show (x.1, x.2) ∈ _ from hx)
      exact ⟨by rw [← heq], by simpa using hne⟩
    · rintro ⟨heq, hne⟩
      refine ⟨(desc.name, _), hgroups.mem_iff.2 ⟨rfl, fun hnil => hne ?_⟩, by rw [← heq]⟩
      rw [heq, hnil]
      rfl
  · unfold createKernelsInProgram
    by_cases hnil : p.buildInfo = []
    · rw [if_pos (List.isEmpty_iff.2 hnil), if_pos hnil]
    · rw [if_neg (mt List.isEmpty_iff.1 hnil), if_neg hnil, signaturesMap_eq]
      simp only [Option.bind_eq_bind, Option.bind_some, List.length_map]
      rfl

theorem infosOf_eq_nil : p.infosOf name = [] ↔ ¬ ∃ e ∈ p.buildInfo, Built e ∧ Defines name e := by
  simp [infosOf, List.filter_eq_nil_iff]

/-- The kernels of a name are those of the first definition, if it has succeeded, and of the ones after it. -/
theorem infosOf_eq {F : Nat × BuildInformation N} {after : List (Nat × BuildInformation N)}
    (hfirst : p.fromFirst name = F :: after) (hall : ∀ e ∈ after, Built e → p.Matches name e F) :
    p.infosOf name = ((if Built F then [F] else []) ++ after.filter (·.2.isBuilt)).map
      fun e => (e.1, e.2.getKernel name) := by
  have hbefore : (p.before name).filter (fun e => Built e ∧ Defines name e) = [] :=
    List.filter_eq_nil_iff.2 fun e he h => not_defines_before he (of_decide_eq_true h).2
  have hafter : after.filter (fun e => Built e ∧ Defines name e) = after.filter (·.2.isBuilt) := by
    refine List.filter_congr fun e he => ?_
    rw [Bool.eq_iff_iff, decide_eq_true_iff]
    exact ⟨fun h => h.1, fun h => ⟨h, (hall e he h).defines.1⟩⟩
  rw [infosOf, buildInfo_eq p name, hfirst, List.filter_append, hbefore, List.nil_append, List.filter_cons, hafter]
  simp only [defines_first hfirst, and_true, decide_eq_true_eq]
  split <;> rfl

end Definitions

/-! ## The two agree -/

section Agreement
variable [DecidableEq N] [Fintype N]

/-- Room for the kernels that the program has, as an earlier call has counted them. -/
def HasRoom (p : Program N) (numKernels : Nat) : Prop :=
  ∀ r, p.createKernelsInProgram 0 false = some (.ok r) → r.2 ≤ numKernels

/-- The kernels made all at once are those that can be made one by one, and a conflict is an error of both. -/
structure BulkAgrees (p : Program N) (numKernels : Nat) : Prop where
  same : ∀ desc, (∃ r, p.createKernelsInProgram numKernels true = some (.ok r) ∧ desc ∈ r.1) ↔
    p.createKernel desc.name = some (.ok desc)
  once : ∀ r, p.createKernelsInProgram numKernels true = some (.ok r) → (r.1.map KernelDescriptor.name).Nodup
  conflict : ∀ name msg, p.createKernel name = some (.error (.invalidKernelDefinition, msg)) →
    ∃ e, p.createKernelsInProgram numKernels true = some (.error e)

/-- What the builds have to be for the two to agree on a name. -/
structure Alike (p : Program N) (name : String) : Prop where
  /-- A kernel of a successful build is found first in a successful build, with which the later ones go along. -/
  defined : (∃ e ∈ p.buildInfo, Built e ∧ Defines name e) → (∀ e ∈ p.before name, e.2.bitCode.isSome) ∧
    ∃ F after, p.fromFirst name = F :: after ∧ Built F ∧ ∀ e ∈ after, Built e → p.Matches name e F
  /-- One of failed builds only is not found, or a later build that has succeeded does not have it. -/
  stale : (¬ ∃ e ∈ p.buildInfo, Built e ∧ Defines name e) → ∀ F after, p.fromFirst name = F :: after →
    (∃ e ∈ p.before name, e.2.bitCode = none) ∨ ∃ e ∈ after, Built e

/-- One name of the two: the kernels made at once are those made for it, without a conflict. -/
structure NameAgrees (p : Program N) (name : String) : Prop where
  same : ∀ infos, infos = p.infosOf name ∧ infos ≠ [] ↔ p.createKernel name = some (.ok { name, infos })
  noConflict : ∀ msg, p.createKernel name ≠ some (.error (.invalidKernelDefinition, msg))

variable {p : Program N} {name : String}

/-- Without a kernel of its own, the name must not have one at once either. -/
theorem nameAgrees_of_fails (hfails : ∀ desc, p.createKernel name ≠ some (.ok desc))
    (hconflict : ∀ msg, p.createKernel name ≠ some (.error (.invalidKernelDefinition, msg))) :
    p.NameAgrees name ↔ ¬ ∃ e ∈ p.buildInfo, Built e ∧ Defines name e := by
  rw [← infosOf_eq_nil]
  constructor
  · intro h
    by_contra hne
    exact hfails _ ((h.same _).1 ⟨rfl, hne⟩)
  · intro hnil
    refine ⟨fun infos => iff_of_false ?_ (hfails _), hconflict⟩
    rintro ⟨rfl, hne⟩
    exact hne hnil

/-- The kernel made is of the first definition, so the two differ if that has not succeeded. -/
theorem nameAgrees_of_even {F : Nat × BuildInformation N} {after : List (Nat × BuildInformation N)}
    (hfirst : p.fromFirst name = F :: after) (hall : ∀ e ∈ after, Built e → p.Matches name e F)
    (hcreate : p.createKernel name =
      some (.ok { name, infos := (F :: after.filter (·.2.isBuilt)).map fun e => (e.1, e.2.getKernel name) })) :
    p.NameAgrees name ↔ Built F := by
  have hinfos := infosOf_eq hfirst hall
  constructor
  · intro h
    by_contra hF
    rw [if_neg hF, List.nil_append] at hinfos
    have heq := ((h.same _).2 hcreate).1
    rw [hinfos] at heq
    have hlength := congrArg List.length heq
    rw [List.length_map, List.length_map, List.length_cons] at hlength
    omega
  · intro hF
    rw [if_pos hF, List.singleton_append] at hinfos
    refine ⟨fun infos => ?_, fun msg h => by rw [hcreate] at h; cases h⟩
    rw [hcreate, ← hinfos]
    constructor
    · rintro ⟨rfl, -⟩
      rfl
    · intro h
      cases h
      exact ⟨rfl, by rw [hinfos]; exact List.cons_ne_nil _ _⟩

omit [DecidableEq N] [Fintype N] in
/-- A name without a definition in a successful build is not made; when it is not made, it must be such. -/
theorem alike_iff_not_defined (hdefined : (∃ e ∈ p.buildInfo, Built e ∧ Defines name e) →
      ¬ ((∀ e ∈ p.before name, e.2.bitCode.isSome) ∧
        ∃ F after, p.fromFirst name = F :: after ∧ Built F ∧ ∀ e ∈ after, Built e → p.Matches name e F))
    (hstale : ∀ F after, p.fromFirst name = F :: after →
      (∃ e ∈ p.before name, e.2.bitCode = none) ∨ ∃ e ∈ after, Built e) :
    p.Alike name ↔ ¬ ∃ e ∈ p.buildInfo, Built e ∧ Defines name e :=
  ⟨fun h hex => hdefined hex (h.defined hex), fun hno => ⟨fun hex => absurd hex hno, fun _ => hstale⟩⟩

theorem not_even_of_odd {F e : Nat × BuildInformation N} {after : List (Nat × BuildInformation N)}
    (hfirst : p.fromFirst name = F :: after) (hodd : after.find? (p.isOdd name F) = some e) :
    ¬ ∃ F after, p.fromFirst name = F :: after ∧ Built F ∧ ∀ e ∈ after, Built e → p.Matches name e F := by
  obtain ⟨he, hbuilt, hne⟩ := find_isOdd_eq_some hfirst hodd
  rintro ⟨F', after', hfirst', -, hall⟩
  cases hfirst.symm.trans hfirst'
  exact hne (hall e he hbuilt)

theorem nameAgrees_iff (p : Program N) (name : String) : p.NameAgrees name ↔ p.Alike name := by
  have houtcome := createKernel_outcome p name
  generalize hr : p.createKernel name = r at houtcome
  cases houtcome with
  | unbuilt hnil =>
    rw [nameAgrees_of_fails (by simp [hr]) (by simp [hr]), alike_iff_not_defined]
    · simp [hnil]
    · simp [fromFirst, hnil]
  | noModule he hnone =>
    rw [nameAgrees_of_fails (by simp [hr]) (by simp [hr]), alike_iff_not_defined]
    · rintro - ⟨hmods, -⟩
      have hsome := hmods _ he
      rw [hnone] at hsome
      cases hsome
    · exact fun F after _ => .inl ⟨_, he, hnone⟩
  | undefined hmods hfirst =>
    have hno : ¬ ∃ e ∈ p.buildInfo, Built e ∧ Defines name e := by
      rintro ⟨e, he, -, hdef⟩
      rw [buildInfo_eq p name, hfirst, List.append_nil] at he
      exact not_defines_before he hdef
    rw [nameAgrees_of_fails (by simp [hr]) (by simp [hr]), alike_iff_not_defined]
    · exact fun h => absurd h hno
    · simp [hfirst]
  | @even F after hmods hfirst hodd =>
    have hall := (find_isOdd_eq_none hfirst).1 hodd
    rw [nameAgrees_of_even hfirst hall hr]
    obtain ⟨hF, hafter⟩ := after_mem hfirst
    constructor
    · intro hbuilt
      exact ⟨fun _ => ⟨hmods, F, after, hfirst, hbuilt, hall⟩, fun hno => absurd ⟨F, hF, hbuilt, defines_first hfirst⟩ hno⟩
    · intro h
      by_cases hex : ∃ e ∈ p.buildInfo, Built e ∧ Defines name e
      · obtain ⟨-, F', after', hfirst', hbuilt, -⟩ := h.defined hex
        cases hfirst.symm.trans hfirst'
        exact hbuilt
      · rcases h.stale hex F after hfirst with ⟨e, he, hnone⟩ | ⟨e, he, hbuilt⟩
        · have hsome := hmods e he
          rw [hnone] at hsome
          cases hsome
        · exact absurd ⟨e, (hafter e he).1, hbuilt, (hall e he hbuilt).defines.1⟩ hex
  | odd hmods hfirst hodd hdef =>
    obtain ⟨he, hbuilt, -⟩ := find_isOdd_eq_some hfirst hodd
    refine iff_of_false (fun h => h.noConflict _ hr) fun h => not_even_of_odd hfirst hodd ?_
    exact (h.defined ⟨_, ((after_mem hfirst).2 _ he).1, hbuilt, hdef⟩).2
  | noSignature hfirst hodd hdef =>
    obtain ⟨he, hbuilt, -⟩ := find_isOdd_eq_some hfirst hodd
    rw [nameAgrees_of_fails (by simp [hr]) (by simp [hr]), alike_iff_not_defined]
    · exact fun _ h => not_even_of_odd hfirst hodd h.2
    · intro F' after' hfirst'
      cases hfirst.symm.trans hfirst'
      exact .inr ⟨_, he, hbuilt⟩

theorem bulkAgrees_iff_names {numKernels : Nat} (hroom : p.HasRoom numKernels) :
    p.BulkAgrees numKernels ↔ ∀ name, p.NameAgrees name := by
  obtain ⟨descs, hnodup, hmem, heq⟩ := createKernelsInProgram_eq p
  by_cases hnil : p.buildInfo = []
  · have hbulk : p.createKernelsInProgram numKernels true = some (.error .invalidProgramExecutable) := by
      rw [heq, if_pos hnil]
    have hsingle : ∀ name, p.createKernel name = some (.error (.invalidProgramExecutable, "no program has been built")) :=
      fun name => by rw [createKernel_eq, if_pos hnil]
    refine iff_of_true ⟨fun desc => ?_, ?_, ?_⟩ fun name => ⟨fun infos => ?_, ?_⟩
    · simp [hbulk, hsingle]
    · simp [hbulk]
    · simp [hsingle]
    · simp [hsingle, infosOf, hnil]
    · simp [hsingle]
  · have hle : descs.length ≤ numKernels := hroom ([], descs.length) (by simp [heq, hnil])
    have hbulk : p.createKernelsInProgram numKernels true = some (.ok (descs, descs.length)) := by
      rw [heq, if_neg hnil, if_pos rfl, if_neg (by omega)]
    have hyields : ∀ desc, (∃ r, p.createKernelsInProgram numKernels true = some (.ok r) ∧ desc ∈ r.1) ↔
        desc.infos = p.infosOf desc.name ∧ desc.infos ≠ [] := by
      intro desc
      rw [hbulk, ← hmem]
      simp
    constructor
    · intro h name
      refine ⟨fun infos => (hyields { name, infos }).symm.trans (h.same { name, infos }), fun msg hmsg => ?_⟩
      obtain ⟨e, he⟩ := h.conflict name msg hmsg
      rw [hbulk] at he
      cases he
    · intro h
      refine ⟨fun desc => (hyields desc).trans ((h desc.name).same desc.infos), fun r hr => ?_, fun name msg hmsg => ?_⟩
      · rw [hbulk] at hr
        cases hr
        exact hnodup
      · exact absurd hmsg ((h name).noConflict msg)

/-- The two agree, whenever there is room for the kernels, exactly when the builds are so for each name. -/
theorem bulk_agrees_iff (p : Program N) :
    (∀ numKernels, p.HasRoom numKernels → p.BulkAgrees numKernels) ↔ ∀ name, p.Alike name := by
  rw [show (∀ name, p.Alike name) ↔ ∀ name, p.NameAgrees name from
    forall_congr' fun name => (nameAgrees_iff p name).symm]
  constructor
  · intro h
    obtain ⟨descs, -, -, heq⟩ := createKernelsInProgram_eq p
    have hroom : p.HasRoom descs.length := by
      intro r hr
      rw [heq] at hr
      split at hr
      · cases hr
      · cases hr
        exact le_rfl
    exact (bulkAgrees_iff_names hroom).1 (h _ hroom)
  · exact fun h numKernels hroom => (bulkAgrees_iff_names hroom).2 h

/-- A kernel of the name has an argument for the first device, and none for the second. -/
def conflicting : Program Unit where
  types := { context := fun _ => 0, desc := fun _ => .primitive .int, context_part := nofun, qual_raw := nofun,
             depth := fun _ => 0, depth_part := nofun, maxDepth := 0, depth_le := fun _ => le_rfl }
  buildInfo := [
    (0, { buildStatus := .success, hasBitCode := fun _ => rfl,
          bitCode := some { kernels := [{ name := "k", function := 7, signature := [()] }], nodup := by decide } }),
    (1, { buildStatus := .success, hasBitCode := fun _ => rfl,
          bitCode := some { kernels := [{ name := "k", function := 8, signature := [] }], nodup := by decide } })]
  nodup := by decide
  context_eq := by
    intro e he m hm k hk t ht
    rcases List.mem_cons.1 he with rfl | he
    · rfl
    · obtain rfl := List.mem_singleton.1 he
      cases hm
      obtain rfl := List.mem_singleton.1 hk
      cases ht

/-- Made all at once, there is one kernel for both. -/
theorem conflict_not_reported : conflicting.HasRoom 1 ∧ ¬ conflicting.BulkAgrees 1 := by
  have hbulk : conflicting.createKernelsInProgram 1 true = some (.ok ([{ name := "k", infos := [
      (0, some { name := "k", function := 7, signature := [()] }),
      (1, some { name := "k", function := 8, signature := [] })] }], 1)) := by decide
  have hsingle : conflicting.createKernel "k" =
      some (.error (.invalidKernelDefinition, "kernel signatures do not match")) := by decide
  constructor
  · intro r hr
    have hcount : conflicting.createKernelsInProgram 0 false = some (.ok ([], 1)) := by decide
    rw [hcount] at hr
    cases hr
    exact le_rfl
  · intro h
    obtain ⟨e, he⟩ := h.conflict "k" _ hsingle
    rw [hbulk] at he
    cases he

end Agreement

end Program

end OpenCRun
