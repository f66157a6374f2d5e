import OpenCRun.Core.ProgramQueries
/-!
# Builds that are refused

`Program::Build` puts an entry for the device into `BuildInfo` before it looks
whether there is something to build for it. `CreateKernel` and the queries
look at the entries.
-/
open Lib

namespace OpenCRun.RefusedBuild

open ProgramQueries

variable {N : Type}

/-! ## Creating a kernel -/

/-- The loop of `CreateKernel` for the first build that defines the kernel, over the devices in the order of the map. -/
def findDefinition (p : State N) (name : String) : List Nat → Checked (Option Nat)
  | [] => pure none
  | dev :: devs =>
    match p.buildInfo dev with
    | none => findDefinition p name devs
    | some info => do
      let info ← deref info
      Checked.check info.bitCode.isSome
      if (info.defineKernel name).getD false then pure (some dev) else findDefinition p name devs

/-- `Program::CreateKernel`, up to the device that it finds. -/
def createKernel (devs : List Nat) (p : State N) (name : String) : Checked (Except (Program.ErrCode × String) Nat) :=
  if devs.all fun dev => (p.buildInfo dev).isNone then
    pure (.error (.invalidProgramExecutable, "no program has been built"))
  else do
    match ← findDefinition p name devs with
    | none => pure (.error (.invalidKernelName, "no kernel definition"))
    | some dev => pure (.ok dev)

/-! ## Refusals -/

/-- The build ends before the compiler is called, with an error. -/
def Refused : Status → Prop
  | .invalidDevice | .invalidBinary | .invalidOperation => True
  | .success | .invalidValue | .invalidProgramExecutable | .buildProgramFailure => False

instance : DecidablePred Refused := fun status => by
  cases status <;> first | exact isTrue trivial | exact isFalse id

/-- The entries are what they were, and what looks at them sees no difference. -/
structure NoTrace (p p' : State N) : Prop where
  buildInfo : p'.buildInfo = p.buildInfo
  createKernel : ∀ devs name, createKernel devs p' name = createKernel devs p name
  programInfo : ∀ paramName, Prod.fst <$> clGetProgramInfo p' paramName = Prod.fst <$> clGetProgramInfo p paramName
  programBuildInfo : ∀ device paramName,
    Prod.fst <$> clGetProgramBuildInfo p' device paramName = Prod.fst <$> clGetProgramBuildInfo p device paramName

/-- With the entry for the device. -/
def entered (p : State N) (dev : Nat) : State N :=
  if (p.buildInfo dev).isNone then p.setBuildInfo dev (some .new) else p

section Refusals
variable {compilers : Nat → DeviceCompiler N} {p : State N} {dev : Nat} {opts : String}

theorem entered_of_isSome (h : (p.buildInfo dev).isSome) : entered p dev = p := by
  obtain ⟨info, hinfo⟩ := Option.isSome_iff_exists.1 h
  rw [entered, hinfo]
  rfl

theorem entered_isSome (p : State N) (dev : Nat) : ((entered p dev).buildInfo dev).isSome := by
  unfold entered
  split
  · simp [State.setBuildInfo]
  · next h => simpa [Option.isSome_iff_ne_none] using h

theorem index_entered (p : State N) (dev : Nat) : ((entered p dev).index dev).2 = entered p dev := by
  obtain ⟨info, hinfo⟩ := Option.isSome_iff_exists.1 (entered_isSome p dev)
  rw [State.index, hinfo]

/-- All that a build does that is refused is to enter the device. -/
theorem buildFor_refused (h : Refused (buildFor compilers p dev opts).val.1) :
    (buildFor compilers p dev opts).val.2 = entered p dev := by
  have hindex := index_entered p dev
  unfold buildFor at h ⊢
  simp only [Checked.val_bind, Checked.val_ite] at h ⊢
  rw [show (if (p.buildInfo dev).isNone then p.setBuildInfo dev (some .new) else p) = entered p dev from rfl] at h ⊢
  split
  · exact hindex
  · next hdev =>
    rw [if_neg hdev] at h
    split
    · exact hindex
    · next src hsrc =>
      rw [hsrc] at h
      rw [Checked.val_ite] at h ⊢
      split
      · exact hindex
      · next hprogress =>
        rw [if_neg hprogress] at h
        dsimp only [Checked.val_pure] at h
        split at h <;> exact h.elim

/-- A build that is refused leaves no trace exactly where the device has an entry before. -/
theorem noTrace_iff (h : Refused (buildFor compilers p dev opts).val.1) :
    NoTrace p (buildFor compilers p dev opts).val.2 ↔ (p.buildInfo dev).isSome := by
  rw [buildFor_refused h]
  constructor
  · intro hno
    rw [← hno.buildInfo]
    exact entered_isSome p dev
  · intro hentry
    rw [entered_of_isSome hentry]
    exact ⟨rfl, fun _ _ => rfl, fun _ => rfl, fun _ _ => rfl⟩

/-- Without a build before, a kernel is refused as not built; after the build that is refused, a null module is
dereferenced. -/
theorem createKernel_after (h : Refused (buildFor compilers p dev opts).val.1) (hnone : ∀ d, p.buildInfo d = none)
    {devs : List Nat} (hdev : dev ∈ devs) (name : String) :
    createKernel devs p name = pure (.error (.invalidProgramExecutable, "no program has been built")) ∧
      (createKernel devs (buildFor compilers p dev opts).val.2 name).ok = false := by
  rw [buildFor_refused h]
  have hentry : (entered p dev).buildInfo dev = some (some .new) := by simp [entered, hnone dev, State.setBuildInfo]
  have hother : ∀ d, d ≠ dev → (entered p dev).buildInfo d = none := by
    intro d hne
    simp [entered, hnone, State.setBuildInfo, hne]
  have hfind : (findDefinition (entered p dev) name devs).ok = false := by
    induction devs with
    | nil => cases hdev
    | cons d devs ih =>
      by_cases heq : d = dev
      · rw [findDefinition, heq, hentry]
        rfl
      · rw [findDefinition, hother d heq]
        exact ih ((List.mem_cons.1 hdev).resolve_left (Ne.symm heq))
  have hall : (devs.all fun d => ((entered p dev).buildInfo d).isNone) = false :=
    List.all_eq_false.2 ⟨dev, hdev, by rw [hentry]; exact Bool.false_ne_true⟩
  constructor
  · rw [createKernel, if_pos (by simp [hnone])]
  · rw [createKernel, hall, if_neg Bool.false_ne_true, Checked.ok_bind, hfind, Bool.false_and]

end Refusals

/-- A program from a binary that is no bitcode. -/
def badBinary : State Nat := fromBinaries (fun _ => anyCompiler) [0] [(0, [])]

theorem badBinary_noTrace : NoTrace badBinary (buildFor (fun _ => anyCompiler) badBinary 0 "").val.2 := by
  have hrefused : Refused (buildFor (fun _ => anyCompiler) badBinary 0 "").val.1 := by decide
  exact (noTrace_iff hrefused).2 rfl

/-- A program from source, for a device of another context. -/
theorem otherDevice_trace : Refused (buildFor (fun _ => anyCompiler) (fromSource [0] "kernel void f() { }") 1 "").val.1 ∧
    ¬ NoTrace (fromSource [0] "kernel void f() { }")
      (buildFor (fun _ => anyCompiler) (fromSource [0] "kernel void f() { }") 1 "").val.2 := by
  refine ⟨by decide, fun h => ?_⟩
  have hentry : ((buildFor (fun _ => anyCompiler) (fromSource (N := Nat) [0] "kernel void f() { }") 1 "").val.2.buildInfo
      1).isSome := rfl
  rw [h.buildInfo] at hentry
  cases hentry

end OpenCRun.RefusedBuild
