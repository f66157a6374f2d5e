import OpenCRun.Lib.Checked
import OpenCRun.Lib.Runs
import OpenCRun.Core.Program
/-!
# Queries of a program

`Program.h` and `tools/libOpenCRun/Program.cpp`: a program looks up its builds
with the operator of the map that inserts a null pointer for a device without
one. A check says where a pointer is dereferenced.
-/
open Lib Lib.Runs

namespace OpenCRun.ProgramQueries

open Program (BuildStatus Module)

/-- `BuildInformation`, with all that the queries return. -/
structure BuildInformation (N : Type) extends Program.BuildInformation N where
  buildOptions : String := ""
  buildLog : String := ""
  binary : Option (List UInt8) := none

/-- What a device's compiler does with a module, or the failure. -/
structure DeviceCompiler (N : Type) where
  /-- Of the source and the options; with the text for the log. -/
  compileSource : String → String → Option (Module N) × String
  optimize : Module N → Option (Module N)
  linkInBuiltins : Module N → Option (Module N)
  loadBitcode : List UInt8 → Option (Module N)
  writeBitcode : Module N → List UInt8

inductive Status where
  | success
  | invalidValue
  | invalidDevice
  | invalidBinary
  | invalidOperation
  | invalidProgramExecutable
  | buildProgramFailure
  deriving DecidableEq, Repr

/-- A program in a context of some devices. -/
structure State (N : Type) where
  contextDevices : List Nat
  referenceCount : Nat := 1
  /-- Null for a program from binaries. -/
  src : Option String := none
  devices : List Nat := []
  /-- The map: for a device without a key, with a null pointer, or with a build. -/
  buildInfo : Nat → Option (Option (BuildInformation N)) := fun _ => none
  attachedKernels : List String := []

variable {N : Type}

namespace State

def setBuildInfo (p : State N) (dev : Nat) (info : Option (BuildInformation N)) : State N :=
  { p with buildInfo := fun d => if d = dev then some info else p.buildInfo d }

/-- `BuildInfo[&Dev]`; a key that is new gets a null pointer. -/
def index (p : State N) (dev : Nat) : Option (BuildInformation N) × State N :=
  match p.buildInfo dev with
  | some info => (info, p)
  | none => (none, p.setBuildInfo dev none)

end State

def BuildInformation.new : BuildInformation N := { buildStatus := .none, bitCode := none, hasBitCode := nofun }

/-- The dereferenced pointer. -/
def deref (info : Option (BuildInformation N)) : Checked (BuildInformation N) := do
  Checked.check info.isSome
  pure (info.getD .new)

/-! ## Builds -/

/-- The pipeline of `Build`; the last two stages may be the reason that it fails. -/
def DeviceCompiler.compile (c : DeviceCompiler N) (src opts : String) : Option (Module N) × String :=
  let (bitCode, log) := c.compileSource src opts
  let bitCode := if "-cl-opt-disable".toList <:+: opts.toList then bitCode else bitCode.bind c.optimize
  (bitCode.bind c.linkInBuiltins, log)

/-- A build that is done. A failure leaves the binary and the module of the build before. -/
def BuildInformation.done (info : BuildInformation N) (c : DeviceCompiler N) (opts : String)
    (result : Option (Module N) × String) : BuildInformation N :=
  let info := { info with buildOptions := opts, buildLog := info.buildLog ++ result.2 }
  match result.1 with
  | some m => { info with
      buildStatus := .success, bitCode := some m, hasBitCode := fun _ => rfl, binary := some (c.writeBitcode m) }
  | none => { info with buildStatus := .error, hasBitCode := nofun }

section Builds
variable (compilers : Nat → DeviceCompiler N)

/-- `Program::Build` for one device. -/
def buildFor (p : State N) (dev : Nat) (opts : String) : Checked (Status × State N) := do
  let p := if (p.buildInfo dev).isNone then p.setBuildInfo dev (some .new) else p
  let (info, p) := p.index dev
  let info ← deref info
  -- The entry stays, even if the device is none of the program's.
  if dev ∉ p.devices then pure (.invalidDevice, p)
  else
    match p.src with
    | none => pure (if info.bitCode.isNone then .invalidBinary else .success, p)
    | some src =>
      if info.buildStatus = .inProgress then pure (.invalidOperation, p)
      else
        let result := (compilers dev).compile src opts
        pure (if result.1.isSome then .success else .buildProgramFailure,
          p.setBuildInfo dev (some (info.done (compilers dev) opts result)))

/-- The loop of `Program::Build`, which stops at an error. -/
def buildLoop (opts : String) : List Nat → State N → Checked (Status × State N)
  | [], p => pure (.success, p)
  | dev :: devs, p => do
    let (status, p) ← buildFor compilers p dev opts
    if status = .success then buildLoop opts devs p else pure (status, p)

/-- `Program::Build`, for all the devices of the program if none are given. -/
def build (p : State N) (devs : List Nat) (opts : String) : Checked (Status × State N) :=
  if p.attachedKernels ≠ [] then pure (.invalidOperation, p)
  else buildLoop compilers opts (if devs = [] then p.devices else devs) p

/-- The constructor from source. -/
def fromSource (contextDevices : List Nat) (src : String) : State N :=
  { contextDevices, src := some src, devices := contextDevices }

/-- The entry of a binary. -/
def loaded (c : DeviceCompiler N) (binary : List UInt8) : BuildInformation N :=
  match c.loadBitcode binary with
  | some m => { buildStatus := .success, bitCode := some m, hasBitCode := fun _ => rfl, binary := some binary }
  | none => { BuildInformation.new with binary := some binary }

/-- The constructor from binaries. -/
def fromBinaries (contextDevices : List Nat) (binaries : List (Nat × List UInt8)) : State N :=
  binaries.foldl (fun p b =>
    { p with devices := p.devices ++ [b.1] }.setBuildInfo b.1 (some (loaded (compilers b.1) b.2))) { contextDevices }

end Builds

/-! ## The queries -/

/-- `IsBuiltFor` -/
def isBuiltFor (p : State N) (dev : Nat) : Checked (Bool × State N) := do
  let (info, p) := p.index dev
  let info ← deref info
  pure (info.isBuilt, p)

/-- `GetBuildInformation` -/
def getBuildInformation (p : State N) (dev : Nat) : Checked (BuildInformation N × State N) := do
  let (info, p) := p.index dev
  let info ← deref info
  pure (info, p)

/-- `GetBinary` -/
def BuildInformation.getBinary (info : BuildInformation N) : Checked (List UInt8) := do
  Checked.check info.binary.isSome
  pure (info.binary.getD [])

/-- `GetBinarySize` -/
def BuildInformation.getBinarySize (info : BuildInformation N) : Checked Nat := do
  let binary ← info.getBinary
  pure binary.length

/-- `GetSource` -/
def getSource (p : State N) : Checked String := do
  Checked.check p.src.isSome
  pure (p.src.getD "")

inductive ProgramInfo where
  | referenceCount | context | numDevices | devices | source | binarySizes | binaries | numKernels | kernelNames | other
  deriving DecidableEq, Repr

inductive ProgramBuildInfo where
  | buildStatus | buildOptions | buildLog | other
  deriving DecidableEq, Repr

/-- What is filled in for the caller. -/
inductive Value where
  | number (n : Nat)
  | context
  | devices (devs : List Nat)
  | text (s : String)
  | sizes (sizes : List Nat)
  | binaries (binaries : List (List UInt8))
  | buildStatus (status : BuildStatus)
  deriving DecidableEq, Repr

/-- The loop over the devices for their binaries. A device that is not built has `absent`. -/
def forBinaries {α : Type} (get : BuildInformation N → Checked α) (absent : α) :
    List Nat → State N → Checked (List α × State N)
  | [], p => pure ([], p)
  | dev :: devs, p => do
    let (built, p) ← isBuiltFor p dev
    if built then
      let (info, p) ← getBuildInformation p dev
      let a ← get info
      let (rest, p) ← forBinaries get absent devs p
      pure (a :: rest, p)
    else
      let (rest, p) ← forBinaries get absent devs p
      pure (absent :: rest, p)

def kernelNames (p : State N) : String := String.join (p.attachedKernels.map (· ++ ";"))

def clGetProgramInfo (p : State N) : ProgramInfo → Checked (Except Status Value × State N)
  | .referenceCount => pure (.ok (.number p.referenceCount), p)
  | .context => pure (.ok .context, p)
  | .numDevices => pure (.ok (.number p.devices.length), p)
  | .devices => pure (.ok (.devices p.devices), p)
  | .source => do
    let src ← getSource p
    pure (.ok (.text src), p)
  | .binarySizes => do
    let (sizes, p) ← forBinaries BuildInformation.getBinarySize 0 p.devices p
    pure (.ok (.sizes sizes), p)
  | .binaries => do
    let (binaries, p) ← forBinaries BuildInformation.getBinary [] p.devices p
    pure (.ok (.binaries binaries), p)
  | .numKernels =>
    pure (if p.attachedKernels = [] then .error .invalidProgramExecutable
      else .ok (.number p.attachedKernels.length), p)
  | .kernelNames =>
    pure (if p.attachedKernels = [] then .error .invalidProgramExecutable else .ok (.text (kernelNames p)), p)
  | .other => pure (.error .invalidValue, p)

/-- `clGetProgramBuildInfo`; the device may be null. -/
def clGetProgramBuildInfo (p : State N) (device : Option Nat) (paramName : ProgramBuildInfo) :
    Checked (Except Status Value × State N) :=
  match device with
  | none => pure (.error .invalidDevice, p)
  | some dev =>
    if dev ∉ p.contextDevices then pure (.error .invalidDevice, p)
    else do
      let (info, p) ← getBuildInformation p dev
      match paramName with
      | .buildStatus => pure (.ok (.buildStatus info.buildStatus), p)
      | .buildOptions => pure (.ok (.text info.buildOptions), p)
      | .buildLog => pure (.ok (.text info.buildLog), p)
      | .other => pure (.error .invalidValue, p)

inductive Query where
  | isBuiltFor (dev : Nat)
  | getBuildInformation (dev : Nat)
  | programInfo (paramName : ProgramInfo)
  | programBuildInfo (device : Option Nat) (paramName : ProgramBuildInfo)
  deriving DecidableEq, Repr

/-- The program after a query. -/
def ask (p : State N) : Query → Checked (State N)
  | .isBuiltFor dev => Prod.snd <$> isBuiltFor p dev
  | .getBuildInformation dev => Prod.snd <$> getBuildInformation p dev
  | .programInfo paramName => Prod.snd <$> clGetProgramInfo p paramName
  | .programBuildInfo device paramName => Prod.snd <$> clGetProgramBuildInfo p device paramName

/-! ## Runs -/

inductive Label where
  | build (devs : List Nat) (opts : String)
  | createKernels (names : List String)
  | detachKernel (name : String)
  | setReferenceCount (n : Nat)
  | ask (q : Query)
  deriving DecidableEq, Repr

def Label.isQuery : Label → Bool
  | .ask _ => true
  | _ => false

section Runs
variable (compilers : Nat → DeviceCompiler N)

def run (p : State N) : Label → State N
  | .build devs opts => (build compilers p devs opts).val.2
  | .createKernels names => { p with attachedKernels := p.attachedKernels ++ names }
  | .detachKernel name => { p with attachedKernels := p.attachedKernels.erase name }
  | .setReferenceCount n => { p with referenceCount := n }
  | .ask q => (ask p q).val

/-- A program from source, or from binaries for devices of its context. -/
def system : System (State N) Label where
  init p := (∃ contextDevices src, p = fromSource contextDevices src) ∨
    ∃ contextDevices binaries, binaries ≠ [] ∧ (binaries.map Prod.fst).Nodup ∧
      (∀ b ∈ binaries, b.1 ∈ contextDevices) ∧ p = fromBinaries compilers contextDevices binaries
  step p l p' := p' = run compilers p l

end Runs

/-- A query dereferences no null pointer, and leaves the program as it was. -/
structure Harmless (p : State N) (q : Query) : Prop where
  total : (ask p q).ok = true
  unchanged : (ask p q).val = p

def HasBuild (p : State N) (dev : Nat) : Prop := ∃ info, p.buildInfo dev = some (some info)

/-- The devices that a query looks up have builds, and the source it returns is there. -/
def Answerable (p : State N) : Query → Prop
  | .isBuiltFor dev => HasBuild p dev
  | .getBuildInformation dev => HasBuild p dev
  | .programInfo .source => p.src.isSome
  | .programInfo .binarySizes => ∀ dev ∈ p.devices, HasBuild p dev
  | .programInfo .binaries => ∀ dev ∈ p.devices, HasBuild p dev
  | .programInfo _ => True
  | .programBuildInfo none _ => True
  | .programBuildInfo (some dev) _ => dev ∈ p.contextDevices → HasBuild p dev

/-! ## The binary of a build -/

/-- A build that has succeeded has its binary. -/
def BinaryKept (p : State N) : Prop :=
  ∀ dev info, p.buildInfo dev = some (some info) → info.buildStatus = .success → info.binary.isSome

theorem BinaryKept.setBuildInfo {p : State N} (h : BinaryKept p) (dev : Nat) {info : Option (BuildInformation N)}
    (hinfo : ∀ i ∈ info, i.buildStatus = .success → i.binary.isSome) : BinaryKept (p.setBuildInfo dev info) := by
  intro d i hd
  unfold State.setBuildInfo at hd
  dsimp only at hd
  split at hd
  · exact hinfo i (Option.some.inj hd)
  · exact h d i hd

theorem BinaryKept.index {p : State N} (h : BinaryKept p) (dev : Nat) : BinaryKept (p.index dev).2 := by
  unfold State.index
  split
  · exact h
  · exact h.setBuildInfo dev nofun

theorem done_binary (info : BuildInformation N) (c : DeviceCompiler N) (opts : String) (result : Option (Module N) × String)
    (h : (info.done c opts result).buildStatus = .success) : (info.done c opts result).binary.isSome := by
  unfold BuildInformation.done at h ⊢
  dsimp only at h ⊢
  split at h
  · rfl
  · cases h

theorem loaded_binary (c : DeviceCompiler N) (binary : List UInt8) : (loaded c binary).binary.isSome := by
  unfold loaded
  split <;> rfl

variable {compilers : Nat → DeviceCompiler N}

theorem BinaryKept.buildFor {p : State N} (h : BinaryKept p) (dev : Nat) (opts : String) :
    BinaryKept (buildFor compilers p dev opts).val.2 := by
  have hnew : BinaryKept (if (p.buildInfo dev).isNone then p.setBuildInfo dev (some .new) else p) := by
    split
    · exact h.setBuildInfo dev fun i hi hs => by
        obtain rfl := Option.some.inj hi
        cases hs
    · exact h
  unfold ProgramQueries.buildFor
  simp only [Checked.val_bind, Checked.val_ite]
  generalize (if (p.buildInfo dev).isNone then p.setBuildInfo dev (some .new) else p) = p' at hnew ⊢
  have hindex : BinaryKept (p'.index dev).2 := hnew.index dev
  split
  · exact hindex
  split
  · exact hindex
  · rw [Checked.val_ite]
    split
    · exact hindex
    · exact hindex.setBuildInfo dev fun i hi hs => by
        obtain rfl := Option.some.inj hi
        exact done_binary _ _ _ _ hs

theorem BinaryKept.buildLoop {p : State N} (h : BinaryKept p) (opts : String) (devs : List Nat) :
    BinaryKept (buildLoop compilers opts devs p).val.2 := by
  induction devs generalizing p with
  | nil => exact h
  | cons dev devs ih =>
    have hfor : BinaryKept (ProgramQueries.buildFor compilers p dev opts).val.2 := h.buildFor dev opts
    simp only [ProgramQueries.buildLoop, Checked.val_bind, Checked.val_ite]
    split
    · exact ih hfor
    · exact hfor

theorem BinaryKept.fromBinaries {p : State N} (h : BinaryKept p) (binaries : List (Nat × List UInt8)) :
    BinaryKept (binaries.foldl (fun p b =>
      { p with devices := p.devices ++ [b.1] }.setBuildInfo b.1 (some (loaded (compilers b.1) b.2))) p) := by
  induction binaries generalizing p with
  | nil => exact h
  | cons b binaries ih =>
    have hdev : BinaryKept { p with devices := p.devices ++ [b.1] } := h
    exact ih (hdev.setBuildInfo b.1 fun i hi _ => by
      obtain rfl := Option.some.inj hi
      exact loaded_binary _ _)

theorem BinaryKept.forBinaries {α : Type} {get : BuildInformation N → Checked α} {absent : α} {p : State N}
    (h : BinaryKept p) (devs : List Nat) : BinaryKept (forBinaries get absent devs p).val.2 := by
  induction devs generalizing p with
  | nil => exact h
  | cons dev devs ih =>
    have hfirst : BinaryKept (p.index dev).2 := h.index dev
    simp only [ProgramQueries.forBinaries, Checked.val_bind, Checked.val_ite]
    split
    · exact ih (hfirst.index dev)
    · exact ih hfirst

theorem BinaryKept.ask {p : State N} (h : BinaryKept p) (q : Query) : BinaryKept (ask p q).val := by
  cases q with
  | isBuiltFor dev => exact h.index dev
  | getBuildInformation dev => exact h.index dev
  | programInfo paramName =>
    cases paramName with
    | binarySizes => exact h.forBinaries p.devices
    | binaries => exact h.forBinaries p.devices
    | referenceCount | context | numDevices | devices | source | numKernels | kernelNames | other => exact h
  | programBuildInfo device paramName =>
    cases device with
    | none => exact h
    | some dev =>
      simp only [ProgramQueries.ask, clGetProgramBuildInfo, Checked.val_map, Checked.val_ite]
      split
      · exact h
      · cases paramName <;> exact h.index dev

/-! ## The queries one by one -/

section Queries
variable {p : State N} {dev : Nat}

theorem index_of_hasBuild {info : BuildInformation N} (h : p.buildInfo dev = some (some info)) :
    p.index dev = (some info, p) := by
  rw [State.index, h]

theorem index_isSome_iff : (p.index dev).1.isSome = true ↔ HasBuild p dev := by
  unfold State.index HasBuild
  cases h : p.buildInfo dev with
  | none => simp
  | some info => simp [Option.isSome_iff_exists]

theorem isBuiltFor_ok : (isBuiltFor p dev).ok = true ↔ HasBuild p dev := by
  simp only [isBuiltFor, deref, Checked.ok_bind, Checked.ok_check, Checked.ok_pure, Bool.and_true]
  exact index_isSome_iff

theorem getBuildInformation_ok : (getBuildInformation p dev).ok = true ↔ HasBuild p dev := by
  simp only [getBuildInformation, deref, Checked.ok_bind, Checked.ok_check, Checked.ok_pure, Bool.and_true]
  exact index_isSome_iff

theorem isBuiltFor_val {info : BuildInformation N} (h : p.buildInfo dev = some (some info)) :
    (isBuiltFor p dev).val = (info.isBuilt, p) := by
  rw [isBuiltFor, index_of_hasBuild h]
  rfl

theorem getBuildInformation_val {info : BuildInformation N} (h : p.buildInfo dev = some (some info)) :
    (getBuildInformation p dev).val = (info, p) := by
  rw [getBuildInformation, index_of_hasBuild h]
  rfl

/-- Where the devices have builds, and those that have succeeded can be read, the loop changes nothing; without a build
the loop dereferences a null pointer. -/
theorem forBinaries_spec {α : Type} {get : BuildInformation N → Checked α} (absent : α)
    (hget : ∀ dev info, p.buildInfo dev = some (some info) → info.isBuilt = true → (get info).ok = true) (devs : List Nat) :
    ((forBinaries get absent devs p).ok = true ↔ ∀ dev ∈ devs, HasBuild p dev) ∧
      ((forBinaries get absent devs p).ok = true → (forBinaries get absent devs p).val.2 = p) := by
  induction devs with
  | nil => exact ⟨iff_of_true rfl nofun, fun _ => rfl⟩
  | cons dev devs ih =>
    rw [List.forall_mem_cons, ← ih.1]
    by_cases hbuild : HasBuild p dev
    · obtain ⟨info, hinfo⟩ := hbuild
      have hok : (isBuiltFor p dev).ok = true := isBuiltFor_ok.2 ⟨info, hinfo⟩
      have hok' : (getBuildInformation p dev).ok = true := getBuildInformation_ok.2 ⟨info, hinfo⟩
      simp only [forBinaries, Checked.ok_bind, Checked.val_bind, hok, isBuiltFor_val hinfo, Bool.true_and]
      have hreg : HasBuild p dev := ⟨info, hinfo⟩
      cases hbuilt : info.isBuilt with
      | true => simpa [hok', getBuildInformation_val hinfo, hget dev info hinfo hbuilt, hreg] using ih.2
      | false => simpa [hreg] using ih.2
    · have hok : (isBuiltFor p dev).ok = false := by
        rw [← Bool.not_eq_true, isBuiltFor_ok]
        exact hbuild
      simp [forBinaries, hok, hbuild]

theorem getBinary_ok {info : BuildInformation N} : info.getBinary.ok = info.binary.isSome := by
  simp [BuildInformation.getBinary]

theorem getBinarySize_ok {info : BuildInformation N} : info.getBinarySize.ok = info.binary.isSome := by
  simp [BuildInformation.getBinarySize, getBinary_ok]

/-- The binaries of all devices, read with `get`. -/
theorem harmless_binaries {α : Type} {get : BuildInformation N → Checked α} {absent : α} {f : List α → Value}
    (hget : ∀ info, (get info).ok = info.binary.isSome) (h : BinaryKept p) {q : Query}
    (hask : ask p q = Prod.snd <$> (do
      let (rest, p) ← forBinaries get absent p.devices p
      pure (Except.ok (f rest), p) : Checked (Except Status Value × State N))) :
    Harmless p q ↔ ∀ dev ∈ p.devices, HasBuild p dev := by
  have hread : ∀ dev info, p.buildInfo dev = some (some info) → info.isBuilt = true → (get info).ok = true := by
    intro dev info hinfo hbuilt
    rw [hget]
    exact h dev info hinfo (by simpa [Program.BuildInformation.isBuilt] using hbuilt)
  obtain ⟨hok, hval⟩ := forBinaries_spec absent hread p.devices
  rw [← hok]
  constructor
  · intro hq
    have htotal := hq.total
    rw [hask] at htotal
    simpa using htotal
  · intro hloop
    refine ⟨?_, ?_⟩
    · rw [hask]
      simpa using hloop
    · rw [hask]
      exact hval hloop

/-- A query that looks up one build, and that build only. -/
theorem harmless_lookup {α : Type} {q : Query} {x : Checked (α × State N)} (hask : ask p q = Prod.snd <$> x)
    (hok : x.ok = true ↔ HasBuild p dev) (hval : HasBuild p dev → x.val.2 = p) : Harmless p q ↔ HasBuild p dev := by
  constructor
  · intro h
    have htotal := h.total
    rw [hask] at htotal
    exact hok.1 (by simpa using htotal)
  · intro hbuild
    refine ⟨?_, ?_⟩
    · rw [hask]
      simpa using hok.2 hbuild
    · rw [hask]
      exact hval hbuild

theorem harmless_isBuiltFor {q : Query} (hask : ask p q = Prod.snd <$> isBuiltFor p dev) :
    Harmless p q ↔ HasBuild p dev :=
  harmless_lookup hask isBuiltFor_ok fun ⟨_, hinfo⟩ => by rw [isBuiltFor_val hinfo]

theorem harmless_getBuildInformation {q : Query} (hask : ask p q = Prod.snd <$> getBuildInformation p dev) :
    Harmless p q ↔ HasBuild p dev :=
  harmless_lookup hask getBuildInformation_ok fun ⟨_, hinfo⟩ => by rw [getBuildInformation_val hinfo]

theorem harmless_source : Harmless p (.programInfo .source) ↔ p.src.isSome = true := by
  constructor
  · intro h
    simpa [ask, clGetProgramInfo, getSource] using h.total
  · intro h
    exact ⟨by simpa [ask, clGetProgramInfo, getSource] using h, rfl⟩

/-- The build information of a device of the context. -/
theorem ask_programBuildInfo {paramName : ProgramBuildInfo} (hdev : dev ∈ p.contextDevices) :
    ask p (.programBuildInfo (some dev) paramName) = Prod.snd <$> getBuildInformation p dev := by
  simp only [ask, clGetProgramBuildInfo, hdev, not_true_eq_false, if_false]
  cases paramName <;> exact Checked.ext rfl (Bool.and_true _)

end Queries

/-! ## Which queries are harmless -/

theorem binaryKept_invariant (compilers : Nat → DeviceCompiler N) : Invariant (system compilers) BinaryKept where
  init p hinit := by
    rcases hinit with ⟨contextDevices, src, rfl⟩ | ⟨contextDevices, binaries, -, -, -, rfl⟩
    · intro dev info hinfo
      cases hinfo
    · refine BinaryKept.fromBinaries (fun dev info hinfo => ?_) binaries
      cases hinfo
  step p l p' h hstep := by
    obtain rfl := hstep
    cases l with
    | build devs opts =>
      simp only [run, build, Checked.val_ite]
      split
      · exact h
      · exact h.buildLoop opts _
    | createKernels | detachKernel | setReferenceCount => exact h
    | ask q => exact h.ask q

/-- In a reachable state, a query dereferences no null pointer and changes nothing where the devices it looks up have
builds and the source it returns is there. -/
theorem harmless_iff {p : State N} (hr : Reachable (system compilers) p) (q : Query) : Harmless p q ↔ Answerable p q := by
  have hbinary : BinaryKept p := (binaryKept_invariant compilers).reachable hr
  cases q with
  | isBuiltFor dev => exact harmless_isBuiltFor rfl
  | getBuildInformation dev => exact harmless_getBuildInformation rfl
  | programInfo paramName =>
    cases paramName with
    | source => exact harmless_source
    | binarySizes => exact harmless_binaries (fun _ => getBinarySize_ok) hbinary rfl
    | binaries => exact harmless_binaries (fun _ => getBinary_ok) hbinary rfl
    | referenceCount | context | numDevices | devices | numKernels | kernelNames | other =>
      exact iff_of_true ⟨rfl, rfl⟩ trivial
  | programBuildInfo device paramName =>
    cases device with
    | none => exact iff_of_true ⟨rfl, rfl⟩ trivial
    | some dev =>
      -- A device of another context is refused before it is looked up.
      by_cases hdev : dev ∈ p.contextDevices
      · rw [harmless_getBuildInformation (ask_programBuildInfo hdev)]
        exact ⟨fun h _ => h, fun h => h hdev⟩
      · refine iff_of_true ?_ fun h => absurd h hdev
        have hask : ask p (.programBuildInfo (some dev) paramName) = pure p := by
          simp [ask, clGetProgramBuildInfo, hdev]
        exact ⟨by rw [hask]; rfl, by rw [hask]; rfl⟩

/-- Harmless queries can be left out of a run: what the builds and the creation of kernels find is the same. -/
theorem run_without_queries {p : State N} (ls : List Label)
    (h : ∀ done q, done ++ [.ask q] <+: ls → Harmless (done.foldl (run compilers) p) q) :
    ls.foldl (run compilers) p = (ls.filter fun l => !l.isQuery).foldl (run compilers) p := by
  induction ls using List.reverseRecOn with
  | nil => rfl
  | append_singleton ls l ih =>
    have hbefore := ih fun done q hq => h done q (hq.trans (List.prefix_append _ _))
    rw [List.foldl_append, List.filter_append, List.foldl_append, ← hbefore]
    cases l with
    | ask q => exact (h ls q List.prefix_rfl).unchanged
    | build | createKernels | detachKernel | setReferenceCount => rfl

/-! ## Two devices -/

/-- A compiler that takes everything. -/
def anyCompiler : DeviceCompiler Nat where
  compileSource _ _ := (some { kernels := [], nodup := .nil }, "")
  optimize := some
  linkInBuiltins := some
  loadBitcode _ := none
  writeBitcode _ := []

/-- A program in a context of two devices, built for the first. -/
def halfBuilt : State Nat := run (fun _ => anyCompiler) (fromSource [0, 1] "kernel void f() { }") (.build [0] "")

theorem halfBuilt_reachable : Reachable (system fun _ => anyCompiler) halfBuilt :=
  .step (l := .build [0] "") (.init (.inl ⟨[0, 1], "kernel void f() { }", rfl⟩)) rfl

theorem harmless_first_device : Harmless halfBuilt (.programBuildInfo (some 0) .buildStatus) :=
  (harmless_iff halfBuilt_reachable _).2 fun _ => ⟨_, rfl⟩

/-- The sizes of the binaries: the second device gets an entry, which is a null pointer. -/
theorem binarySizes_of_halfBuilt : Reachable (system fun _ => anyCompiler) halfBuilt ∧
    (ask halfBuilt (.programInfo .binarySizes)).ok = false ∧ (halfBuilt.buildInfo 1).isNone ∧
    ((ask halfBuilt (.programInfo .binarySizes)).val.buildInfo 1).isSome ∧
    ¬ Harmless halfBuilt (.programInfo .binarySizes) := by
  have hfail : (ask halfBuilt (.programInfo .binarySizes)).ok = false := rfl
  refine ⟨halfBuilt_reachable, hfail, rfl, rfl, fun h => ?_⟩
  rw [h.total] at hfail
  cases hfail

end OpenCRun.ProgramQueries
