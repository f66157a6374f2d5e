import Mathlib.Algebra.Order.BigOperators.Group.List
import Mathlib.Data.Finset.Card
import Mathlib.Data.List.SplitLengths
import Mathlib.Data.Nat.Bitwise
import OpenCRun.Lib.Grouping
import OpenCRun.Lib.Runs
import OpenCRun.Util.DimensionInfo
/-!
# Sub-devices of the CPU device

`clCreateSubDevices`, `DevicePartition` and the partitions of `CPUDevice.cpp`:
a device is cut into groups of its CPUs, equally, by counts, or along the
memories that they share. `none` is undefined behaviour, or an assertion that
fails in a build with assertions.
-/
open Lib

namespace OpenCRun.SubDevices

/-! ## The machine -/

inductive ComponentType where
  | node
  | cache (level : Nat)
  | other
  deriving DecidableEq, Repr

/-- A `HardwareComponent`, at its address. -/
structure HardwareComponent where
  address : Nat
  type : ComponentType
  deriving DecidableEq, Repr

/-- A CPU, with the components above it, its parent first. -/
structure HardwareCPU where
  address : Nat
  ancestors : List HardwareComponent
  deriving DecidableEq, Repr

namespace HardwareCPU

def getCache (c : HardwareCPU) (level : Nat) : Option Nat :=
  (c.ancestors.find? fun comp => comp.type = .cache level).map HardwareComponent.address

def getNUMANode (c : HardwareCPU) : Option Nat :=
  (c.ancestors.find? fun comp => comp.type = .node).map HardwareComponent.address

end HardwareCPU

/-- The CPUs of a machine, which an `unsigned` can count. -/
structure HardwareMachine where
  cpus : List HardwareCPU
  nodup : cpus.Nodup
  ne_nil : cpus ≠ []
  length_lt : cpus.length < 2 ^ 32

/-! ## Partitions -/

inductive PartitionType where
  | equally | byCounts | byAffinityDomain
  deriving DecidableEq, Repr

inductive PartitionAffinity where
  | numa | l4Cache | l3Cache | l2Cache | l1Cache | next
  deriving DecidableEq, Repr

/-- The position of a domain's bit. -/
def PartitionAffinity.pos : PartitionAffinity → Nat
  | numa => 0
  | l4Cache => 1
  | l3Cache => 2
  | l2Cache => 3
  | l1Cache => 4
  | next => 5

def PartitionAffinity.value (d : PartitionAffinity) : Nat := 2 ^ d.pos

/-- A `DevicePartition`, whose property list has passed the checks. -/
inductive DevicePartition where
  | equally (numComputeUnits : Int)
  | byCounts (counts : List Int)
  | byAffinityDomain (d : PartitionAffinity)
  deriving DecidableEq, Repr

/-- `static_cast<unsigned>` of a property. -/
def ofProperty (p : Int) : Nat := (p % 2 ^ 32).toNat

namespace DevicePartition

def getType : DevicePartition → PartitionType
  | equally _ => .equally
  | byCounts _ => .byCounts
  | byAffinityDomain _ => .byAffinityDomain

/-- `getCount`, of all counts. -/
def getCounts (counts : List Int) : List Nat := counts.map ofProperty

def getTotalComputeUnits (counts : List Int) : Nat :=
  counts.foldl (fun sum p => toUnsigned (sum + ofProperty p)) 0

end DevicePartition

inductive ErrCode where
  | success | invalidDevice | invalidValue | invalidDevicePartitionCount
  deriving DecidableEq, Repr

/-- The loop over the counts in `clCreateSubDevices`, and the check after it. -/
def checkCounts : List Int → Option (Except ErrCode (List Int))
  | [] => none
  | p :: rest =>
    if p = 0 then
      match rest with
      | [] => none
      | q :: _ => some (if q ≠ 0 then .error .invalidValue else .ok [])
    else if p < 0 then some (.error .invalidDevicePartitionCount)
    else (checkCounts rest).map fun r => r.map (p :: ·)

def checkAffinity (p : Int) : Except ErrCode PartitionAffinity :=
  if p = 1 then .ok .numa
  else if p = 2 then .ok .l4Cache
  else if p = 4 then .ok .l3Cache
  else if p = 8 then .ok .l2Cache
  else if p = 16 then .ok .l1Cache
  else if p = 32 then .ok .next
  else .error .invalidValue

/-- The checks of `clCreateSubDevices`. The list may not end before they do. -/
def checkProperties : List Int → Option (Except ErrCode DevicePartition)
  | 0x1086 :: p :: rest =>
    if p ≤ 0 then some (.error .invalidValue)
    else match rest with
      | [] => none
      | q :: _ => some (if q ≠ 0 then .error .invalidValue else .ok (.equally p))
  | 0x1087 :: rest => (checkCounts rest).map fun r => r.map .byCounts
  | 0x1088 :: p :: rest =>
    if p ≤ 0 then some (.error .invalidValue)
    else match rest with
      | [] => none
      | q :: _ => some (if q ≠ 0 then .error .invalidValue else (checkAffinity p).map .byAffinityDomain)
  | 0x1086 :: [] | 0x1088 :: [] | [] => none
  | _ :: _ => some (.error .invalidValue)

/-! ## The device -/

/-- A `CPUDevice`, with what `InitSubDeviceInfo` sets. -/
structure CPUDevice where
  hwCPUs : List HardwareCPU
  maxComputeUnits : Nat
  maxSubDevices : Nat
  supportedPartitionTypes : List PartitionType
  supportedAffinityDomains : Nat
  deriving DecidableEq, Repr

/-- An assertion. -/
def assertion (ndebug c : Bool) : Option Unit := if ndebug || c then some () else none

def isPowerOf2 (value : Nat) : Bool := value ≠ 0 && value &&& (value - 1) = 0

/-- The component of a domain that a CPU belongs to. -/
def component (c : HardwareCPU) : PartitionAffinity → Option Nat
  | .numa => c.getNUMANode
  | .l4Cache => c.getCache 4
  | .l3Cache => c.getCache 3
  | .l2Cache => c.getCache 2
  | .l1Cache => c.getCache 1
  | .next => none

/-- `Nodes`, or the `Caches` of a level. -/
def components (cpus : List HardwareCPU) (d : PartitionAffinity) : Finset Nat := (cpus.filterMap (component · d)).toFinset

/-- The domains are added in this order. -/
def concreteDomains : List PartitionAffinity := [.numa, .l1Cache, .l2Cache, .l3Cache, .l4Cache]

def addDomains (cpus : List HardwareCPU) (domains : Nat) : Nat :=
  let domains := concreteDomains.foldl
    (fun domains d => if (components cpus d).card > 1 then domains ||| d.value else domains) domains
  -- More than one bit is set.
  if !isPowerOf2 domains && domains ≠ 0 then domains ||| PartitionAffinity.next.value else domains

/-- `InitSubDeviceInfo`, for a device that has some domains already. -/
def initSubDeviceInfo (ndebug : Bool) (hwCPUs : List HardwareCPU) (domains : Nat) : Option CPUDevice := do
  assertion ndebug !hwCPUs.isEmpty
  let units := toUnsigned hwCPUs.length
  -- A single unit cannot be partitioned.
  if units = 1 then
    some { hwCPUs, maxComputeUnits := units, maxSubDevices := units, supportedPartitionTypes := [],
           supportedAffinityDomains := 0 }
  else
    let domains := addDomains hwCPUs domains
    some { hwCPUs, maxComputeUnits := units, maxSubDevices := units,
           supportedPartitionTypes := [.equally, .byCounts] ++ (if domains ≠ 0 then [.byAffinityDomain] else []),
           supportedAffinityDomains := domains }

/-- The device of a machine. -/
def newDevice (ndebug : Bool) (machine : HardwareMachine) : Option CPUDevice :=
  initSubDeviceInfo ndebug machine.cpus 0

section Partitioning
variable (ndebug : Bool) (dev : CPUDevice)

/-- A sub-device starts with a copy of its parent's domains. -/
def newSubDevice (cpus : List HardwareCPU) : Option CPUDevice :=
  initSubDeviceInfo ndebug cpus dev.supportedAffinityDomains

def isPartitionSupported (part : DevicePartition) : Option Bool :=
  if part.getType ∉ dev.supportedPartitionTypes then some false
  else match part with
    | .byAffinityDomain d => some (dev.supportedAffinityDomains &&& d.value ≠ 0)
    | .byCounts counts => do
      assertion ndebug !counts.isEmpty
      some (counts.length ≤ dev.maxSubDevices && DevicePartition.getTotalComputeUnits counts ≤ dev.maxComputeUnits)
    | .equally n => some (ofProperty n ≤ dev.maxComputeUnits)

def computeAffinityDomain (supportedDomains : Nat) (affinity : PartitionAffinity) : Option PartitionAffinity :=
  if affinity ≠ .next then if affinity.value &&& supportedDomains ≠ 0 then some affinity else none
  else [.numa, .l4Cache, .l3Cache, .l2Cache, .l1Cache].find? fun d => d.value &&& supportedDomains ≠ 0

/-- The CPUs by component; those without one are in no group. -/
def groupByComponent (cpus : List HardwareCPU) (d : PartitionAffinity) : List (Nat × List HardwareCPU) :=
  Grouping.group (cpus.filterMap fun c => (component c d).map (·, c))

/-- Some CPUs from the iterator on, and where it is then; it must not go past the end. -/
def nextCPUs : Nat → List HardwareCPU → Option (List HardwareCPU × List HardwareCPU)
  | 0, cpus => some ([], cpus)
  | _ + 1, [] => none
  | n + 1, c :: cpus => (nextCPUs n cpus).map fun x => (c :: x.1, x.2)

/-- The groups of CPUs, taken one after the other. -/
def cutCPUs : List Nat → List HardwareCPU → Option (List (List HardwareCPU))
  | [], _ => some []
  | n :: ns, cpus => do
    let (group, rest) ← nextCPUs n cpus
    let groups ← cutCPUs ns rest
    some (group :: groups)

/-- `CPUDevice::createSubDevices`, which may return false. -/
def createSubDevices (part : DevicePartition) : Option (Option (List CPUDevice)) := do
  if !(← isPartitionSupported ndebug dev part) then some none
  else match part with
    | .byAffinityDomain d =>
      match computeAffinityDomain dev.supportedAffinityDomains d with
      | none => some none
      | some d => do
        let devs ← ((groupByComponent dev.hwCPUs d).map Prod.snd).mapM (newSubDevice ndebug dev)
        some (some devs)
    | .equally n => do
      -- A division by zero is undefined.
      let n := ofProperty n
      if n = 0 then none
      else
        let groups := toUnsigned (dev.hwCPUs.length / n)
        assertion ndebug (groups > 0)
        let groups ← cutCPUs (List.replicate groups n) dev.hwCPUs
        let devs ← groups.mapM (newSubDevice ndebug dev)
        some (some devs)
    | .byCounts counts => do
      let groups ← cutCPUs (DevicePartition.getCounts counts) dev.hwCPUs
      let devs ← groups.mapM (newSubDevice ndebug dev)
      some (some devs)

end Partitioning

/-- What `clCreateSubDevices` returns and writes. -/
structure Created where
  err : ErrCode
  numDevicesRet : Option Nat
  outDevices : List CPUDevice
  deriving DecidableEq, Repr

def clCreateSubDevices (ndebug : Bool) (inDevice : Option CPUDevice) (properties : Option (List Int)) (numDevices : Nat)
    (outDevices : Bool) : Option Created :=
  match inDevice, properties with
  | none, _ => some ⟨.invalidDevice, none, []⟩
  | some _, none => some ⟨.invalidValue, none, []⟩
  | some dev, some properties =>
    if outDevices && numDevices < 1 then some ⟨.invalidValue, none, []⟩
    else do
      match ← checkProperties properties with
      | .error err => some ⟨err, none, []⟩
      | .ok part =>
        match ← createSubDevices ndebug dev part with
        | none => some ⟨.invalidValue, none, []⟩
        | some subDevs =>
          if !outDevices then some ⟨.success, some subDevs.length, []⟩
          else if numDevices < subDevs.length then some ⟨.invalidValue, some subDevs.length, []⟩
          else some ⟨.success, some subDevs.length, subDevs⟩

/-- A device and its sub-devices, and theirs. -/
def tree (ndebug : Bool) (machine : HardwareMachine) : Runs.System CPUDevice DevicePartition where
  init dev := newDevice ndebug machine = some dev
  step dev part sub := ∃ subs, createSubDevices ndebug dev part = some (some subs) ∧ sub ∈ subs

/-! ## Domains -/

/-- The bit of a domain is set. -/
def HasDomain (domains : Nat) (d : PartitionAffinity) : Prop := domains &&& d.value ≠ 0

instance (domains : Nat) (d : PartitionAffinity) : Decidable (HasDomain domains d) := inferInstanceAs (Decidable (_ ≠ _))

theorem hasDomain_iff {domains : Nat} {d : PartitionAffinity} : HasDomain domains d ↔ domains.testBit d.pos = true := by
  rw [HasDomain, PartitionAffinity.value, Nat.and_two_pow]
  cases domains.testBit d.pos <;> simp

theorem pos_injective : Function.Injective PartitionAffinity.pos := by
  intro d d' h
  cases d <;> cases d' <;> first | rfl | cases h

theorem testBit_value (d : PartitionAffinity) (i : Nat) : d.value.testBit i = true ↔ d.pos = i := by
  rw [PartitionAffinity.value, Nat.testBit_two_pow, decide_eq_true_iff]

/-- The CPUs belong to more than one component of the domain. -/
def Spans (cpus : List HardwareCPU) (d : PartitionAffinity) : Prop :=
  ∃ c ∈ cpus, ∃ c' ∈ cpus, ∃ k k', component c d = some k ∧ component c' d = some k' ∧ k ≠ k'

theorem card_components {cpus : List HardwareCPU} {d : PartitionAffinity} : 1 < (components cpus d).card ↔ Spans cpus d := by
  rw [Finset.one_lt_card]
  simp only [components, List.mem_toFinset, List.mem_filterMap]
  constructor
  · rintro ⟨k, ⟨c, hc, hk⟩, k', ⟨c', hc', hk'⟩, hne⟩
    exact ⟨c, hc, c', hc', k, k', hk, hk', hne⟩
  · rintro ⟨c, hc, c', hc', k, k', hk, hk', hne⟩
    exact ⟨k, ⟨c, hc, hk⟩, k', ⟨c', hc', hk'⟩, hne⟩

theorem not_spans_next (cpus : List HardwareCPU) : ¬ Spans cpus .next := by
  rintro ⟨_, _, _, _, _, _, h, _⟩
  cases h

/-- More than one concrete domain. -/
def HasTwo (domains : Nat) : Prop :=
  ∃ d d', d ≠ d' ∧ d ≠ .next ∧ d' ≠ .next ∧ HasDomain domains d ∧ HasDomain domains d'

/-- Only domains have bits, and the next one goes with two others. -/
structure Sane (domains : Nat) : Prop where
  domain : ∀ i, domains.testBit i = true → ∃ d : PartitionAffinity, d.pos = i
  next : HasDomain domains .next ↔ HasTwo domains

theorem sane_zero : Sane 0 := by
  refine ⟨fun i h => by simp at h, iff_of_false (by decide) ?_⟩
  rintro ⟨d, -, -, -, -, h, -⟩
  exact h (Nat.zero_and _)

theorem isPowerOf2_eq_false {n : Nat} (hn : n ≠ 0) :
    isPowerOf2 n = false ↔ ∃ i j, i ≠ j ∧ n.testBit i = true ∧ n.testBit j = true := by
  have hpow : isPowerOf2 n = true ↔ n.isPowerOfTwo := by
    rw [← Nat.and_sub_one_eq_zero_iff_isPowerOfTwo hn]
    simp [isPowerOf2, hn]
  rw [← Bool.not_eq_true, hpow]
  constructor
  · intro h
    by_contra hone
    push Not at hone
    obtain ⟨i, hi⟩ := Nat.exists_testBit_of_ne_zero hn
    refine h ⟨i, Nat.eq_of_testBit_eq fun j => ?_⟩
    rw [Nat.testBit_two_pow]
    by_cases hij : i = j
    · rw [← hij, hi]
      simp
    · rw [eq_false_of_ne_true fun hj => hone i j hij hi hj]
      simp [hij]
  · rintro ⟨i, j, hij, hi, hj⟩ ⟨k, rfl⟩
    rw [Nat.testBit_two_pow, decide_eq_true_iff] at hi hj
    exact hij (hi.symm.trans hj)

section Adding
variable {cpus : List HardwareCPU} {domains : Nat}

/-- The bits after the loop over some domains. -/
theorem testBit_foldl (l : List PartitionAffinity) (domains i : Nat) :
    (l.foldl (fun domains d => if (components cpus d).card > 1 then domains ||| d.value else domains) domains).testBit i =
      true ↔ domains.testBit i = true ∨ ∃ d ∈ l, Spans cpus d ∧ d.pos = i := by
  induction l generalizing domains with
  | nil => simp
  | cons d l ih =>
    rw [List.foldl_cons, ih]
    by_cases hd : Spans cpus d
    · have hcard : (components cpus d).card > 1 := card_components.2 hd
      rw [if_pos hcard, Nat.testBit_or, Bool.or_eq_true, testBit_value]
      simp [hd, or_assoc]
    · have hcard : ¬ (components cpus d).card > 1 := fun h => hd (card_components.1 h)
      rw [if_neg hcard]
      simp [hd]

theorem mem_concreteDomains {d : PartitionAffinity} : d ∈ concreteDomains ↔ d ≠ .next := by
  cases d <;> simp [concreteDomains]

/-- The loop over the concrete domains adds those that the CPUs span. -/
theorem concrete_spec (cpus : List HardwareCPU) (h : Sane domains) {concrete : Nat} (hconcrete : concrete =
      concreteDomains.foldl (fun domains d => if (components cpus d).card > 1 then domains ||| d.value else domains) domains) :
    (∀ i, concrete.testBit i = true → ∃ d : PartitionAffinity, d.pos = i) ∧
    (HasDomain concrete .next → HasTwo concrete) ∧
    ∀ d, d ≠ .next → (HasDomain concrete d ↔ HasDomain domains d ∨ Spans cpus d) := by
  have hbits : ∀ i, concrete.testBit i = true ↔ domains.testBit i = true ∨ ∃ d ∈ concreteDomains, Spans cpus d ∧ d.pos = i := by
    rw [hconcrete]
    exact testBit_foldl concreteDomains domains
  have hadd : ∀ d, d ≠ .next → (HasDomain concrete d ↔ HasDomain domains d ∨ Spans cpus d) := by
    intro d hd
    rw [hasDomain_iff, hasDomain_iff, hbits]
    refine or_congr_right ⟨?_, fun hs => ⟨d, mem_concreteDomains.2 hd, hs, rfl⟩⟩
    rintro ⟨d', -, hs, hpos⟩
    rwa [← pos_injective hpos]
  refine ⟨fun i hi => ?_, fun hn => ?_, hadd⟩
  · rcases (hbits i).1 hi with hi | ⟨d, -, -, hd⟩
    · exact h.domain i hi
    · exact ⟨d, hd⟩
  · rcases (hbits _).1 (hasDomain_iff.1 hn) with hn | ⟨d, hd, -, hpos⟩
    · obtain ⟨d, d', hne, hd, hd', h₁, h₂⟩ := h.next.1 (hasDomain_iff.2 hn)
      exact ⟨d, d', hne, hd, hd', (hadd d hd).2 (.inl h₁), (hadd d' hd').2 (.inl h₂)⟩
    · exact absurd (pos_injective hpos) (mem_concreteDomains.1 hd)

/-- Two bits are two concrete domains, or one of them is the next one. -/
theorem isPowerOf2_eq_false_iff_hasTwo (hne : domains ≠ 0)
    (hdomain : ∀ i, domains.testBit i = true → ∃ d : PartitionAffinity, d.pos = i)
    (hnext : HasDomain domains .next → HasTwo domains) : isPowerOf2 domains = false ↔ HasTwo domains := by
  rw [isPowerOf2_eq_false hne]
  constructor
  · rintro ⟨i, j, hij, hi, hj⟩
    obtain ⟨d, rfl⟩ := hdomain i hi
    obtain ⟨d', rfl⟩ := hdomain j hj
    by_cases hd : d = .next
    · exact hnext (hasDomain_iff.2 (hd ▸ hi))
    by_cases hd' : d' = .next
    · exact hnext (hasDomain_iff.2 (hd' ▸ hj))
    exact ⟨d, d', fun heq => hij (congrArg _ heq), hd, hd', hasDomain_iff.2 hi, hasDomain_iff.2 hj⟩
  · rintro ⟨d, d', hne, -, -, h₁, h₂⟩
    exact ⟨d.pos, d'.pos, fun hpos => hne (pos_injective hpos), hasDomain_iff.1 h₁, hasDomain_iff.1 h₂⟩

theorem hasDomain_or_next {d : PartitionAffinity} :
    HasDomain (domains ||| PartitionAffinity.next.value) d ↔ HasDomain domains d ∨ d = .next := by
  rw [hasDomain_iff, hasDomain_iff, Nat.testBit_or, Bool.or_eq_true, testBit_value]
  exact or_congr_right ⟨fun hpos => pos_injective hpos.symm, fun hd => by rw [hd]⟩

/-- The concrete domains are those from before and those that the CPUs span; they decide on the next one. -/
theorem addDomains_spec (cpus : List HardwareCPU) (h : Sane domains) : Sane (addDomains cpus domains) ∧
    ∀ d, d ≠ .next → (HasDomain (addDomains cpus domains) d ↔ HasDomain domains d ∨ Spans cpus d) := by
  obtain ⟨concrete, hconcrete⟩ : ∃ concrete, concrete = concreteDomains.foldl
    (fun domains d => if (components cpus d).card > 1 then domains ||| d.value else domains) domains := ⟨_, rfl⟩
  obtain ⟨hdomain, hnext, hadd⟩ := concrete_spec cpus h hconcrete
  have heq : addDomains cpus domains =
      if !isPowerOf2 concrete && concrete ≠ 0 then concrete ||| PartitionAffinity.next.value else concrete := by
    rw [hconcrete]
    rfl
  by_cases hcond : (!isPowerOf2 concrete && concrete ≠ 0) = true
  -- The next domain is added to two others or more.
  · rw [heq, if_pos hcond]
    rw [Bool.and_eq_true, Bool.not_eq_true', decide_eq_true_iff] at hcond
    obtain ⟨d, d', hne, hd, hd', h₁, h₂⟩ := (isPowerOf2_eq_false_iff_hasTwo hcond.2 hdomain hnext).1 hcond.1
    refine ⟨⟨fun i hi => ?_, iff_of_true (hasDomain_or_next.2 (.inr rfl)) ?_⟩, fun d hd => ?_⟩
    · rw [Nat.testBit_or, Bool.or_eq_true, testBit_value] at hi
      rcases hi with hi | hi
      · exact hdomain i hi
      · exact ⟨.next, hi⟩
    · exact ⟨d, d', hne, hd, hd', hasDomain_or_next.2 (.inl h₁), hasDomain_or_next.2 (.inl h₂)⟩
    · rw [hasDomain_or_next, hadd d hd, or_iff_left hd]
  · rw [heq, if_neg hcond]
    refine ⟨⟨hdomain, hnext, fun htwo => ?_⟩, hadd⟩
    have hne : concrete ≠ 0 := by
      rintro rfl
      obtain ⟨d, -, -, -, -, h₁, -⟩ := htwo
      exact h₁ (Nat.zero_and _)
    exact absurd (by simp [(isPowerOf2_eq_false_iff_hasTwo hne hdomain hnext).2 htwo, hne]) hcond

end Adding

/-! ## Devices -/

/-- What holds of every device of a tree. -/
structure Valid (dev : CPUDevice) : Prop where
  nodup : dev.hwCPUs.Nodup
  length_lt : dev.hwCPUs.length < 2 ^ 32
  units : dev.maxComputeUnits = dev.hwCPUs.length
  subDevices : dev.maxSubDevices = dev.hwCPUs.length
  sane : Sane dev.supportedAffinityDomains
  spanned : ∀ d, Spans dev.hwCPUs d → HasDomain dev.supportedAffinityDomains d
  offered : .byAffinityDomain ∈ dev.supportedPartitionTypes ↔ ∃ d, HasDomain dev.supportedAffinityDomains d

variable {ndebug : Bool} {cpus : List HardwareCPU} {domains : Nat} {dev : CPUDevice}

theorem not_spans_of_length (h : cpus.length = 1) (d : PartitionAffinity) : ¬ Spans cpus d := by
  obtain ⟨c, rfl⟩ := List.length_eq_one_iff.1 h
  rintro ⟨c₁, h₁, c₂, h₂, k, k', hk, hk', hne⟩
  rw [List.mem_singleton.1 h₁] at hk
  rw [List.mem_singleton.1 h₂, hk] at hk'
  exact hne (Option.some.inj hk')

theorem exists_domain_iff (h : Sane domains) : (∃ d, HasDomain domains d) ↔ domains ≠ 0 := by
  constructor
  · rintro ⟨d, hd⟩ rfl
    exact hd (Nat.zero_and _)
  · intro hne
    obtain ⟨i, hi⟩ := Nat.exists_testBit_of_ne_zero hne
    obtain ⟨d, rfl⟩ := h.domain i hi
    exact ⟨d, hasDomain_iff.2 hi⟩

theorem initSubDeviceInfo_isSome (hne : cpus ≠ []) (domains : Nat) : (initSubDeviceInfo ndebug cpus domains).isSome := by
  have hassert : assertion ndebug (!cpus.isEmpty) = some () := by simp [assertion, hne]
  unfold initSubDeviceInfo
  rw [hassert]
  simp only [Option.bind_eq_bind, Option.bind_some]
  split <;> rfl

/-- A new device has a domain that its CPUs span, and others only if it has had them. -/
theorem initSubDeviceInfo_spec (hnodup : cpus.Nodup) (hlt : cpus.length < 2 ^ 32) (hsane : Sane domains)
    (h : initSubDeviceInfo ndebug cpus domains = some dev) : dev.hwCPUs = cpus ∧ Valid dev ∧
      ∀ d, d ≠ .next → HasDomain dev.supportedAffinityDomains d → HasDomain domains d ∨ Spans cpus d := by
  have hunits : toUnsigned cpus.length = cpus.length := Nat.mod_eq_of_lt hlt
  unfold initSubDeviceInfo at h
  obtain ⟨-, -, h⟩ := Option.bind_eq_some_iff.1 h
  rw [hunits] at h
  by_cases hone : cpus.length = 1
  · rw [if_pos hone] at h
    obtain rfl := Option.some.inj h
    refine ⟨rfl, ⟨hnodup, hlt, rfl, rfl, sane_zero, fun d hd => absurd hd (not_spans_of_length hone d), ?_⟩, ?_⟩
    · simp [exists_domain_iff sane_zero]
    · exact fun d _ hd => absurd (Nat.zero_and _) hd
  · rw [if_neg hone] at h
    obtain rfl := Option.some.inj h
    obtain ⟨hsane', hadd⟩ := addDomains_spec cpus hsane
    refine ⟨rfl, ⟨hnodup, hlt, rfl, rfl, hsane', fun d hd => ?_, ?_⟩, fun d hd => (hadd d hd).1⟩
    · have hnext : d ≠ .next := fun hd' => not_spans_next cpus (hd' ▸ hd)
      exact (hadd d hnext).2 (.inr hd)
    · rw [exists_domain_iff hsane']
      by_cases hzero : addDomains cpus domains = 0 <;> simp [hzero]

theorem newSubDevices_spec {groups : List (List HardwareCPU)} {subs : List CPUDevice}
    (hgroups : ∀ g ∈ groups, g.Nodup ∧ g.length < 2 ^ 32) (hsane : Sane dev.supportedAffinityDomains)
    (h : groups.mapM (newSubDevice ndebug dev) = some subs) :
    subs.map CPUDevice.hwCPUs = groups ∧ ∀ sub ∈ subs, Valid sub := by
  induction groups generalizing subs with
  | nil =>
    rw [List.mapM_nil] at h
    obtain rfl := Option.some.inj h
    exact ⟨rfl, fun sub hsub => absurd hsub List.not_mem_nil⟩
  | cons g groups ih =>
    obtain ⟨hg, hrest⟩ := List.forall_mem_cons.1 hgroups
    rw [List.mapM_cons] at h
    obtain ⟨sub, hsub, h⟩ := Option.bind_eq_some_iff.1 h
    obtain ⟨subs', hsubs', h⟩ := Option.bind_eq_some_iff.1 h
    obtain rfl := Option.some.inj h
    obtain ⟨hcpus, hvalid, -⟩ := initSubDeviceInfo_spec hg.1 hg.2 hsane hsub
    obtain ⟨heq, hall⟩ := ih hrest hsubs'
    exact ⟨by rw [List.map_cons, hcpus, heq], List.forall_mem_cons.2 ⟨hvalid, hall⟩⟩

theorem newSubDevices_isSome {groups : List (List HardwareCPU)} (h : ∀ g ∈ groups, g ≠ []) :
    ∃ subs, groups.mapM (newSubDevice ndebug dev) = some subs := by
  induction groups with
  | nil => exact ⟨[], rfl⟩
  | cons g groups ih =>
    obtain ⟨hg, hrest⟩ := List.forall_mem_cons.1 h
    have hsome : (newSubDevice ndebug dev g).isSome := initSubDeviceInfo_isSome hg _
    obtain ⟨sub, hsub⟩ := Option.isSome_iff_exists.1 hsome
    obtain ⟨subs, hsubs⟩ := ih hrest
    refine ⟨sub :: subs, ?_⟩
    rw [List.mapM_cons, hsub, hsubs]
    rfl

/-! ## Groups of CPUs -/

theorem nextCPUs_eq (n : Nat) (cpus : List HardwareCPU) :
    nextCPUs n cpus = if n ≤ cpus.length then some (cpus.splitAt n) else none := by
  induction cpus generalizing n with
  | nil => cases n <;> rfl
  | cons c cpus ih =>
    cases n with
    | zero => rfl
    | succ n =>
      rw [nextCPUs, ih, List.length_cons]
      by_cases h : n ≤ cpus.length
      · rw [if_pos h, if_pos (by omega), List.splitAt_eq, List.splitAt_eq]
        rfl
      · rw [if_neg h, if_neg (by omega)]
        rfl

/-- The iterator stays on the CPUs exactly when there are enough of them. -/
theorem cutCPUs_eq (sizes : List Nat) (cpus : List HardwareCPU) :
    cutCPUs sizes cpus = if sizes.sum ≤ cpus.length then some (sizes.splitLengths cpus) else none := by
  induction sizes generalizing cpus with
  | nil => rfl
  | cons n sizes ih =>
    rw [cutCPUs, nextCPUs_eq, List.sum_cons, List.splitLengths_cons]
    by_cases hn : n ≤ cpus.length
    · rw [if_pos hn, List.splitAt_eq]
      simp only [Option.bind_eq_bind, Option.bind_some, ih, List.length_drop]
      by_cases hsum : sizes.sum ≤ cpus.length - n
      · rw [if_pos hsum, if_pos (by omega)]
        rfl
      · rw [if_neg hsum, if_neg (by omega)]
        rfl
    · rw [if_neg hn, if_neg (by omega)]
      rfl

theorem flatten_splitLengths (sizes : List Nat) (cpus : List HardwareCPU) :
    (sizes.splitLengths cpus).flatten = cpus.take sizes.sum := by
  induction sizes generalizing cpus with
  | nil => simp
  | cons n sizes ih =>
    rw [List.splitLengths_cons, List.flatten_cons, ih, List.sum_cons, List.take_add]

/-- Groups of some CPUs of a device that have none in common. -/
structure Apart (cpus : List HardwareCPU) (groups : List (List HardwareCPU)) : Prop where
  subset : ∀ g ∈ groups, g ⊆ cpus
  disjoint : groups.Pairwise List.Disjoint
  nodup : ∀ g ∈ groups, g.Nodup
  length_le : ∀ g ∈ groups, g.length ≤ cpus.length

theorem apart_of_flatten {groups : List (List HardwareCPU)} (hsub : List.Sublist groups.flatten cpus)
    (hnodup : cpus.Nodup) : Apart cpus groups := by
  have hgroups := List.nodup_flatten.1 (hnodup.sublist hsub)
  have hsublist : ∀ g ∈ groups, List.Sublist g cpus := fun g hg => (List.sublist_flatten_of_mem hg).trans hsub
  exact ⟨fun g hg => (hsublist g hg).subset, hgroups.2, hgroups.1, fun g hg => (hsublist g hg).length_le⟩

theorem apart_splitLengths (sizes : List Nat) (hnodup : cpus.Nodup) : Apart cpus (sizes.splitLengths cpus) :=
  apart_of_flatten (flatten_splitLengths sizes cpus ▸ List.take_sublist _ _) hnodup

/-- The CPUs of a component of a domain. -/
def cpusOf (cpus : List HardwareCPU) (d : PartitionAffinity) (k : Nat) : List HardwareCPU :=
  cpus.filter fun c => component c d = some k

theorem valuesAt_component (cpus : List HardwareCPU) (d : PartitionAffinity) (k : Nat) :
    Grouping.valuesAt (cpus.filterMap fun c => (component c d).map (·, c)) k = cpusOf cpus d k := by
  unfold Grouping.valuesAt cpusOf
  induction cpus with
  | nil => rfl
  | cons c cpus ih =>
    cases hc : component c d with
    | none => simpa [hc] using ih
    | some k' =>
      by_cases hk : k' = k
      · simpa [hc, hk] using ih
      · simpa [hc, hk] using ih

/-- Each component has a group, of its CPUs, if it has any. -/
theorem mem_groupByComponent {d : PartitionAffinity} {k : Nat} {g : List HardwareCPU} :
    (k, g) ∈ groupByComponent cpus d ↔ g = cpusOf cpus d k ∧ g ≠ [] := by
  rw [← valuesAt_component]
  exact (Grouping.groups_group _).mem_iff

theorem mem_groups {d : PartitionAffinity} {g : List HardwareCPU} :
    g ∈ (groupByComponent cpus d).map Prod.snd ↔ ∃ k, g = cpusOf cpus d k ∧ g ≠ [] := by
  simp only [List.mem_map, Prod.exists, mem_groupByComponent, exists_eq_right]

theorem apart_groupByComponent (d : PartitionAffinity) (hnodup : cpus.Nodup) :
    Apart cpus ((groupByComponent cpus d).map Prod.snd) := by
  have hsublist : ∀ g ∈ (groupByComponent cpus d).map Prod.snd, List.Sublist g cpus := by
    intro g hg
    obtain ⟨k, rfl, -⟩ := mem_groups.1 hg
    exact List.filter_sublist
  refine ⟨fun g hg => (hsublist g hg).subset, ?_, fun g hg => hnodup.sublist (hsublist g hg),
    fun g hg => (hsublist g hg).length_le⟩
  -- A CPU has one component of a domain at most.
  rw [List.pairwise_map]
  refine (Grouping.groups_group (cpus.filterMap fun c => (component c d).map (·, c))).sorted.imp_of_mem ?_
  intro x y hx hy hlt c hcx hcy
  rw [(mem_groupByComponent.1 (show (x.1, x.2) ∈ groupByComponent cpus d from hx)).1, cpusOf, List.mem_filter,
    decide_eq_true_iff] at hcx
  rw [(mem_groupByComponent.1 (show (y.1, y.2) ∈ groupByComponent cpus d from hy)).1, cpusOf, List.mem_filter,
    decide_eq_true_iff] at hcy
  exact hlt.ne (Option.some.inj (hcx.2.symm.trans hcy.2))

/-- A domain that is spanned makes two groups. -/
theorem two_le_groups {d : PartitionAffinity} (h : Spans cpus d) : 2 ≤ (groupByComponent cpus d).length := by
  obtain ⟨c, hc, c', hc', k, k', hk, hk', hne⟩ := h
  have hmem : ∀ c k, c ∈ cpus → component c d = some k → (k, cpusOf cpus d k) ∈ groupByComponent cpus d := by
    intro c k hc hk
    exact mem_groupByComponent.2 ⟨rfl, List.ne_nil_of_mem (List.mem_filter.2 ⟨hc, decide_eq_true hk⟩)⟩
  by_contra hlt
  obtain hlen | hlen : (groupByComponent cpus d).length = 0 ∨ (groupByComponent cpus d).length = 1 := by omega
  · have := hmem c k hc hk
    rw [List.length_eq_zero_iff.1 hlen] at this
    cases this
  · obtain ⟨x, hx⟩ := List.length_eq_one_iff.1 hlen
    have h₁ := hmem c k hc hk
    have h₂ := hmem c' k' hc' hk'
    rw [hx, List.mem_singleton] at h₁ h₂
    exact hne (congrArg Prod.fst (h₁.trans h₂.symm))

/-! ## What is created -/

/-- The groups that a partition asks for. -/
inductive Grouped (dev : CPUDevice) : DevicePartition → List (List HardwareCPU) → Prop
  | byAffinityDomain {d d' : PartitionAffinity} (h : computeAffinityDomain dev.supportedAffinityDomains d = some d') :
    Grouped dev (.byAffinityDomain d) ((groupByComponent dev.hwCPUs d').map Prod.snd)
  | equally {n : Int} (h : ofProperty n ≠ 0) : Grouped dev (.equally n)
      ((List.replicate (dev.hwCPUs.length / ofProperty n) (ofProperty n)).splitLengths dev.hwCPUs)
  | byCounts {counts : List Int} (h : (DevicePartition.getCounts counts).sum ≤ dev.hwCPUs.length) :
    Grouped dev (.byCounts counts) ((DevicePartition.getCounts counts).splitLengths dev.hwCPUs)

section Creating
variable {part : DevicePartition} {groups : List (List HardwareCPU)} {subs : List CPUDevice}

theorem Grouped.apart (hv : Valid dev) (h : Grouped dev part groups) : Apart dev.hwCPUs groups := by
  cases h with
  | byAffinityDomain h => exact apart_groupByComponent _ hv.nodup
  | equally h => exact apart_splitLengths _ hv.nodup
  | byCounts h => exact apart_splitLengths _ hv.nodup

theorem supported_equally {n : Int} (hv : Valid dev) (h : isPartitionSupported ndebug dev (.equally n) = some true) :
    ofProperty n ≤ dev.hwCPUs.length := by
  unfold isPartitionSupported at h
  split at h
  · cases h
  · rw [← hv.units]
    simpa using h

theorem grouped_byAffinityDomain {d : PartitionAffinity} : Grouped dev (.byAffinityDomain d) groups ↔
    ∃ d', computeAffinityDomain dev.supportedAffinityDomains d = some d' ∧
      groups = (groupByComponent dev.hwCPUs d').map Prod.snd := by
  constructor
  · intro h
    cases h with
    | byAffinityDomain h => exact ⟨_, h, rfl⟩
  · rintro ⟨d', h, rfl⟩
    exact .byAffinityDomain h

theorem grouped_equally {n : Int} : Grouped dev (.equally n) groups ↔ ofProperty n ≠ 0 ∧
    groups = (List.replicate (dev.hwCPUs.length / ofProperty n) (ofProperty n)).splitLengths dev.hwCPUs := by
  constructor
  · intro h
    cases h with
    | equally h => exact ⟨h, rfl⟩
  · rintro ⟨h, rfl⟩
    exact .equally h

theorem grouped_byCounts {counts : List Int} : Grouped dev (.byCounts counts) groups ↔
    (DevicePartition.getCounts counts).sum ≤ dev.hwCPUs.length ∧
      groups = (DevicePartition.getCounts counts).splitLengths dev.hwCPUs := by
  constructor
  · intro h
    cases h with
    | byCounts h => exact ⟨h, rfl⟩
  · rintro ⟨h, rfl⟩
    exact .byCounts h

/-- Sub-devices are created of the groups that a supported partition asks for. -/
theorem createSubDevices_iff (hv : Valid dev) : createSubDevices ndebug dev part = some (some subs) ↔
    isPartitionSupported ndebug dev part = some true ∧
      ∃ groups, Grouped dev part groups ∧ groups.mapM (newSubDevice ndebug dev) = some subs := by
  unfold createSubDevices
  cases hsupported : isPartitionSupported ndebug dev part with
  | none => simp
  | some b =>
    cases b with
    | false => simp
    | true =>
      simp only [Option.bind_eq_bind, Option.bind_some, Bool.not_true, Bool.false_eq_true, if_false, true_and]
      cases part with
      | byAffinityDomain d =>
        simp only [grouped_byAffinityDomain]
        cases hd : computeAffinityDomain dev.supportedAffinityDomains d with
        | none => simp
        | some d' => simp [Option.bind_eq_some_iff]
      | equally n =>
        simp only [grouped_equally]
        by_cases hn : ofProperty n = 0
        · simp [hn]
        · have hle := supported_equally hv hsupported
          -- A supported size is not above the units, so the number of groups is neither zero nor cut off.
          have hunsigned : toUnsigned (dev.hwCPUs.length / ofProperty n) = dev.hwCPUs.length / ofProperty n :=
            Nat.mod_eq_of_lt ((Nat.div_le_self _ _).trans_lt hv.length_lt)
          have hpos : 0 < dev.hwCPUs.length / ofProperty n := Nat.div_pos hle (Nat.pos_of_ne_zero hn)
          have hassert : assertion ndebug (dev.hwCPUs.length / ofProperty n > 0) = some () := by simp [assertion, hpos]
          have hsum : (List.replicate (dev.hwCPUs.length / ofProperty n) (ofProperty n)).sum ≤ dev.hwCPUs.length := by
            rw [List.sum_replicate_nat]
            exact Nat.div_mul_le_self _ _
          rw [if_neg hn, hunsigned, hassert, cutCPUs_eq, if_pos hsum]
          simp [Option.bind_eq_some_iff, hn]
      | byCounts counts =>
        simp only [grouped_byCounts, cutCPUs_eq]
        by_cases hsum : (DevicePartition.getCounts counts).sum ≤ dev.hwCPUs.length
        · simp [hsum, Option.bind_eq_some_iff]
        · simp [hsum]

theorem newDevice_spec {machine : HardwareMachine} (h : newDevice ndebug machine = some dev) :
    dev.hwCPUs = machine.cpus ∧ Valid dev ∧
      ∀ d, d ≠ .next → HasDomain dev.supportedAffinityDomains d → Spans machine.cpus d := by
  obtain ⟨hcpus, hvalid, hexact⟩ := initSubDeviceInfo_spec machine.nodup machine.length_lt sane_zero h
  refine ⟨hcpus, hvalid, fun d hd hhas => (hexact d hd hhas).resolve_left fun hzero => hzero (Nat.zero_and _)⟩

/-- The sub-devices have the groups. -/
theorem Grouped.subDevices (hv : Valid dev) (h : Grouped dev part groups)
    (hsubs : groups.mapM (newSubDevice ndebug dev) = some subs) :
    subs.map CPUDevice.hwCPUs = groups ∧ ∀ sub ∈ subs, Valid sub := by
  have hapart := h.apart hv
  exact newSubDevices_spec (fun g hg => ⟨hapart.nodup g hg, (hapart.length_le g hg).trans_lt hv.length_lt⟩) hv.sane hsubs

theorem createSubDevices_valid (hv : Valid dev) (h : createSubDevices ndebug dev part = some (some subs)) :
    ∃ groups, Grouped dev part groups ∧ subs.map CPUDevice.hwCPUs = groups ∧ ∀ sub ∈ subs, Valid sub := by
  obtain ⟨-, groups, hgroups, hsubs⟩ := (createSubDevices_iff hv).1 h
  exact ⟨groups, hgroups, hgroups.subDevices hv hsubs⟩

/-- A supported partition is refused only if its domain stands for none. -/
theorem computeAffinityDomain_none (hsupported : isPartitionSupported ndebug dev part = some true)
    (h : createSubDevices ndebug dev part = some none) :
    ∃ d, part = .byAffinityDomain d ∧ computeAffinityDomain dev.supportedAffinityDomains d = none := by
  simp only [createSubDevices, hsupported, Option.bind_eq_bind, Option.bind_some, Bool.not_true, Bool.false_eq_true,
    if_false] at h
  cases part with
  | byAffinityDomain d =>
    cases hd : computeAffinityDomain dev.supportedAffinityDomains d with
    | none => exact ⟨d, rfl, hd⟩
    | some d' =>
      simp only [hd] at h
      obtain ⟨_, -, h⟩ := Option.bind_eq_some_iff.1 h
      cases h
  | equally n =>
    dsimp only at h
    split at h
    · cases h
    · obtain ⟨_, -, h⟩ := Option.bind_eq_some_iff.1 h
      obtain ⟨_, -, h⟩ := Option.bind_eq_some_iff.1 h
      obtain ⟨_, -, h⟩ := Option.bind_eq_some_iff.1 h
      cases h
  | byCounts counts =>
    obtain ⟨_, -, h⟩ := Option.bind_eq_some_iff.1 h
    obtain ⟨_, -, h⟩ := Option.bind_eq_some_iff.1 h
    cases h

theorem valid_of_reachable (ndebug : Bool) (machine : HardwareMachine) : Runs.Invariant (tree ndebug machine) Valid where
  init _ h := (newDevice_spec h).2.1
  step _ _ sub hv h := by
    obtain ⟨subs, hsubs, hmem⟩ := h
    obtain ⟨-, -, -, hvalid⟩ := createSubDevices_valid hv hsubs
    exact hvalid sub hmem

/-- The sizes that a partition should have. -/
def SizedAs (cpus : List HardwareCPU) (groups : List (List HardwareCPU)) : DevicePartition → Prop
  | .equally n => (groups.length : Int) = cpus.length / n ∧ ∀ g ∈ groups, (g.length : Int) = n
  | .byCounts counts => groups.map (fun g => (g.length : Int)) = counts
  | .byAffinityDomain _ => ∀ c ∈ cpus, ∃ g ∈ groups, c ∈ g

structure Partitioned (dev : CPUDevice) (part : DevicePartition) (subs : List CPUDevice) : Prop where
  nonempty : ∀ sub ∈ subs, sub.hwCPUs ≠ []
  subset : ∀ sub ∈ subs, sub.hwCPUs ⊆ dev.hwCPUs
  disjoint : (subs.map CPUDevice.hwCPUs).Pairwise List.Disjoint
  sized : SizedAs dev.hwCPUs (subs.map CPUDevice.hwCPUs) part

/-- The partition is refused, or made as it should be. -/
def Creates (ndebug : Bool) (dev : CPUDevice) (part : DevicePartition) : Prop :=
  ∃ r, createSubDevices ndebug dev part = some r ∧ ∀ subs, r = some subs → Partitioned dev part subs

/-- Whatever partition passes the checks, it is refused, or what is handed out is as it should be. -/
def PartitionsRightly (ndebug : Bool) (dev : CPUDevice) (properties : List Int) : Prop :=
  ∀ part, checkProperties properties = some (.ok part) → ∀ numDevices outDevices,
    ∃ r, clCreateSubDevices ndebug (some dev) (some properties) numDevices outDevices = some r ∧
      (r.err = .success → outDevices = true → Partitioned dev part r.outDevices)

/-- The numbers are not too large, and every CPU has a component. -/
def Fits (ndebug : Bool) (dev : CPUDevice) : DevicePartition → Prop
  | .equally n => n < 2 ^ 32
  | .byCounts counts => counts.sum ≤ dev.hwCPUs.length ∧ (ndebug = true ∨ counts ≠ [])
  | .byAffinityDomain d => ∀ d', computeAffinityDomain dev.supportedAffinityDomains d = some d' →
    ∀ c ∈ dev.hwCPUs, (component c d').isSome

/-- The numbers of a property list that has passed the checks. -/
def Positive : DevicePartition → Prop
  | .equally n => 0 < n
  | .byCounts counts => ∀ p ∈ counts, 0 < p
  | .byAffinityDomain _ => True

theorem checkCounts_positive {ps counts : List Int} (h : checkCounts ps = some (.ok counts)) : ∀ p ∈ counts, 0 < p := by
  induction ps generalizing counts with
  | nil => cases h
  | cons p ps ih =>
    unfold checkCounts at h
    split at h
    · split at h
      · cases h
      · split at h
        · cases h
        · cases h
          exact fun p hp => absurd hp List.not_mem_nil
    · next hne =>
      split at h
      · cases h
      · next hneg =>
        obtain ⟨r, hr, hmap⟩ := Option.map_eq_some_iff.1 h
        cases r with
        | error err => cases hmap
        | ok rest =>
          cases hmap
          exact List.forall_mem_cons.2 ⟨by omega, ih hr⟩

theorem checkProperties_positive {ps : List Int} (h : checkProperties ps = some (.ok part)) : Positive part := by
  unfold checkProperties at h
  split at h
  · split at h
    · cases h
    · next hpos =>
      split at h
      · cases h
      · split at h
        · cases h
        · cases h
          exact not_le.1 hpos
  · obtain ⟨r, hr, hmap⟩ := Option.map_eq_some_iff.1 h
    cases r with
    | error err => cases hmap
    | ok counts =>
      cases hmap
      exact checkCounts_positive hr
  · split at h
    · cases h
    · split at h
      · cases h
      · next p _ _ _ _ =>
        split at h
        · cases h
        · cases hp : checkAffinity p with
          | error err => rw [hp] at h; cases h
          | ok d =>
            rw [hp] at h
            cases h
            trivial
  all_goals cases h

theorem partitionsRightly_iff {properties : List Int} : PartitionsRightly ndebug dev properties ↔
    ∀ part, checkProperties properties = some (.ok part) → Creates ndebug dev part := by
  refine forall_congr' fun part => forall_congr' fun hpart => ?_
  constructor
  · intro h
    obtain ⟨r, hr, -⟩ := h 0 false
    cases hcreate : createSubDevices ndebug dev part with
    | none => simp [clCreateSubDevices, hpart, hcreate] at hr
    | some r =>
      refine ⟨r, hcreate, ?_⟩
      rintro subs rfl
      obtain ⟨r, hr, hall⟩ := h (subs.length + 1) true
      have hr' : clCreateSubDevices ndebug (some dev) (some properties) (subs.length + 1) true =
          some ⟨.success, some subs.length, subs⟩ := by
        simp [clCreateSubDevices, hpart, hcreate]
      obtain rfl := Option.some.inj (hr'.symm.trans hr)
      exact hall rfl rfl
  · rintro ⟨r, hr, hall⟩ numDevices outDevices
    simp only [clCreateSubDevices]
    split
    · exact ⟨_, rfl, fun h => by cases h⟩
    · simp only [hpart, hr, Option.bind_eq_bind, Option.bind_some]
      cases r with
      | none => exact ⟨_, rfl, fun h => by cases h⟩
      | some subs =>
        dsimp only
        split
        · next hout => exact ⟨_, rfl, fun _ h => by rw [h] at hout; cases hout⟩
        · split
          · exact ⟨_, rfl, fun h => by cases h⟩
          · exact ⟨_, rfl, fun _ _ => hall subs rfl⟩

/-- A supported partition goes well when its groups have CPUs, and the sizes that they should have. -/
theorem creates_iff_grouped (hv : Valid dev) (hsupported : isPartitionSupported ndebug dev part = some true)
    (hsome : createSubDevices ndebug dev part ≠ some none) : Creates ndebug dev part ↔
      ∃ groups, Grouped dev part groups ∧ (∀ g ∈ groups, g ≠ []) ∧ SizedAs dev.hwCPUs groups part := by
  constructor
  · rintro ⟨r, hr, hall⟩
    cases r with
    | none => exact absurd hr hsome
    | some subs =>
      obtain ⟨groups, hgroups, rfl, -⟩ := createSubDevices_valid hv hr
      have hparts := hall subs rfl
      exact ⟨_, hgroups, List.forall_mem_map.2 hparts.nonempty, hparts.sized⟩
  · rintro ⟨groups, hgroups, hne, hsized⟩
    obtain ⟨subs, hsubs⟩ : ∃ subs, groups.mapM (newSubDevice ndebug dev) = some subs := newSubDevices_isSome hne
    have hcreate := (createSubDevices_iff hv).2 ⟨hsupported, groups, hgroups, hsubs⟩
    have hapart := hgroups.apart hv
    obtain ⟨hcpus, -⟩ := hgroups.subDevices hv hsubs
    rw [← hcpus] at hne hapart hsized
    refine ⟨_, hcreate, ?_⟩
    rintro _ ⟨⟩
    exact ⟨fun sub hsub => hne _ (List.mem_map_of_mem hsub), fun sub hsub => hapart.subset _ (List.mem_map_of_mem hsub),
      hapart.disjoint, hsized⟩

theorem ofProperty_cast {p : Int} (hpos : 0 < p) (hlt : p < 2 ^ 32) : (ofProperty p : Int) = p := by
  unfold ofProperty
  omega

theorem ofProperty_lt (p : Int) : (ofProperty p : Int) < 2 ^ 32 := by
  unfold ofProperty
  omega

/-- The equal groups are as they should be if the number of CPUs is not cut. -/
theorem creates_equally {n : Int} (hv : Valid dev) (hn : 0 < n)
    (hsupported : isPartitionSupported ndebug dev (.equally n) = some true) :
    Creates ndebug dev (.equally n) ↔ n < 2 ^ 32 := by
  have hle := supported_equally hv hsupported
  have hsome : createSubDevices ndebug dev (.equally n) ≠ some none := by
    intro h
    obtain ⟨_, hpart, -⟩ := computeAffinityDomain_none hsupported h
    cases hpart
  have hlengths : ∀ g ∈ (List.replicate (dev.hwCPUs.length / ofProperty n) (ofProperty n)).splitLengths dev.hwCPUs,
      g.length = ofProperty n := by
    have hsum : (List.replicate (dev.hwCPUs.length / ofProperty n) (ofProperty n)).sum ≤ dev.hwCPUs.length := by
      rw [List.sum_replicate_nat]
      exact Nat.div_mul_le_self _ _
    intro g hg
    have hmem := List.mem_map_of_mem (f := List.length) hg
    rw [List.map_splitLengths_length _ _ hsum] at hmem
    exact List.eq_of_mem_replicate hmem
  rw [creates_iff_grouped hv hsupported hsome]
  constructor
  · rintro ⟨_, hgroups, -, hsized⟩
    cases hgroups with
    | equally hne =>
      have hpos : 0 < dev.hwCPUs.length / ofProperty n := Nat.div_pos hle (Nat.pos_of_ne_zero hne)
      obtain ⟨g, hg⟩ : ∃ g, g ∈ (List.replicate (dev.hwCPUs.length / ofProperty n) (ofProperty n)).splitLengths
          dev.hwCPUs := by
        refine List.exists_mem_of_length_pos ?_
        rw [List.length_splitLengths, List.length_replicate]
        exact hpos
      rw [← hsized.2 g hg, hlengths g hg]
      exact ofProperty_lt n
  · intro hlt
    have hcast := ofProperty_cast hn hlt
    have hne : ofProperty n ≠ 0 := by omega
    refine ⟨_, .equally hne, fun g hg hnil => ?_, ?_, fun g hg => ?_⟩
    · have := hlengths g hg
      rw [hnil] at this
      exact hne this.symm
    · rw [List.length_splitLengths, List.length_replicate, Int.natCast_div, hcast]
    · rw [hlengths g hg, hcast]

theorem getCounts_cast {counts : List Int} (hpos : ∀ p ∈ counts, 0 < p) (hlt : counts.sum < 2 ^ 32) :
    (DevicePartition.getCounts counts).map (fun n : Nat => (n : Int)) = counts := by
  have hsum : ∀ {l : List Int}, (∀ p ∈ l, 0 < p) → 0 ≤ l.sum := by
    intro l hl
    exact List.sum_nonneg fun p hp => (hl p hp).le
  rw [DevicePartition.getCounts, List.map_map]
  induction counts with
  | nil => rfl
  | cons p counts ih =>
    obtain ⟨hp, hrest⟩ := List.forall_mem_cons.1 hpos
    rw [List.sum_cons] at hlt
    have := hsum hrest
    rw [List.map_cons, ih hrest (by omega), Function.comp_apply, ofProperty_cast hp (by omega)]

theorem sum_cast (l : List Nat) : ((l.sum : Nat) : Int) = (l.map fun n : Nat => (n : Int)).sum := by
  induction l with
  | nil => rfl
  | cons n l ih => rw [List.sum_cons, List.map_cons, List.sum_cons, Nat.cast_add, ih]

/-- The groups have the counts if these together are not more than the CPUs. -/
theorem creates_byCounts {counts : List Int} (hv : Valid dev) (hpos : ∀ p ∈ counts, 0 < p)
    (hsupported : isPartitionSupported ndebug dev (.byCounts counts) = some true) :
    Creates ndebug dev (.byCounts counts) ↔ counts.sum ≤ dev.hwCPUs.length := by
  have hsome : createSubDevices ndebug dev (.byCounts counts) ≠ some none := by
    intro h
    obtain ⟨_, hpart, -⟩ := computeAffinityDomain_none hsupported h
    cases hpart
  have hcasts : ∀ {groups : List (List HardwareCPU)}, SizedAs dev.hwCPUs groups (.byCounts counts) ↔
      (groups.map List.length).map (fun n : Nat => (n : Int)) = counts := by
    intro groups
    rw [List.map_map]
    rfl
  rw [creates_iff_grouped hv hsupported hsome]
  constructor
  · rintro ⟨_, hgroups, -, hsized⟩
    cases hgroups with
    | byCounts hsum =>
      rw [hcasts, List.map_splitLengths_length _ _ hsum] at hsized
      rw [← hsized, ← sum_cast]
      exact_mod_cast hsum
  · intro hsum
    have hlt : counts.sum < 2 ^ 32 := hsum.trans_lt (by exact_mod_cast hv.length_lt)
    have hcast := getCounts_cast hpos hlt
    have hsum' : (DevicePartition.getCounts counts).sum ≤ dev.hwCPUs.length := by
      rw [← hcast, ← sum_cast] at hsum
      exact_mod_cast hsum
    have hlengths := List.map_splitLengths_length _ _ hsum'
    refine ⟨_, .byCounts hsum', fun g hg hnil => ?_, ?_⟩
    · have hmem := List.mem_map_of_mem (f := fun n : Nat => (n : Int)) (hlengths ▸ List.mem_map_of_mem (f := List.length) hg)
      rw [hcast, hnil] at hmem
      exact lt_irrefl 0 (hpos _ hmem)
    · rw [hcasts, hlengths, hcast]

theorem creates_byAffinityDomain {d : PartitionAffinity} (hv : Valid dev)
    (hsupported : isPartitionSupported ndebug dev (.byAffinityDomain d) = some true) :
    Creates ndebug dev (.byAffinityDomain d) ↔ Fits ndebug dev (.byAffinityDomain d) := by
  cases hd : computeAffinityDomain dev.supportedAffinityDomains d with
  | none =>
    refine iff_of_true ⟨none, ?_, fun subs h => by cases h⟩ fun d' hd' => ?_
    · simp [createSubDevices, hsupported, hd]
    · rw [hd] at hd'
      cases hd'
  | some d' =>
    have hsome : createSubDevices ndebug dev (.byAffinityDomain d) ≠ some none := by
      intro h
      obtain ⟨_, hpart, hnone⟩ := computeAffinityDomain_none hsupported h
      cases hpart
      rw [hd] at hnone
      cases hnone
    rw [creates_iff_grouped hv hsupported hsome]
    constructor
    · rintro ⟨_, hgroups, -, hsized⟩ d'' hd'' c hc
      cases hgroups with
      | byAffinityDomain hgroup =>
        obtain rfl := Option.some.inj (hgroup.symm.trans hd'')
        obtain ⟨g, hg, hcg⟩ := hsized c hc
        obtain ⟨k, rfl, -⟩ := mem_groups.1 hg
        rw [cpusOf, List.mem_filter, decide_eq_true_iff] at hcg
        rw [hcg.2]
        rfl
    · intro hfits
      refine ⟨_, .byAffinityDomain hd, fun g hg => ?_, fun c hc => ?_⟩
      · obtain ⟨k, -, hne⟩ := mem_groups.1 hg
        exact hne
      · obtain ⟨k, hk⟩ := Option.isSome_iff_exists.1 (hfits d' hd c hc)
        have hmem : c ∈ cpusOf dev.hwCPUs d' k := List.mem_filter.2 ⟨hc, decide_eq_true hk⟩
        exact ⟨_, mem_groups.2 ⟨k, rfl, List.ne_nil_of_mem hmem⟩, hmem⟩

/-- A partition goes well exactly when it is refused or fits. -/
theorem creates_iff (hv : Valid dev) (hpos : Positive part) : Creates ndebug dev part ↔
    isPartitionSupported ndebug dev part = some false ∨ Fits ndebug dev part := by
  cases hsupported : isPartitionSupported ndebug dev part with
  | none =>
    have hpart : part = .byCounts [] ∧ ndebug = false := by
      unfold isPartitionSupported at hsupported
      split at hsupported
      · cases hsupported
      · cases part with
        | byCounts counts =>
          cases counts <;> cases ndebug <;> simp_all [assertion]
        | _ => cases hsupported
    obtain ⟨rfl, rfl⟩ := hpart
    refine iff_of_false ?_ ?_
    · rintro ⟨r, hr, -⟩
      simp [createSubDevices, hsupported] at hr
    · rintro (h | ⟨-, h | h⟩)
      · cases h
      · cases h
      · exact h rfl
  | some b =>
    cases b with
    | false =>
      refine iff_of_true ⟨none, ?_, fun subs h => by cases h⟩ (.inl rfl)
      simp [createSubDevices, hsupported]
    | true =>
      have hnot : (some true = some false ∨ Fits ndebug dev part) ↔ Fits ndebug dev part := by simp
      rw [hnot]
      cases part with
      | equally n => exact creates_equally hv hpos hsupported
      | byAffinityDomain d => exact creates_byAffinityDomain hv hsupported
      | byCounts counts =>
        rw [creates_byCounts hv hpos hsupported]
        refine (and_iff_left ?_).symm
        unfold isPartitionSupported at hsupported
        split at hsupported
        · cases hsupported
        · cases counts <;> cases ndebug <;> simp_all [assertion]

/-- Of every device of a tree, the partitions are as they should be exactly when they are refused or fit. -/
theorem partitions_rightly_iff {machine : HardwareMachine} (hr : Runs.Reachable (tree ndebug machine) dev)
    (properties : List Int) : PartitionsRightly ndebug dev properties ↔
      ∀ part, checkProperties properties = some (.ok part) →
        isPartitionSupported ndebug dev part = some false ∨ Fits ndebug dev part := by
  rw [partitionsRightly_iff]
  refine forall_congr' fun part => forall_congr' fun hpart => ?_
  exact creates_iff ((valid_of_reachable ndebug machine).reachable hr) (checkProperties_positive hpart)

end Creating

section TwoNodes

/-- Two CPUs, each in a node of its own. -/
def twoNodes : HardwareMachine where
  cpus := [{ address := 1, ancestors := [{ address := 11, type := .node }] },
           { address := 2, ancestors := [{ address := 12, type := .node }] }]
  nodup := by decide
  ne_nil := List.cons_ne_nil _ _
  length_lt := by decide

def twoNodesDevice : CPUDevice where
  hwCPUs := twoNodes.cpus
  maxComputeUnits := 2
  maxSubDevices := 2
  supportedPartitionTypes := [.equally, .byCounts, .byAffinityDomain]
  supportedAffinityDomains := 1

theorem twoNodes_device (ndebug : Bool) : newDevice ndebug twoNodes = some twoNodesDevice := by
  cases ndebug <;> decide

/-- The two CPUs can be parted. -/
theorem twoNodes_equally : Runs.Reachable (tree false twoNodes) twoNodesDevice ∧
    PartitionsRightly false twoNodesDevice [0x1086, 1, 0] := by
  have hr : Runs.Reachable (tree false twoNodes) twoNodesDevice := .init (twoNodes_device false)
  refine ⟨hr, (partitions_rightly_iff hr _).2 fun part hpart => .inr ?_⟩
  have hcheck : checkProperties [0x1086, 1, 0] = some (.ok (.equally 1)) := rfl
  rw [hcheck] at hpart
  cases hpart
  exact show (1 : Int) < 2 ^ 32 by decide

/-- The sum of the counts is cut to 1, and more CPUs are taken than there are. -/
theorem counts_overflow : newDevice true twoNodes = some twoNodesDevice ∧
    createSubDevices true twoNodesDevice (.byCounts [4294967295, 2]) = none ∧
    ¬ PartitionsRightly true twoNodesDevice [0x1087, 4294967295, 2, 0, 0] := by
  have hcheck : checkProperties [0x1087, 4294967295, 2, 0, 0] = some (.ok (.byCounts [4294967295, 2])) := by decide
  have hnone : createSubDevices true twoNodesDevice (.byCounts [4294967295, 2]) = none := by
    have hsupported : isPartitionSupported true twoNodesDevice (.byCounts [4294967295, 2]) = some true := by decide
    have hcut : cutCPUs (DevicePartition.getCounts [4294967295, 2]) twoNodesDevice.hwCPUs = none := by
      rw [cutCPUs_eq]
      decide
    simp [createSubDevices, hsupported, hcut]
  refine ⟨twoNodes_device true, hnone, fun h => ?_⟩
  obtain ⟨r, hr, -⟩ := partitionsRightly_iff.1 h _ hcheck
  rw [hnone] at hr
  cases hr

end TwoNodes

/-! ## The domains of a tree -/

section Affinity
variable {ndebug : Bool} {dev : CPUDevice} {domains : Nat} {d : PartitionAffinity}

theorem hasDomain_and {domains : Nat} {d : PartitionAffinity} : d.value &&& domains ≠ 0 ↔ HasDomain domains d := by
  rw [Nat.and_comm]
  rfl

/-- A domain of a device stands for a concrete one. -/
theorem computeAffinityDomain_some (hs : Sane domains) (h : HasDomain domains d) :
    ∃ d', computeAffinityDomain domains d = some d' ∧ d' ≠ .next ∧ HasDomain domains d' := by
  unfold computeAffinityDomain
  by_cases hd : d = .next
  · rw [if_neg (not_not.2 hd)]
    subst hd
    obtain ⟨d₁, -, -, hd₁, -, h₁, -⟩ := hs.next.1 h
    cases hfind : [PartitionAffinity.numa, .l4Cache, .l3Cache, .l2Cache, .l1Cache].find?
        fun d => d.value &&& domains ≠ 0 with
    | none =>
      have hmem : d₁ ∈ [PartitionAffinity.numa, .l4Cache, .l3Cache, .l2Cache, .l1Cache] := by
        cases d₁ <;> simp at hd₁ ⊢
      have := List.find?_eq_none.1 hfind d₁ hmem
      rw [decide_eq_true_iff, hasDomain_and] at this
      exact absurd h₁ this
    | some d' =>
      refine ⟨d', rfl, ?_, ?_⟩
      · rintro rfl
        have := List.mem_of_find?_eq_some hfind
        simp at this
      · have := List.find?_some hfind
        rw [decide_eq_true_iff, hasDomain_and] at this
        exact this
  · rw [if_pos hd, if_pos (hasDomain_and.2 h)]
    exact ⟨d, rfl, hd, h⟩

/-- A domain of a device, if its CPUs span what it stands for, makes two sub-devices. -/
theorem divides (hv : Valid dev) (h : HasDomain dev.supportedAffinityDomains d) {d' : PartitionAffinity}
    (hd' : computeAffinityDomain dev.supportedAffinityDomains d = some d') (hspans : Spans dev.hwCPUs d') :
    ∃ subs, createSubDevices ndebug dev (.byAffinityDomain d) = some (some subs) ∧ 2 ≤ subs.length := by
  have hsupported : isPartitionSupported ndebug dev (.byAffinityDomain d) = some true := by
    have htype : PartitionType.byAffinityDomain ∈ dev.supportedPartitionTypes := hv.offered.2 ⟨d, h⟩
    rw [isPartitionSupported, DevicePartition.getType, if_neg (not_not.2 htype)]
    exact congrArg some (decide_eq_true h)
  have hgroups : Grouped dev (.byAffinityDomain d) _ := .byAffinityDomain hd'
  obtain ⟨subs, hsubs⟩ : ∃ subs, ((groupByComponent dev.hwCPUs d').map Prod.snd).mapM (newSubDevice ndebug dev) =
      some subs := newSubDevices_isSome fun g hg => by
    obtain ⟨k, -, hne⟩ := mem_groups.1 hg
    exact hne
  have hcreate := (createSubDevices_iff hv).2 ⟨hsupported, _, hgroups, hsubs⟩
  obtain ⟨hcpus, -⟩ := hgroups.subDevices hv hsubs
  refine ⟨subs, hcreate, ?_⟩
  rw [← List.length_map (f := CPUDevice.hwCPUs), hcpus, List.length_map]
  exact two_le_groups hspans

/-- The domains of a device, and the partitions along them. -/
structure Affine (ndebug : Bool) (dev : CPUDevice) : Prop where
  spanned : ∀ d, Spans dev.hwCPUs d → HasDomain dev.supportedAffinityDomains d
  next : HasDomain dev.supportedAffinityDomains .next ↔ HasTwo dev.supportedAffinityDomains
  offered : .byAffinityDomain ∈ dev.supportedPartitionTypes ↔ ∃ d, HasDomain dev.supportedAffinityDomains d
  divides : ∀ d, HasDomain dev.supportedAffinityDomains d →
    ∃ d', computeAffinityDomain dev.supportedAffinityDomains d = some d' ∧ (Spans dev.hwCPUs d' →
      ∃ subs, createSubDevices ndebug dev (.byAffinityDomain d) = some (some subs) ∧ 2 ≤ subs.length)

/-- The root device has no domains but those it spans. -/
structure Exact (ndebug : Bool) (dev : CPUDevice) : Prop where
  domain : ∀ d, d ≠ .next → (HasDomain dev.supportedAffinityDomains d ↔ Spans dev.hwCPUs d)
  divides : ∀ d, HasDomain dev.supportedAffinityDomains d →
    ∃ subs, createSubDevices ndebug dev (.byAffinityDomain d) = some (some subs) ∧ 2 ≤ subs.length

/-- Every device of a tree has the domains that it spans, the next one if it has two, and is parted along them. -/
theorem affinity_domains (ndebug : Bool) (machine : HardwareMachine) :
    (∀ dev, Runs.Reachable (tree ndebug machine) dev → Affine ndebug dev) ∧
      ∀ dev, newDevice ndebug machine = some dev → Exact ndebug dev := by
  constructor
  · intro dev hr
    have hv := (valid_of_reachable ndebug machine).reachable hr
    refine ⟨hv.spanned, hv.sane.next, hv.offered, fun d hd => ?_⟩
    obtain ⟨d', hd', -, -⟩ := computeAffinityDomain_some hv.sane hd
    exact ⟨d', hd', divides hv hd hd'⟩
  · intro dev h
    obtain ⟨hcpus, hv, hexact⟩ := newDevice_spec h
    rw [← hcpus] at hexact
    have hdomain : ∀ d, d ≠ .next → (HasDomain dev.supportedAffinityDomains d ↔ Spans dev.hwCPUs d) :=
      fun d hd => ⟨hexact d hd, hv.spanned d⟩
    refine ⟨hdomain, fun d hd => ?_⟩
    obtain ⟨d', hd', hnext, hhas⟩ := computeAffinityDomain_some hv.sane hd
    exact divides hv hd hd' ((hdomain d' hnext).1 hhas)

/-- A device with one domain does not have the next one. -/
theorem one_domain_without_next : newDevice true twoNodes = some twoNodesDevice ∧
    HasDomain twoNodesDevice.supportedAffinityDomains .numa ∧
    ¬ HasDomain twoNodesDevice.supportedAffinityDomains .next := by
  refine ⟨twoNodes_device true, ?_, ?_⟩ <;> decide

end Affinity

end OpenCRun.SubDevices
