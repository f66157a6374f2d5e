import OpenCRun.Core.Image
import OpenCRun.Device.KernelArguments
/-!
# Creation of samplers

`clCreateSampler` and its builder, which has an error for a second mode that no
call can give.
-/
open OpenCRun.KernelArgs.Stub

namespace OpenCRun

/-! ## The builder -/

inductive SamplerErrCode where
  | invalidContext | invalidOperation | invalidValue
  deriving DecidableEq, Repr

def clAddressNone : BitVec 32 := 0x1130
def clAddressClampToEdge : BitVec 32 := 0x1131
def clAddressClamp : BitVec 32 := 0x1132
def clAddressRepeat : BitVec 32 := 0x1133
def clAddressMirroredRepeat : BitVec 32 := 0x1134

def clFilterNearest : BitVec 32 := 0x1140
def clFilterLinear : BitVec 32 := 0x1141

structure SamplerBuilder where
  errCode : Option SamplerErrCode := none
  diagnostics : List String := []
  normalizedCoords : Bool := false
  addrMode : AddressingMode := .noAddressing
  fltrMode : FilterMode := .noFilter

namespace SamplerBuilder

variable (b : SamplerBuilder)

def notifyError (errCode : SamplerErrCode) (msg : String) : SamplerBuilder :=
  { b with errCode := some errCode, diagnostics := b.diagnostics ++ [msg] }

def setAddressingMode (addrMode : AddressingMode) : SamplerBuilder :=
  if b.addrMode ≠ .noAddressing then b.notifyError .invalidValue "multiple addressing modes not allowed"
  else { b with addrMode }

def setFilterMode (fltrMode : FilterMode) : SamplerBuilder :=
  if b.fltrMode ≠ .noFilter then b.notifyError .invalidValue "multiple filter mode not allowed"
  else { b with fltrMode }

def setNormalizedCoords (enabled : Bool) : SamplerBuilder := { b with normalizedCoords := enabled }

/-- The body of the setters of an addressing mode. -/
def setAddress (addrMode : AddressingMode) (enabled : Bool) : SamplerBuilder :=
  if enabled then b.setAddressingMode addrMode else b

/-- The body of the setters of a filter. -/
def setFilter (fltrMode : FilterMode) (enabled : Bool) : SamplerBuilder :=
  if enabled then b.setFilterMode fltrMode else b

def setAddressNone := b.setAddress .addressNone
def setAddressClampToEdge := b.setAddress .addressClampToEdge
def setAddressClamp := b.setAddress .addressClamp
def setAddressRepeat := b.setAddress .addressRepeat
def setAddressMirroredRepeat := b.setAddress .addressMirroredRepeat
def setFilterNearest := b.setFilter .filterNearest
def setFilterLinear := b.setFilter .filterLinear

def create : Except SamplerErrCode Sampler :=
  match b.errCode with
  | some errCode => .error errCode
  | none => .ok ⟨b.normalizedCoords, b.addrMode, b.fltrMode⟩

end SamplerBuilder

/-- A context is what its devices are. -/
def clCreateSampler (context : Option (List DeviceInfo)) (normalizedCoords addressingMode filterMode : BitVec 32) :
    Except SamplerErrCode Sampler :=
  match context with
  | none => .error .invalidContext
  | some devices =>
    if devices.any (·.hasImageSupport) then
      ({} : SamplerBuilder).setNormalizedCoords (normalizedCoords != 0)
        |>.setAddressNone (addressingMode == clAddressNone)
        |>.setAddressClampToEdge (addressingMode == clAddressClampToEdge)
        |>.setAddressClamp (addressingMode == clAddressClamp)
        |>.setAddressRepeat (addressingMode == clAddressRepeat)
        |>.setAddressMirroredRepeat (addressingMode == clAddressMirroredRepeat)
        |>.setFilterNearest (filterMode == clFilterNearest)
        |>.setFilterLinear (filterMode == clFilterLinear)
        |>.create
    else .error .invalidOperation

/-! ## What is created -/

/-- The mode that a number stands for; other numbers are not refused. -/
def addressingOf (v : BitVec 32) : AddressingMode :=
  if v = clAddressNone then .addressNone
  else if v = clAddressClampToEdge then .addressClampToEdge
  else if v = clAddressClamp then .addressClamp
  else if v = clAddressRepeat then .addressRepeat
  else if v = clAddressMirroredRepeat then .addressMirroredRepeat
  else .noAddressing

def filterOf (v : BitVec 32) : FilterMode :=
  if v = clFilterNearest then .filterNearest else if v = clFilterLinear then .filterLinear else .noFilter

namespace SamplerBuilder

variable {b : SamplerBuilder}

theorem setAddress_true (h : b.addrMode = .noAddressing) (addrMode : AddressingMode) :
    b.setAddress addrMode true = { b with addrMode } := by
  simp [setAddress, setAddressingMode, h]

theorem setFilter_true (h : b.fltrMode = .noFilter) (fltrMode : FilterMode) :
    b.setFilter fltrMode true = { b with fltrMode } := by
  simp [setFilter, setFilterMode, h]

/-- At most one of the setters of addressing modes is enabled. -/
theorem setAddress_all (h : b.addrMode = .noAddressing) (v : BitVec 32) :
    ((((b.setAddressNone (v == clAddressNone)).setAddressClampToEdge (v == clAddressClampToEdge)).setAddressClamp
      (v == clAddressClamp)).setAddressRepeat (v == clAddressRepeat)).setAddressMirroredRepeat
      (v == clAddressMirroredRepeat) = { b with addrMode := addressingOf v } := by
  simp only [setAddressNone, setAddressClampToEdge, setAddressClamp, setAddressRepeat, setAddressMirroredRepeat]
  by_cases hnone : v = clAddressNone
  · subst hnone
    exact setAddress_true h _
  by_cases hedge : v = clAddressClampToEdge
  · subst hedge
    exact setAddress_true h _
  by_cases hclamp : v = clAddressClamp
  · subst hclamp
    exact setAddress_true h _
  by_cases hrepeat : v = clAddressRepeat
  · subst hrepeat
    exact setAddress_true h _
  by_cases hmirrored : v = clAddressMirroredRepeat
  · subst hmirrored
    exact setAddress_true h _
  simp [addressingOf, setAddress, hnone, hedge, hclamp, hrepeat, hmirrored, ← h]

theorem setFilter_all (h : b.fltrMode = .noFilter) (v : BitVec 32) :
    (b.setFilterNearest (v == clFilterNearest)).setFilterLinear (v == clFilterLinear) =
      { b with fltrMode := filterOf v } := by
  simp only [setFilterNearest, setFilterLinear]
  by_cases hnearest : v = clFilterNearest
  · subst hnearest
    exact setFilter_true h _
  by_cases hlinear : v = clFilterLinear
  · subst hlinear
    exact setFilter_true h _
  simp [filterOf, setFilter, hnearest, hlinear, ← h]

end SamplerBuilder

/-- The builder never has an error: a sampler is what was asked for, as far as the numbers are known. -/
theorem clCreateSampler_ok_iff {context : Option (List DeviceInfo)} {normalizedCoords addressingMode filterMode : BitVec 32}
    {s : Sampler} :
    clCreateSampler context normalizedCoords addressingMode filterMode = .ok s ↔
      (∃ devices, context = some devices ∧ ∃ d ∈ devices, d.hasImageSupport = true) ∧
        s = ⟨normalizedCoords != 0, addressingOf addressingMode, filterOf filterMode⟩ := by
  cases context with
  | none => simp [clCreateSampler]
  | some devices =>
    simp only [clCreateSampler, Option.some.injEq, exists_eq_left', List.any_eq_true]
    split
    · next h =>
      rw [SamplerBuilder.setAddress_all rfl, SamplerBuilder.setFilter_all rfl, and_iff_right h]
      simp only [SamplerBuilder.create, SamplerBuilder.setNormalizedCoords, Except.ok.injEq]
      exact eq_comm
    · next h => simp [h]

end OpenCRun
