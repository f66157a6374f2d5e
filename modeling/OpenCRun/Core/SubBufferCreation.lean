import OpenCRun.Core.MemoryObjectBuilder
/-!
# Creating a sub-buffer

What the setters for a sub-buffer leave in the builder, step by step, and what
`create` makes of it.
-/
open Lib

namespace OpenCRun

namespace CLMemFlags

/-- The words that ought to be accepted for a sub-buffer. -/
structure Acceptable (flags : CLMemFlags) : Prop where
  legal : flags.illegal = false
  access : flags.accessCount ≤ 1
  hostAccess : flags.hostAccessCount ≤ 1
  hostPtr : flags.hostPtrCount = 0

/-- The words that `setSubBufferFlags` rejects: an access flag goes with no other kind of flag. -/
def RejectedForSubBuffer (flags : CLMemFlags) : Prop :=
  flags.illegal = true ∨ flags.accessCount > 1 ∨
    flags.accessCount = 1 ∧ (flags.hostAccessCount > 0 ∨ flags.hostPtrCount ≠ 0)

/-- A word of the access flags of an object has no others. -/
theorem count_access (flags : MemFlags) {a b c : MemFlags} (ha : MemFlags.AccessProtectionMask &&& a = 0)
    (hb : MemFlags.AccessProtectionMask &&& b = 0) (hc : MemFlags.AccessProtectionMask &&& c = 0) :
    (ofFlags (flags &&& MemFlags.AccessProtectionMask)).count a b c = 0 := by
  simp [count, has_ofFlags_and flags ha, has_ofFlags_and flags hb, has_ofFlags_and flags hc]

end CLMemFlags

namespace MemoryObjectBuilder

open CLMemFlags

/-- The region is accepted, with the sum in 64 bits. -/
def RegionAccepted (parent : Buffer) (br : BufferRegion) : Prop :=
  br.size ≠ 0 ∧ (br.origin + br.size).toNat ≤ parent.getSize

/-- A region of the parent's bytes. -/
def InBounds (parent : Buffer) (br : BufferRegion) : Prop :=
  br.size ≠ 0 ∧ br.origin.toNat + br.size.toNat ≤ parent.getSize

theorem InBounds.accepted {parent : Buffer} {br : BufferRegion} (h : InBounds parent br) : RegionAccepted parent br := by
  refine ⟨h.1, ?_⟩
  rw [BitVec.toNat_add]
  exact (Nat.mod_le _ _).trans h.2

variable {b : MemoryObjectBuilder}

@[simp] theorem error_ok (err : MemoryErrCode) (msg : String) : (b.error err msg).ok = b.ctx.isSome := by
  simp [error]

@[simp] theorem error_val (err : MemoryErrCode) (msg : String) :
    (b.error err msg).val = { b with err, diagnostics := b.diagnostics ++ [msg] } := rfl

/-- A setter goes on with the same object. -/
structure Same (b b' : MemoryObjectBuilder) : Prop where
  kind : b'.kind = b.kind
  ctx : b'.ctx = b.ctx
  params : b'.params = b.params

/-! ## The region -/

section Region
variable (b) (context : MemoryObject → Nat) (m : Main) (br : BufferRegion)

/-- The builder with a parent. -/
def withParent : MemoryObjectBuilder :=
  { b with params := b.params.setParent (.main m), ctx := some (context (.buffer (.main m))) }

theorem setSubBufferParams_main :
    (b.setSubBufferParams context (some (.buffer (.main m))) bufferCreateTypeRegion (some br)).ok = true ∧
      Same (b.withParent context m)
        (b.setSubBufferParams context (some (.buffer (.main m))) bufferCreateTypeRegion (some br)).val ∧
      (b.err = .success →
        ((b.setSubBufferParams context (some (.buffer (.main m))) bufferCreateTypeRegion (some br)).val.err = .success ↔
          RegionAccepted (.main m) br)) := by
  have hsub : (Buffer.main m).isSubBuffer = false := rfl
  simp only [setSubBufferParams, hsub, Bool.false_eq_true, if_false, ne_eq, not_true, RegionAccepted]
  by_cases hsize : br.size = 0
  · rw [if_pos hsize]
    exact ⟨rfl, ⟨rfl, rfl, rfl⟩, fun _ => iff_of_false (fun h => by cases h) fun h => h.1 hsize⟩
  by_cases hbounds : (br.origin + br.size).toNat > (Buffer.main m).getSize
  · rw [if_neg hsize, if_pos hbounds]
    exact ⟨rfl, ⟨rfl, rfl, rfl⟩, fun _ => iff_of_false (fun h => by cases h) fun h => Nat.not_lt.2 h.2 hbounds⟩
  · rw [if_neg hsize, if_neg hbounds]
    exact ⟨rfl, ⟨rfl, rfl, rfl⟩, fun h => iff_of_true h ⟨hsize, Nat.not_lt.1 hbounds⟩⟩

end Region

/-! ## The flags -/

section Flags
variable {ndebug : Bool} {parent : Buffer} (flags : CLMemFlags)

/-- What an accepted word makes of the flags: without any flag, those of the parent; else, the parent's
host pointer mode alone. -/
def subBufferFlags (parent : MemFlags) (flags : CLMemFlags) : MemFlags :=
  if flags = 0 then parent else parent &&& MemFlags.HostPtrModeMask

theorem check_true : Checked.check true = pure () := rfl

section Run
variable (hctx : b.ctx.isSome = true) (hparent : b.params.parent = some parent)
  (hassert : ndebug = true ∨ b.kind = .subBuffer)

include hparent in
theorem parentFlags_eq : b.parentFlags = pure parent.getFlags := by
  simp only [parentFlags, hparent, Option.isSome_some, check_true, pure_bind, Option.map_some, Option.getD_some]

include hparent hassert in
theorem setSubBufferFlags_accepted (h : ¬ RejectedForSubBuffer flags) :
    b.setSubBufferFlags ndebug flags = pure { b with flags := subBufferFlags parent.getFlags flags } := by
  have hcheck : (ndebug || b.kind == .subBuffer) = true := by simpa using hassert
  have hlegal : ¬ flags.illegal = true := fun hl => h (.inl hl)
  have haccess : ¬ flags.accessCount > 1 := fun ha => h (.inr (.inl ha))
  simp only [setSubBufferFlags, hcheck, check_true, parentFlags_eq hparent, if_neg hlegal, if_neg haccess, pure_bind,
    subBufferFlags]
  by_cases hzero : flags = 0
  · rw [if_pos hzero, if_pos hzero]
  · rw [if_neg hzero, if_neg hzero]
    by_cases hnone : flags.accessCount = 0
    · -- the flags of the parent that stand in for the word pass both tests
      rw [if_pos hnone, if_neg, if_neg]
      · exact not_not.2 (count_access _ (by decide) (by decide) (by decide))
      · exact (count_access _ (by decide) (by decide) (by decide)).not_gt
    · have hone : flags.accessCount = 1 := by omega
      rw [if_neg hnone, if_neg fun hh => h (.inr (.inr ⟨hone, .inl hh⟩)),
        if_neg fun hh => h (.inr (.inr ⟨hone, .inr hh⟩))]

include hctx hassert in
theorem setSubBufferFlags_rejected (h : RejectedForSubBuffer flags) :
    ∃ msg, b.setSubBufferFlags ndebug flags =
      pure { b with err := .invalidValue, diagnostics := b.diagnostics ++ [msg] } := by
  have hcheck : (ndebug || b.kind == .subBuffer) = true := by simpa using hassert
  have herr : ∀ msg, b.error .invalidValue msg =
      pure { b with err := .invalidValue, diagnostics := b.diagnostics ++ [msg] } := by
    intro msg
    rw [error, hctx]
    rfl
  simp only [setSubBufferFlags, hcheck, check_true, pure_bind, herr]
  by_cases hlegal : flags.illegal = true
  · exact ⟨_, if_pos hlegal⟩
  have hzero : flags ≠ 0 := by
    rintro rfl
    rcases h with h | h | h
    · exact hlegal h
    · exact absurd h (by decide)
    · exact absurd h.1 (by decide)
  rw [if_neg hlegal, if_neg hzero]
  by_cases haccess : flags.accessCount > 1
  · exact ⟨_, if_pos haccess⟩
  obtain ⟨hone, hother⟩ := (h.resolve_left hlegal).resolve_left haccess
  rw [if_neg haccess, if_neg (by omega)]
  by_cases hhost : flags.hostAccessCount > 0
  · exact ⟨_, if_pos hhost⟩
  · exact ⟨_, (if_neg hhost).trans (if_pos (hother.resolve_left hhost))⟩

end Run

end Flags

/-! ## The object -/

/-- The sub-buffer that was asked for. -/
structure SubBufferOf (parent : Buffer) (flags : CLMemFlags) (br : BufferRegion) (obj : Created) : Prop where
  place : obj = .subBuffer (some parent) br.origin.toNat br.size.toNat obj.getFlags
  inside : br.origin.toNat + br.size.toNat ≤ parent.getSize
  access : ofFlags (obj.getFlags &&& MemFlags.AccessProtectionMask) =
    ((if flags.has MemFlags.AccessProtectionMask then flags else ofFlags parent.getFlags) &&&
      ofFlags MemFlags.AccessProtectionMask)
  hostAccess : flags.hostAccessCount ≤ 1 ∧ ofFlags (obj.getFlags &&& MemFlags.HostAccessProtectionMask) =
    ((if flags.has MemFlags.HostAccessProtectionMask then flags else ofFlags parent.getFlags) &&&
      ofFlags MemFlags.HostAccessProtectionMask)
  hostPtr : obj.getFlags &&& MemFlags.HostPtrModeMask = parent.getFlags &&& MemFlags.HostPtrModeMask

/-- The call fails or makes the right sub-buffer, without a failed assertion or a null pointer that is
followed, and no word is rejected that ought to be accepted. Memory can always be short. -/
structure Correct (parent : Buffer) (flags : CLMemFlags) (br : BufferRegion)
    (r : Checked (Option Created × MemoryErrCode)) : Prop where
  defined : r.ok = true
  result : r.val.2 ≠ .success ∨ ∃ obj, r.val.1 = some obj ∧ SubBufferOf parent flags br obj
  accepts : Acceptable flags → InBounds parent br → r.val.2 = .success ∨ r.val.2 = .outOfHostMemory

/-- The call fails, and it ought to or memory is short. -/
def FailsRightly (parent : Buffer) (flags : CLMemFlags) (br : BufferRegion) (init : Bool) : Prop :=
  ¬ RegionAccepted parent br ∨ (RejectedForSubBuffer flags ∧ ¬ (Acceptable flags ∧ InBounds parent br)) ∨
    (¬ RejectedForSubBuffer flags ∧ init = false)

section Create
variable {ndebug init : Bool} {address : Buffer → Nat}

theorem create_failed (h : b.err ≠ .success) : b.create address init = pure (none, b.err) := if_pos h

theorem create_success (h : b.err = .success) (hctx : b.ctx.isSome = true)
    (hparent : (b.kind != .subBuffer || b.params.parent.isSome) = true) :
    b.create address init =
      pure (some (b.object address), if init then .success else .outOfHostMemory) := by
  have herr : b.error .outOfHostMemory "out of host memory" =
      pure { b with err := .outOfHostMemory, diagnostics := b.diagnostics ++ ["out of host memory"] } := by
    rw [error, hctx]
    rfl
  simp only [create, h, ne_eq, not_true, if_false, hctx, hparent, Bool.true_and, check_true, pure_bind, herr]
  cases init <;> rfl

/-- A builder that is not a sub-buffer's makes a buffer; a sub-buffer's was never given a size. -/
theorem object_wrong {parent : Buffer} {flags : CLMemFlags} {br : BufferRegion} {kind : Kind} (hkind : kind ≠ .image)
    {m : Main} (hb : b.kind = kind) (hparams : b.params = (new kind).params.setParent (.main m)) (hsize : br.size ≠ 0) :
    ¬ SubBufferOf parent flags br (b.object address) := by
  intro h
  have hplace := h.place
  cases kind with
  | image => exact hkind rfl
  | buffer => simp [object, hb, hparams] at hplace
  | subBuffer =>
    simp only [object, hb, hparams, new, Params.setParent, Created.subBuffer.injEq] at hplace
    apply hsize
    apply BitVec.eq_of_toNat_eq
    exact hplace.2.2.1.symm

end Create

section Outcomes
variable {parent : Buffer} {flags : CLMemFlags} {br : BufferRegion}

/-- The region is refused. -/
theorem correct_region {err : MemoryErrCode} (herr : err ≠ .success) (h : ¬ RegionAccepted parent br) :
    Correct parent flags br (pure (none, err)) :=
  ⟨rfl, .inl herr, fun _ hin => absurd hin.accepted h⟩

/-- The flags are refused. -/
theorem correct_flags : Correct parent flags br (pure (none, .invalidValue)) ↔
    ¬ (Acceptable flags ∧ InBounds parent br) := by
  constructor
  · rintro h ⟨hacc, hin⟩
    rcases h.accepts hacc hin with h | h <;> cases h
  · intro h
    exact ⟨rfl, .inl (fun h => by cases h), fun hacc hin => absurd ⟨hacc, hin⟩ h⟩

/-- Some object is made, but not the right one. -/
theorem correct_wrong {obj : Created} (hobj : ¬ SubBufferOf parent flags br obj) (init : Bool) :
    Correct parent flags br (pure (some obj, if init then .success else .outOfHostMemory)) ↔ init = false := by
  cases init with
  | false => exact iff_of_true ⟨rfl, .inl (fun h => by cases h), fun _ _ => .inr rfl⟩ rfl
  | true =>
    apply iff_of_false _ Bool.noConfusion
    intro h
    obtain ⟨obj', hobj', hof⟩ := h.result.resolve_left (not_not.2 rfl)
    exact hobj (Option.some.inj hobj' ▸ hof)

end Outcomes

section Calls
variable (ndebug : Bool) (address : Buffer → Nat) (init : Bool) (context : MemoryObject → Nat) (parent : Buffer)
  (flags : CLMemFlags) (br : BufferRegion)

/-- A sub-buffer's sub-buffer is refused before there is a context to report it to. -/
theorem nested_undefined (kind : Kind) (h : parent.isSubBuffer = true) :
    (createSubBuffer ndebug address init kind context (some (.buffer parent)) flags bufferCreateTypeRegion
      (some br)).ok = false := by
  have hctx : (new kind).ctx.isSome = false := rfl
  simp [createSubBuffer, setSubBufferParams, h, hctx]

/-- With assertions, a builder of another kind does not get through. -/
theorem assertion_fails (h : b.kind ≠ .subBuffer) : (b.setSubBufferFlags false flags).ok = false := by
  have hcheck : (b.kind == .subBuffer) = false := by simpa using h
  simp [setSubBufferFlags, hcheck]

/-- From the flags on, with a parent and a context. -/
theorem flags_create_iff {kind : Kind} (hkind : kind ≠ .image) {m : Main} (hk : b.kind = kind)
    (hparams : b.params = (new kind).params.setParent (.main m)) (hctx : b.ctx.isSome = true)
    (herr : b.err = .success ↔ RegionAccepted (.main m) br) (hassert : ndebug = true ∨ b.kind = .subBuffer) :
    Correct (.main m) flags br (b.setSubBufferFlags ndebug flags >>= fun b => b.create address init) ↔
      FailsRightly (.main m) flags br init := by
  have hparent : b.params.parent = some (.main m) := by
    rw [hparams]
    cases kind <;> rfl
  by_cases hrej : RejectedForSubBuffer flags
  · obtain ⟨msg, hflags⟩ := setSubBufferFlags_rejected flags hctx hassert hrej
    rw [hflags, pure_bind, create_failed (fun h => by cases h), correct_flags]
    constructor
    · exact fun h => .inr (.inl ⟨hrej, h⟩)
    · rintro (h | h | h) ⟨hacc, hin⟩
      · exact h hin.accepted
      · exact h.2 ⟨hacc, hin⟩
      · exact h.1 hrej
  · rw [setSubBufferFlags_accepted flags hparent hassert hrej, pure_bind]
    -- only the flags of the builder have changed
    generalize hb : { b with flags := subBufferFlags (Buffer.main m).getFlags flags } = b'
    have herr' : b'.err = b.err := by rw [← hb]
    have hk' : b'.kind = kind := by rw [← hb]; exact hk
    have hctx' : b'.ctx.isSome = true := by rw [← hb]; exact hctx
    have hparams' : b'.params = b.params := by rw [← hb]
    rw [← herr'] at herr
    by_cases hregion : RegionAccepted (.main m) br
    · rw [create_success (herr.2 hregion) hctx' (by simp [hparams', hparent]),
        correct_wrong (object_wrong hkind hk' (hparams'.trans hparams) hregion.1)]
      simp [FailsRightly, hregion, hrej]
    · have hfailed : b'.err ≠ .success := fun h => hregion (herr.1 h)
      rw [create_failed hfailed]
      exact iff_of_true (correct_region hfailed hregion) (.inl hregion)

/-- A sub-buffer's setters, on a builder that is not an image's: nothing right is ever made. -/
theorem createSubBuffer_iff {kind : Kind} (hkind : kind ≠ .image) :
    Correct parent flags br (createSubBuffer ndebug address init kind context (some (.buffer parent)) flags
      bufferCreateTypeRegion (some br)) ↔
      (ndebug = true ∨ kind = .subBuffer) ∧ parent.isSubBuffer = false ∧ FailsRightly parent flags br init := by
  cases parent with
  | sub id parent origin size fl =>
    apply iff_of_false
    · intro h
      have hdefined := h.defined
      rw [nested_undefined ndebug address init context (.sub id parent origin size fl) flags br kind rfl] at hdefined
      cases hdefined
    · rintro ⟨-, h, -⟩
      cases h
  | main m =>
    obtain ⟨hok, hsame, herr⟩ := setSubBufferParams_main (new kind) context m br
    simp only [createSubBuffer]
    generalize (new kind).setSubBufferParams context (some (.buffer (.main m))) bufferCreateTypeRegion (some br) = c
      at hok hsame herr
    obtain ⟨b, ok⟩ := c
    obtain rfl : ok = true := hok
    have hpure : (⟨b, true⟩ : Checked MemoryObjectBuilder) = pure b := rfl
    rw [hpure, pure_bind]
    have hk : b.kind = kind := hsame.kind
    have hctx : b.ctx.isSome = true := by
      rw [hsame.ctx]
      rfl
    by_cases hassert : ndebug = true ∨ kind = .subBuffer
    · rw [flags_create_iff ndebug address init flags br hkind hk hsame.params hctx (herr rfl) (hk ▸ hassert)]
      exact ⟨fun h => ⟨hassert, rfl, h⟩, fun h => h.2.2⟩
    · apply iff_of_false
      · intro h
        have hdebug : ndebug = false := by
          cases ndebug with
          | false => rfl
          | true => exact absurd (.inl rfl) hassert
        have hdefined := h.defined
        have hother : b.kind ≠ .subBuffer := fun hs => hassert (.inr (hk.symm.trans hs))
        rw [Checked.ok_bind, hdebug, assertion_fails flags hother] at hdefined
        cases hdefined
      · exact fun h => hassert h.1

end Calls

end MemoryObjectBuilder

open MemoryObjectBuilder in
/-- `clCreateSubBuffer` does what it should exactly where it fails, in a build without assertions, and ought to fail
or lacks memory: it never makes a sub-buffer. -/
theorem clCreateSubBuffer_iff (ndebug : Bool) (address : Buffer → Nat) (init : Bool) (context : MemoryObject → Nat)
    (parent : Buffer) (flags : CLMemFlags) (br : BufferRegion) :
    Correct parent flags br (clCreateSubBuffer ndebug address init context (some (.buffer parent)) flags
      bufferCreateTypeRegion (some br)) ↔
      ndebug = true ∧ parent.isSubBuffer = false ∧ FailsRightly parent flags br init := by
  have hkind : Kind.buffer ≠ Kind.image := fun h => by cases h
  have hsub : ¬ Kind.buffer = Kind.subBuffer := fun h => by cases h
  rw [clCreateSubBuffer, createSubBuffer_iff ndebug address init context parent flags br hkind, or_iff_left hsub]

open MemoryObjectBuilder in
/-- The second half of 16 bytes, read-only. With assertions the call stops; without them it makes a main
buffer, as large as the parent's address says. A sub-buffer's builder would make one of no bytes. -/
theorem half_is_unknown :
    (clCreateSubBuffer false (fun _ => 4096) true (fun _ => 0) (some (.buffer (.main sixteen)))
      (CLMemFlags.ofFlags MemFlags.ReadOnly) bufferCreateTypeRegion (some ⟨8, 8⟩)).ok = false ∧
    clCreateSubBuffer true (fun _ => 4096) true (fun _ => 0) (some (.buffer (.main sixteen)))
      (CLMemFlags.ofFlags MemFlags.ReadOnly) bufferCreateTypeRegion (some ⟨8, 8⟩) =
        pure (some (.buffer 4096 none 0), .success) ∧
    createSubBuffer false (fun _ => 4096) true .subBuffer (fun _ => 0) (some (.buffer (.main sixteen)))
      (CLMemFlags.ofFlags MemFlags.ReadOnly) bufferCreateTypeRegion (some ⟨8, 8⟩) =
        pure (some (.subBuffer (some (.main sixteen)) 0 0 0), .success) ∧
    ¬ Correct (.main sixteen) (CLMemFlags.ofFlags MemFlags.ReadOnly) ⟨8, 8⟩
      (clCreateSubBuffer true (fun _ => 4096) true (fun _ => 0) (some (.buffer (.main sixteen)))
        (CLMemFlags.ofFlags MemFlags.ReadOnly) bufferCreateTypeRegion (some ⟨8, 8⟩)) := by
  have hmade : clCreateSubBuffer true (fun _ => 4096) true (fun _ => 0) (some (.buffer (.main sixteen)))
      (CLMemFlags.ofFlags MemFlags.ReadOnly) bufferCreateTypeRegion (some ⟨8, 8⟩) =
        pure (some (.buffer 4096 none 0), .success) := by decide
  refine ⟨by decide, hmade, by decide, fun h => ?_⟩
  obtain ⟨obj, hobj, hof⟩ := (hmade ▸ h.result).resolve_left (not_not.2 rfl)
  obtain rfl : Created.buffer 4096 none 0 = obj := Option.some.inj hobj
  cases hof.place

end OpenCRun
