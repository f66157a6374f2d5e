import OpenCRun.Core.Frame
import OpenCRun.Core.SubBufferCreation
/-!
# The access mode of an object

An object that kernels use is synchronised as its access flags say. The
builders decide the flags when an object is created, the tracker asserts the
mode when a command is submitted.
-/
open Lib Lib.Tiling

namespace OpenCRun

open CLMemFlags MemoryObjectBuilder OpenCRun.Partition Coherency

/-! ## Flags of a new object -/

/-- One of `ReadWrite` and `ReadOnly`, and no other access flag. -/
def Readable (f : CLMemFlags) : Prop := f.accessCount = 1 ∧ f.has MemFlags.WriteOnly = false

/-- A call that creates an object. A builder for sub-buffers may have been made for any kind. -/
inductive Creation where
  | buffer (ctx : Option Nat) (flags : CLMemFlags) (size : Nat) (hostPtr : Option Nat)
  | subBuffer (kind : Kind) (context : MemoryObject → Nat) (mem : Option MemoryObject) (flags : CLMemFlags) (bct : Nat)
    (bci : Option BufferRegion)
  | image (ctx : Option Nat) (flags : CLMemFlags) (img : ImageParams) (err : Option (MemoryErrCode × String))
    (hostPtr : Option Nat)

namespace Creation

def run (ndebug : Bool) (address : Buffer → Nat) (init : Bool) : Creation → Checked (Option Created × MemoryErrCode)
  | buffer ctx flags size hostPtr => clCreateBuffer ndebug address init ctx flags size hostPtr
  | subBuffer kind context mem flags bct bci => createSubBuffer ndebug address init kind context mem flags bct bci
  | image ctx flags img err hostPtr => clCreateImage ndebug address init ctx flags img err hostPtr

/-- The buffer that an image takes flags from. -/
def bufferFlags (img : ImageParams) : MemFlags :=
  if img.type = some .image1DBuffer then (img.buf.map Buffer.getFlags).getD 0 else 0

/-- The access is given, or there is a place that it is taken from; it is not to write only. -/
def DecidesAccess : Creation → Prop
  | buffer _ flags _ _ => flags = 0 ∨ Readable flags
  | subBuffer _ _ mem flags _ _ =>
    flags = 0 ∧ ∃ parent, mem = some (.buffer parent) ∧ Readable (ofFlags parent.getFlags)
  | image _ flags img _ _ => flags = 0 ∨ Readable flags ∨ flags.accessCount = 0 ∧ Readable (ofFlags (bufferFlags img))

end Creation

/-! ## Access flags -/

/-- Both words have the same of the three access flags. -/
def SameAccess (f g : CLMemFlags) : Prop :=
  ∀ m, m ∈ [MemFlags.ReadOnly, MemFlags.WriteOnly, MemFlags.ReadWrite] → f.has m = g.has m

namespace SameAccess
variable {f g k : CLMemFlags}

theorem trans (h : SameAccess f g) (h' : SameAccess g k) : SameAccess f k := fun m hm => (h m hm).trans (h' m hm)

theorem accessCount_eq (h : SameAccess f g) : f.accessCount = g.accessCount := by
  unfold accessCount count
  rw [h _ (by simp), h _ (by simp), h _ (by simp)]

theorem readable_iff (h : SameAccess f g) : Readable f ↔ Readable g := by
  rw [Readable, Readable, h.accessCount_eq, h _ (by simp)]

end SameAccess

/-- Flags of other kinds do not count. -/
theorem sameAccess_or (f : CLMemFlags) (flags : MemFlags) {mask : MemFlags}
    (h : mask &&& MemFlags.ReadOnly = 0 ∧ mask &&& MemFlags.WriteOnly = 0 ∧ mask &&& MemFlags.ReadWrite = 0) :
    SameAccess (f ||| ofFlags (flags &&& mask)) f := by
  intro m hm
  have hzero : mask &&& m = 0 := by
    simp only [List.mem_cons, List.not_mem_nil, or_false] at hm
    rcases hm with rfl | rfl | rfl
    · exact h.1
    · exact h.2.1
    · exact h.2.2
  rw [has_or, has_ofFlags_and flags hzero, Bool.or_false]

theorem has_access (f : CLMemFlags) : f.has MemFlags.AccessProtectionMask = decide (f.accessCount ≠ 0) := by
  rw [MemFlags.AccessProtectionMask, has_mask_or, has_mask_or]
  unfold accessCount count
  cases f.has MemFlags.ReadOnly <;> cases f.has MemFlags.WriteOnly <;> cases f.has MemFlags.ReadWrite <;> rfl

/-- A word without an access flag has none of the three. -/
theorem sameAccess_zero {f : CLMemFlags} (hf : f.accessCount = 0) : SameAccess f 0 := by
  have hnone : f.has MemFlags.AccessProtectionMask = false := by rw [has_access, hf]; rfl
  rw [MemFlags.AccessProtectionMask, has_mask_or, has_mask_or, Bool.or_eq_false_iff, Bool.or_eq_false_iff] at hnone
  intro m hm
  simp only [List.mem_cons, List.not_mem_nil, or_false] at hm
  rcases hm with rfl | rfl | rfl
  · exact hnone.2
  · exact hnone.1.2
  · exact hnone.1.1

/-- The access flags of an object alone. -/
theorem sameAccess_and (f : CLMemFlags) (hf : f.accessCount = 0) (flags : MemFlags) :
    SameAccess (f ||| ofFlags (flags &&& MemFlags.AccessProtectionMask)) (ofFlags flags) := by
  intro m hm
  have hzero : f.has m = false := (sameAccess_zero hf m hm).trans (by simp [CLMemFlags.has])
  rw [has_or, has_ofFlags, hzero, Bool.false_or]
  simp only [List.mem_cons, List.not_mem_nil, or_false] at hm
  rcases hm with rfl | rfl | rfl <;> rfl

theorem sameAccess_setWidth (f : CLMemFlags) : SameAccess (ofFlags (f.setWidth 16)) f := fun m _ => has_setWidth f m

/-! ## What the setters leave -/

/-- The default is for a word without any flag. -/
theorem checkFlags_ok {flags f : CLMemFlags} {hostPtr : Option Nat} (h : checkFlags flags hostPtr = .ok f) :
    flags = 0 ∧ f = ofFlags MemFlags.ReadWrite ∨ flags ≠ 0 ∧ f = flags := by
  unfold checkFlags at h
  split at h
  · cases h
  split at h
  · next hzero => exact .inl ⟨hzero, (Except.ok.inj h).symm⟩
  · next hzero =>
    split at h
    · cases h
    split at h
    · cases h
    simp only at h
    split at h
    · cases h
    split at h
    · cases h
    · exact .inr ⟨hzero, (Except.ok.inj h).symm⟩

/-- An image takes the access of its buffer if it has none itself. -/
theorem inheritFlags_ok {buf : MemFlags} {flags f : CLMemFlags} (h : inheritFlags buf flags = .ok f) :
    SameAccess f (if flags.accessCount = 0 then ofFlags buf else flags) := by
  unfold inheritFlags at h
  split at h
  · cases h
  split at h
  · cases h
  split at h
  · cases h
  have hptr : SameAccess (flags ||| ofFlags (buf &&& MemFlags.HostPtrModeMask)) flags :=
    sameAccess_or flags buf ⟨rfl, rfl, rfl⟩
  simp only at h
  generalize flags ||| ofFlags (buf &&& MemFlags.HostPtrModeMask) = g at h hptr
  have haccess : SameAccess (if g.has MemFlags.AccessProtectionMask then g
      else g ||| ofFlags (buf &&& MemFlags.AccessProtectionMask))
      (if flags.accessCount = 0 then ofFlags buf else flags) := by
    rw [has_access, hptr.accessCount_eq]
    by_cases hnone : flags.accessCount = 0
    · rw [if_pos hnone, if_neg (by simp [hnone])]
      exact sameAccess_and g (hptr.accessCount_eq.trans hnone) buf
    · rw [if_neg hnone, if_pos (by simp [hnone])]
      exact hptr
  generalize (if g.has MemFlags.AccessProtectionMask then g
      else g ||| ofFlags (buf &&& MemFlags.AccessProtectionMask)) = g' at h haccess
  rw [← Except.ok.inj h]
  split
  · exact haccess
  · exact (sameAccess_or g' buf ⟨rfl, rfl, rfl⟩).trans haccess

section Setters
variable {b : MemoryObjectBuilder} {ndebug : Bool}

/-- Where an image of the builder takes flags from. -/
def inherited (b : MemoryObjectBuilder) : MemFlags :=
  match b.imageBuffer with
  | none => 0
  | some buf => (buf.map Buffer.getFlags).getD 0

/-- An accepted word, after the inheritance. -/
theorem setGenericFlags_success {flags : CLMemFlags} {hostPtr : Option Nat}
    (h : (b.setGenericFlags ndebug flags hostPtr).val.err = .success) :
    ∃ f, checkFlags flags hostPtr = .ok f ∧
      ((b.setGenericFlags ndebug flags hostPtr).val = { b with flags := f.setWidth 16, hostPtr } ∧ inherited b = 0 ∨
        ∃ f', inheritFlags (inherited b) f = .ok f' ∧
          (b.setGenericFlags ndebug flags hostPtr).val = { b with flags := f'.setWidth 16, hostPtr }) := by
  unfold setGenericFlags at h ⊢
  rw [Checked.val_bind] at h ⊢
  cases hcheck : checkFlags flags hostPtr with
  | error e =>
    rw [hcheck] at h
    exact absurd h (checkFlags_error hcheck)
  | ok f =>
    refine ⟨f, rfl, ?_⟩
    rw [hcheck] at h
    cases hbuf : b.imageBuffer with
    | none => exact .inl ⟨rfl, by rw [inherited, hbuf]⟩
    | some buf =>
      have hinherited : inherited b = (buf.map Buffer.getFlags).getD 0 := by rw [inherited, hbuf]
      simp only [hbuf, Checked.val_bind] at h
      rw [← hinherited] at h
      cases hinherit : inheritFlags (inherited b) f with
      | error e =>
        rw [hinherit] at h
        exact absurd h (inheritFlags_error hinherit)
      | ok f' =>
        refine .inr ⟨f', rfl, ?_⟩
        simp only [Checked.val_bind]
        rw [← hinherited, hinherit]
        rfl

/-- The word that the access is taken from: the default, the buffer's flags or the word itself. -/
def accessWord (flags : CLMemFlags) (buf : MemFlags) : CLMemFlags :=
  if flags = 0 then ofFlags MemFlags.ReadWrite else if flags.accessCount = 0 then ofFlags buf else flags

theorem readable_accessWord (flags : CLMemFlags) (buf : MemFlags) :
    Readable (accessWord flags buf) ↔ flags = 0 ∨ Readable flags ∨ flags.accessCount = 0 ∧ Readable (ofFlags buf) := by
  have hdefault : Readable (ofFlags MemFlags.ReadWrite) := ⟨rfl, rfl⟩
  unfold accessWord
  split
  · next hzero => exact iff_of_true hdefault (.inl hzero)
  next hzero =>
  rw [or_iff_right hzero]
  split
  · next hnone =>
    have hword : ¬ Readable flags := fun h => Nat.zero_ne_one (hnone ▸ h.1)
    rw [or_iff_right hword, and_iff_right hnone]
  · next hsome => rw [or_iff_left fun h => hsome h.1]

theorem setGenericFlags_access {flags : CLMemFlags} {hostPtr : Option Nat}
    (h : (b.setGenericFlags ndebug flags hostPtr).val.err = .success) :
    SameAccess (ofFlags (b.setGenericFlags ndebug flags hostPtr).val.flags) (accessWord flags (inherited b)) := by
  obtain ⟨f, hcheck, hresult⟩ := setGenericFlags_success h
  -- the flags after the inheritance, and before it
  have hsame : SameAccess (ofFlags (b.setGenericFlags ndebug flags hostPtr).val.flags)
      (if f.accessCount = 0 then ofFlags (inherited b) else f) := by
    rcases hresult with ⟨hval, hnone⟩ | ⟨f', hinherit, hval⟩
    · rw [hval, hnone]
      split
      · next hzero => exact (sameAccess_setWidth f).trans (sameAccess_zero hzero)
      · exact sameAccess_setWidth f
    · rw [hval]
      exact (sameAccess_setWidth f').trans (inheritFlags_ok hinherit)
  unfold accessWord
  rcases checkFlags_ok hcheck with ⟨hzero, rfl⟩ | ⟨hzero, rfl⟩
  · rw [if_pos hzero]
    exact hsame
  · rw [if_neg hzero]
    exact hsame

theorem setSubBufferParams_success {context : MemoryObject → Nat} {mem : Option MemoryObject} {bct : Nat}
    {bci : Option BufferRegion} (h : (b.setSubBufferParams context mem bct bci).val.err = .success) :
    ∃ m, mem = some (.buffer (.main m)) ∧ (b.setSubBufferParams context mem bct bci).val = b.withParent context m := by
  have herror : ∀ (b' : MemoryObjectBuilder) {err : MemoryErrCode} {msg : String}, err ≠ .success →
      (b'.error err msg).val.err ≠ .success := fun _ _ _ hne => hne
  unfold setSubBufferParams at h ⊢
  -- Every branch but the last one sets an error.
  split at h
  · next buf =>
    cases buf with
    | sub => exact absurd h (herror _ (fun h => by cases h))
    | main m =>
      have hsub : (Buffer.main m).isSubBuffer = false := rfl
      simp only [hsub, Bool.false_eq_true, if_false] at h ⊢
      refine ⟨m, rfl, ?_⟩
      split at h
      · exact absurd h (herror _ (fun h => by cases h))
      next hbct =>
      rw [if_neg hbct]
      cases bci with
      | none => exact absurd h (herror _ (fun h => by cases h))
      | some br =>
        simp only at h ⊢
        split at h
        · exact absurd h (herror _ (fun h => by cases h))
        next hsize =>
        split at h
        · exact absurd h (herror _ (fun h => by cases h))
        next hbounds =>
        rw [if_neg hsize, if_neg hbounds]
        rfl
  · exact absurd h (herror _ (fun h => by cases h))

/-- The flags do not take an error back. -/
theorem setSubBufferFlags_err (flags : CLMemFlags) (h : (b.setSubBufferFlags ndebug flags).val.err = .success) :
    b.err = .success := by
  simp only [setSubBufferFlags, Checked.val_bind, Checked.val_ite, Checked.val_pure, error_val] at h
  split_ifs at h <;> exact h

theorem setSubBufferFlags_access {flags : CLMemFlags} {parent : Buffer} (hctx : b.ctx.isSome = true)
    (hparent : b.params.parent = some parent) (h : (b.setSubBufferFlags ndebug flags).val.err = .success) :
    SameAccess (ofFlags (b.setSubBufferFlags ndebug flags).val.flags)
      (if flags = 0 then ofFlags parent.getFlags else 0) := by
  have hval : (b.setSubBufferFlags ndebug flags).val = (b.setSubBufferFlags true flags).val := rfl
  rw [hval] at h ⊢
  by_cases hrej : RejectedForSubBuffer flags
  · obtain ⟨msg, hflags⟩ := setSubBufferFlags_rejected flags hctx (.inl rfl) hrej
    rw [hflags] at h
    cases h
  rw [setSubBufferFlags_accepted flags hparent (.inl rfl) hrej, Checked.val_pure]
  simp only [subBufferFlags]
  split
  · exact fun m _ => rfl
  · apply sameAccess_zero
    rw [accessCount, count, has_ofFlags_and _ rfl, has_ofFlags_and _ rfl, has_ofFlags_and _ rfl]
    rfl

theorem object_getFlags (address : Buffer → Nat) : (b.object address).getFlags = b.flags := by
  unfold object
  split <;> rfl

/-- What is created has the builder's flags, and there was no error. -/
theorem create_some {address : Buffer → Nat} {init : Bool} {obj : Created}
    (h : (b.create address init).val.1 = some obj) : b.err = .success ∧ obj.getFlags = b.flags := by
  unfold create at h
  split at h
  · cases h
  next herr =>
  refine ⟨not_not.1 herr, ?_⟩
  rw [Checked.val_bind] at h
  cases init with
  | true => rw [← object_getFlags address, ← Option.some.inj h]
  | false => rw [← object_getFlags address, ← Option.some.inj h]

/-! ## The calls -/

/-- Only an image takes flags from a buffer. -/
theorem inherited_buffer (h : b.kind = .buffer) : inherited b = 0 := by
  rw [inherited, imageBuffer, h]

theorem setContext_same (ctx : Option Nat) :
    (b.setContext ctx).val.kind = b.kind ∧ (b.setContext ctx).val.params = b.params := by
  cases ctx <;> exact ⟨rfl, rfl⟩

theorem setBufferSize_kind (size : Nat) : (b.setBufferSize size).val.kind = b.kind := by
  unfold setBufferSize
  split <;> rfl

theorem inherited_setImage (img : ImageParams) (err : Option (MemoryErrCode × String)) (h : b.kind = .image) :
    inherited (b.setImage img err).val = Creation.bufferFlags img := by
  have hset : (b.setImage img err).val.kind = .image ∧ (b.setImage img err).val.params = .img img := by
    cases err <;> exact ⟨h, rfl⟩
  rw [inherited, imageBuffer, hset.1, hset.2, Creation.bufferFlags]
  simp only
  split <;> simp_all

end Setters

/-- A new object has one access flag, by which kernels read it, if and only if the call decides it. -/
theorem Creation.access_iff {ndebug : Bool} {address : Buffer → Nat} {init : Bool} (call : Creation) {obj : Created}
    (h : (call.run ndebug address init).val.1 = some obj) : Readable (ofFlags obj.getFlags) ↔ call.DecidesAccess := by
  cases call with
  | buffer ctx flags size hostPtr =>
    obtain ⟨herr, hflags⟩ := create_some h
    have hkind : (((new .buffer).setContext ctx).val.setBufferSize size).val.kind = .buffer :=
      (setBufferSize_kind size).trans (setContext_same ctx).1
    have hnone : ¬ (flags.accessCount = 0 ∧ Readable (ofFlags 0)) := fun h => Nat.zero_ne_one h.2.1
    rw [hflags, (setGenericFlags_access herr).readable_iff, inherited_buffer hkind, readable_accessWord, or_iff_left hnone]
    rfl
  | subBuffer kind context mem flags bct bci =>
    obtain ⟨herr, hflags⟩ := create_some h
    obtain ⟨m, rfl, hval⟩ := setSubBufferParams_success (setSubBufferFlags_err flags herr)
    have hparent : ((new kind).withParent context m).params.parent = some (.main m) := by cases kind <;> rfl
    rw [hval] at herr
    rw [hflags, hval, (setSubBufferFlags_access rfl hparent herr).readable_iff]
    constructor
    · intro hr
      split at hr
      · next hzero => exact ⟨hzero, .main m, rfl, hr⟩
      · exact absurd hr.1 Nat.zero_ne_one
    · rintro ⟨hzero, parent, hmem, hr⟩
      cases hmem
      rw [if_pos hzero]
      exact hr
  | image ctx flags img err hostPtr =>
    obtain ⟨herr, hflags⟩ := create_some h
    rw [hflags, (setGenericFlags_access herr).readable_iff, inherited_setImage img err (setContext_same ctx).1,
      readable_accessWord]
    rfl

/-! ## Kernels -/

section Kernels

/-- `NDRangeKernel` and `NativeKernel`. -/
def Command.isKernel {ctx : Context} : Command ctx → Bool
  | ndRangeKernel _ => true
  | nativeKernel _ => true
  | _ => false

variable {ctx : Context} {cmd : Command ctx} {op : Operand ctx}

theorem kernel_operand (hk : cmd.isKernel = true) (hop : op ∈ cmd.operands) : op = .argument op.obj := by
  cases cmd with
  | ndRangeKernel args =>
    obtain ⟨o, -, rfl⟩ := List.mem_map.1 hop
    rfl
  | nativeKernel locs =>
    obtain ⟨o, -, rfl⟩ := List.mem_map.1 hop
    rfl
  | _ => cases hk

theorem has_eq (flags m : MemFlags) : (ofFlags flags).has m = flags.has m := by
  have hand : ofFlags flags &&& ofFlags m = ofFlags (flags &&& m) := by simp only [ofFlags, BitVec.setWidth_and]
  rw [CLMemFlags.has, hand, MemFlags.has, Bool.eq_iff_iff, bne_iff_ne, bne_iff_ne, ne_eq, ne_eq, not_iff_not]
  constructor
  · intro h
    apply BitVec.eq_of_toNat_eq
    have hnat := congrArg BitVec.toNat h
    rwa [ofFlags, BitVec.toNat_setWidth_of_le (by omega)] at hnat
  · intro h
    rw [h]
    rfl

theorem not_writeOnly {o : MemObj ctx} (h : Readable (ofFlags o.getFlags)) : o.getFlags.has MemFlags.WriteOnly = false := by
  rw [← has_eq]
  exact h.2

/-- An object that a kernel can read is synchronised for reading. -/
theorem argument_read {o : MemObj ctx} (h : Readable (ofFlags o.getFlags)) :
    (Operand.argument o).mode.read = true ∧ (Operand.argument o).mode.map = false := by
  simp only [Operand.argument]
  by_cases hrw : o.getFlags.has MemFlags.ReadWrite = true
  · rw [if_pos hrw]
    exact ⟨rfl, rfl⟩
  rw [if_neg hrw]
  by_cases hro : o.getFlags.has MemFlags.ReadOnly = true
  · rw [if_pos hro]
    exact ⟨rfl, rfl⟩
  · have hone := h.1
    rw [Bool.not_eq_true] at hrw hro
    simp [accessCount, count, has_eq, hrw, hro, not_writeOnly h] at hone

/-- With no other access flag, a write-only object is synchronised for writing alone. -/
theorem argument_writeOnly {o : MemObj ctx} (hone : (ofFlags o.getFlags).accessCount = 1)
    (hwo : o.getFlags.has MemFlags.WriteOnly = true) : (Operand.argument o).mode = .syncWrite := by
  have hothers : o.getFlags.has MemFlags.ReadOnly = false ∧ o.getFlags.has MemFlags.ReadWrite = false := by
    simp only [accessCount, count, has_eq, hwo] at hone
    revert hone
    cases o.getFlags.has MemFlags.ReadOnly <;> cases o.getFlags.has MemFlags.ReadWrite <;> simp
  simp [Operand.argument, hothers, hwo]

/-- The byte is in a chunk that step 2 of an update goes through. -/
def TransferredByte (p : Partition) (offset size : Nat) (mode : SynchronizeMode) (a : Nat) : Prop :=
  ∃ c ∈ (computeChunksToTransfer p offset size mode).val, Contains offsetOf stopOf c a

/-- An update for reading makes a device valid for what it transfers. -/
theorem update_marks (obj : MainObject) {t : Tracker} (h : WellFormed obj.size t.partition) (r : Region obj.size)
    {mode : SynchronizeMode} (hm : mode.read = true) {d i a : Nat} (ha : a < obj.size)
    (hnew : i ∈ validityAt (updateRegion obj t r.offset r.size mode d).val.partition a)
    (hold : i ∉ validityAt t.partition a) : TransferredByte t.partition r.offset r.size mode a := by
  obtain ⟨c, hc, hca⟩ := h.tiles.cover (Nat.zero_le a) ha
  rw [updateRegion_validityAt h r hc hca] at hnew
  rw [h.validityAt_eq hc hca] at hold
  have htouch : touches r.offset r.size c = true := by
    by_contra hno
    rw [newBits, if_neg hno] at hnew
    exact hold hnew
  exact (computeChunksToTransfer_bytes h r mode a).2 ⟨⟨c, hc, htouch, hca⟩, .inl hm⟩

/-- Where some memory has the byte, the device gets it from one that has. -/
theorem transferred_copied (obj : MainObject) {t : Tracker} (h : WellFormed obj.size t.partition)
    (hb : BitsBounded obj t.partition) (r : Region obj.size) {mode : SynchronizeMode} (hmap : mode.map = false) {d a : Nat}
    (hd : d < obj.devices.length) (ha : TransferredByte t.partition r.offset r.size mode a)
    (hsome : (obj.copies (validityAt t.partition a)).Nonempty) :
    ∃ l ∈ obj.copies (validityAt t.partition a),
      (updateRegion obj t r.offset r.size mode d).val.storage.mem (obj.devicePtr d) a = t.storage.mem l a := by
  have hselected : obj.selected mode d = obj.devicePtr d := by simp [MainObject.selected, deviceUpdate, hmap]
  have hsync := (updateRegion_synced (r := r) mode h hb hd (fun _ => none)).refreshes.copied a
    ((computeChunksToTransfer_bytes h r mode a).1 ha) hsome
  rw [hselected] at hsync
  exact hsync

end Kernels

/-- One access flag; kernels that use such an object synchronise it with a mode that the assertion lets
pass, and make the device valid for what was transferred alone. -/
structure Decided (flags : MemFlags) : Prop where
  one : (ofFlags flags).accessCount = 1
  asserted : ∀ {ctx : Context} (cmd : Command ctx), cmd.isKernel = true → ∀ op ∈ cmd.operands,
    op.obj.getFlags = flags → (op.mode.map || op.mode.read || op.mode.write) = true
  marked : ∀ {ctx : Context} (cmd : Command ctx), cmd.isKernel = true → ∀ op ∈ cmd.operands,
    op.obj.getFlags = flags → ∀ (w : Worlds) (d : Nat),
      WellFormed (ctx.size op.obj.root) (w op.obj.root).tracker.partition → ∀ a < ctx.size op.obj.root,
        d ∈ validityAt (synchronizeFor d w op op.obj.root).tracker.partition a →
        d ∉ validityAt (w op.obj.root).tracker.partition a →
        TransferredByte (w op.obj.root).tracker.partition op.obj.syncRegion.offset op.obj.syncRegion.size op.mode a
  copied : ∀ {ctx : Context} (cmd : Command ctx), cmd.isKernel = true → ∀ op ∈ cmd.operands,
    op.obj.getFlags = flags → ∀ (w : Worlds) (d : Nat), d < ctx.devices.length →
      WellFormed (ctx.size op.obj.root) (w op.obj.root).tracker.partition →
      BitsBounded (ctx.obj op.obj.root) (w op.obj.root).tracker.partition → ∀ a < ctx.size op.obj.root,
        d ∈ validityAt (synchronizeFor d w op op.obj.root).tracker.partition a →
        d ∉ validityAt (w op.obj.root).tracker.partition a →
        ((ctx.obj op.obj.root).copies (validityAt (w op.obj.root).tracker.partition a)).Nonempty →
        ∃ l ∈ (ctx.obj op.obj.root).copies (validityAt (w op.obj.root).tracker.partition a),
          (synchronizeFor d w op op.obj.root).tracker.storage.mem ((ctx.obj op.obj.root).devicePtr d) a =
            (w op.obj.root).tracker.storage.mem l a

theorem decided_of_readable {flags : MemFlags} (h : Readable (ofFlags flags)) : Decided flags := by
  have hread : ∀ {ctx : Context} (cmd : Command ctx), cmd.isKernel = true → ∀ op ∈ cmd.operands,
      op.obj.getFlags = flags → op.mode.read = true ∧ op.mode.map = false := by
    intro ctx cmd hk op hop hflags
    rw [kernel_operand hk hop]
    apply argument_read
    rw [hflags]
    exact h
  refine ⟨h.1, ?_, ?_, ?_⟩
  · intro ctx cmd hk op hop hflags
    simp [hread cmd hk op hop hflags]
  · intro ctx cmd hk op hop hflags w d hwf a ha hnew hold
    rw [synchronizeFor, Function.update_self] at hnew
    exact update_marks (ctx.obj op.obj.root) hwf op.obj.syncRegion (hread cmd hk op hop hflags).1 ha hnew hold
  · intro ctx cmd hk op hop hflags w d hd hwf hb a ha hnew hold hsome
    rw [synchronizeFor, Function.update_self] at hnew ⊢
    obtain ⟨hr, hmap⟩ := hread cmd hk op hop hflags
    have hmark := update_marks (ctx.obj op.obj.root) hwf op.obj.syncRegion hr ha hnew hold
    exact transferred_copied (ctx.obj op.obj.root) hwf hb op.obj.syncRegion hmap hd hmark hsome

/-! ## Objects to write only -/

/-- One device, and objects of one byte. -/
def oneByte (flags : MemFlags) : Context := ⟨[.separate], fun _ => 1, fun _ => flags, by simp, by simp⟩

/-- A new object: no memory has its byte yet. -/
def uninitialised : World := ⟨⟨[⟨0, 1, ∅⟩], ⟨∅, fun _ _ => 0⟩⟩, fun _ => none⟩

theorem uninitialised_wellFormed : WellFormed 1 uninitialised.tracker.partition :=
  ⟨⟨rfl, by decide, rfl⟩, by simp [Sorted, uninitialised]⟩

/-- An update for writing alone makes the device valid and transfers nothing. -/
theorem writeOnly_marks {flags : MemFlags} (r : Region ((oneByte flags).obj 0).size) :
    0 ∈ validityAt
        (updateRegion ((oneByte flags).obj 0) uninitialised.tracker r.offset r.size .syncWrite 0).val.partition 0 ∧
      ¬ TransferredByte uninitialised.tracker.partition r.offset r.size .syncWrite 0 := by
  have hwhole : r.offset = 0 ∧ r.size = 1 := by
    have hle : r.offset + r.size ≤ 1 := r.le
    have hpos := r.size_pos
    omega
  have hwf : WellFormed ((oneByte flags).obj 0).size uninitialised.tracker.partition := uninitialised_wellFormed
  have hmem : (⟨0, 1, ∅⟩ : MemoryChunk) ∈ uninitialised.tracker.partition := List.mem_singleton.2 rfl
  have htouch : touches r.offset r.size ⟨0, 1, ∅⟩ = true := by
    rw [hwhole.1, hwhole.2]
    rfl
  constructor
  · have hzero : Contains offsetOf stopOf ⟨0, 1, ∅⟩ 0 := ⟨le_rfl, Nat.zero_lt_one⟩
    rw [updateRegion_validityAt hwf r hmem hzero]
    simp only [newBits, htouch, if_true]
    exact Frame.mem_updateValidity.2 (.inl (.inl rfl))
  · rw [TransferredByte, computeChunksToTransfer_bytes hwf r]
    rintro ⟨-, hread | hbefore | hafter⟩
    · cases hread
    · omega
    · rw [Region.stop] at hafter
      omega

/-- So a kernel that gets a write-only object makes its device valid for bytes that were not transferred. -/
theorem not_decided_writeOnly {flags : MemFlags} (hwo : flags.has MemFlags.WriteOnly = true) : ¬ Decided flags := by
  intro h
  let o : MemObj (oneByte flags) := .main 0
  have hmode : (Operand.argument o).mode = .syncWrite := argument_writeOnly h.one hwo
  have hmark := h.marked (.nativeKernel [o]) rfl (.argument o) (List.mem_singleton.2 rfl) rfl (fun _ => uninitialised) 0
    uninitialised_wellFormed 0 Nat.zero_lt_one
  rw [synchronizeFor, Function.update_self, hmode] at hmark
  obtain ⟨hvalid, hnone⟩ := @writeOnly_marks flags o.syncRegion
  exact hnone (hmark hvalid (Finset.notMem_empty 0))

theorem decided_iff {flags : MemFlags} : Decided flags ↔ Readable (ofFlags flags) := by
  constructor
  · intro h
    refine ⟨h.one, Bool.not_eq_true _ ▸ fun hwo => not_decided_writeOnly ?_ h⟩
    rwa [has_eq] at hwo
  · exact decided_of_readable

/-- The access mode of a new object is decided if and only if the call decides it. -/
theorem created_decided_iff {ndebug : Bool} {address : Buffer → Nat} {init : Bool} (call : Creation) {obj : Created}
    (h : (call.run ndebug address init).val.1 = some obj) : Decided obj.getFlags ↔ call.DecidesAccess := by
  rw [← call.access_iff h]
  exact decided_iff

/-- A buffer of 16 bytes without any flag can be read and written. -/
theorem created_decided_default :
    ∃ obj, ((Creation.buffer (some 0) 0 16 none).run false (fun _ => 0) true).val.1 = some obj ∧ Decided obj.getFlags :=
  ⟨_, rfl, (@created_decided_iff false (fun _ => 0) true (.buffer (some 0) 0 16 none) _ rfl).2 (.inl rfl)⟩

/-- A buffer over host memory, with no other flag, has no access mode. A kernel synchronises it with the
mode 0, which the tracker's assertion refuses. -/
theorem use_host_ptr_undecided : ∃ obj : Created,
    (Creation.buffer (some 0) (ofFlags MemFlags.UseHostPtr) 16 (some 4096)).run false (fun _ => 0) true =
      pure (some obj, .success) ∧
    (∀ (ctx : Context) (o : MemObj ctx), o.getFlags = obj.getFlags → (Operand.argument o).mode = {}) ∧
    (∀ (main : MainObject) (t : Tracker) (offset size d : Nat), (updateRegion main t offset size {} d).ok = false) ∧
    ¬ Decided obj.getFlags := by
  refine ⟨.buffer 16 (some 4096) MemFlags.UseHostPtr, by decide, fun ctx o ho => ?_, fun _ _ _ _ _ => rfl, fun h => ?_⟩
  · simp only [Operand.argument, ho, Created.getFlags]
    rfl
  · exact absurd h.one (by decide)

end OpenCRun
