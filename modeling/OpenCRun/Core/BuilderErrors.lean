import OpenCRun.Core.ImageGeometry
import OpenCRun.Core.SubBufferCreation
/-!
# The errors of a builder

An entry point calls all of its setters, whatever they report. The caller gets
the error of the last one that reported one.
-/
open Lib

namespace OpenCRun

open MemoryObjectBuilder CLMemFlags

/-! ## Calls -/

/-- A call of an entry point that creates a memory object. -/
inductive CreateCall where
  | buffer (ctx : Option Nat) (flags : CLMemFlags) (size : Nat) (hostPtr : Option Nat)
  | subBuffer (mem : Option MemoryObject) (flags : CLMemFlags) (bct : Nat) (bci : Option BufferRegion)
  | image (args : CreateImageArgs)

abbrev ParamSetter := MemoryObjectBuilder → Checked MemoryObjectBuilder

/-- The error of the first setter that reports one. -/
def firstError : List ParamSetter → MemoryObjectBuilder → MemoryErrCode
  | [], _ => .success
  | set :: rest, b => if (set b).val.err ≠ .success then (set b).val.err else firstError rest (set b).val

namespace CreateCall

/-- The builder is one for a buffer where a sub-buffer is created. -/
def kind : CreateCall → Kind
  | buffer .. => .buffer
  | subBuffer .. => .buffer
  | image _ => .image

section Run
variable (c : CreateSite) (context : MemoryObject → Nat) (call : CreateCall)

def setters : List ParamSetter :=
  match call with
  | buffer ctx flags size hostPtr =>
    [(·.setContext ctx), (·.setBufferSize size), (·.setGenericFlags c.ndebug flags hostPtr)]
  | subBuffer mem flags bct bci => [(·.setSubBufferParams context mem bct bci), (·.setSubBufferFlags c.ndebug flags)]
  | image x =>
    [(·.setContext x.ctx), (·.setImageFrom c.devicesOf x.fmt x.desc), (·.setGenericFlags c.ndebug x.flags x.hostPtr)]

/-- The setters in a row, and `create`. -/
def run : Checked (Option Created × MemoryErrCode) := do
  let b ← (call.setters c context).foldlM (fun b set => set b) (new call.kind)
  b.create c.address c.init

/-- The first error, which is that of `initForDevices` where no setter reports one. -/
def recorded : MemoryErrCode :=
  let err := firstError (call.setters c context) (new call.kind)
  if err = .success ∧ c.init = false then .outOfHostMemory else err

end Run

end CreateCall

/-- No null pointer is followed, and no assertion fails; the first error comes back, without an object if
there is one. -/
structure Protocol (first : MemoryErrCode) (r : Checked (Option Created × MemoryErrCode)) : Prop where
  defined : r.ok = true
  reported : r.val.2 = first
  null : r.val.1 = none ↔ first ≠ .success
  code : r.val.2 = .success ↔ r.val.1.isSome = true

/-! ## What is refused -/

namespace CreateImageArgs

/-- `setImage` reports no error. -/
def PassesImage (c : CreateSite) (x : CreateImageArgs) : Prop :=
  ∃ format type d, x.Describes format type d ∧ d.Acceptable (x.devices c) format type ∧ ¬ d.GivesPitch type

/-- The flags are those of an image over a buffer as soon as `setImage` knows the type. -/
def PassesFlags (c : CreateSite) (x : CreateImageArgs) : Prop :=
  ∃ f, checkFlags x.flags x.hostPtr = .ok f ∧
    ∀ format d, x.Describes format .image1DBuffer d → d.Acceptable (x.devices c) format .image1DBuffer →
      (inheritFlags ((d.buffer.map Buffer.getFlags).getD 0) f).isOk = true

end CreateImageArgs

namespace CreateCall

/-- There is a context to report to. A main buffer has its own; the setters of its sub-buffers fail an assertion. -/
def HasContext (c : CreateSite) : CreateCall → Prop
  | buffer ctx _ _ _ => ctx.isSome = true
  | subBuffer mem _ _ _ => c.ndebug = true ∧ ∃ m, mem = some (.buffer (.main m))
  | image x => x.ctx.isSome = true

def RefusesObject (c : CreateSite) : CreateCall → Prop
  | buffer _ _ size _ => size = 0
  | subBuffer mem _ bct bci =>
    ¬ ∃ m br, mem = some (.buffer (.main m)) ∧ bct = bufferCreateTypeRegion ∧ bci = some br ∧ RegionAccepted (.main m) br
  | image x => ¬ x.PassesImage c

def RefusesFlags (c : CreateSite) : CreateCall → Prop
  | buffer _ flags _ hostPtr => (checkFlags flags hostPtr).isOk = false
  | subBuffer _ flags _ _ => RejectedForSubBuffer flags
  | image x => ¬ x.PassesFlags c

/-- Most errors of a region are `CL_INVALID_VALUE`, as those of the flags. -/
def SameCode : CreateCall → Prop
  | subBuffer _ _ bct bci => ¬ (bct = bufferCreateTypeRegion ∧ ∃ br, bci = some br ∧ br.size = 0)
  | _ => False

/-- There is a context, and at most one thing goes wrong: the object is refused, or the flags; and memory
is not short. -/
structure Orderly (c : CreateSite) (call : CreateCall) : Prop where
  context : call.HasContext c
  one : call.RefusesObject c → call.RefusesFlags c → call.SameCode
  memory : ¬ call.RefusesObject c → ¬ call.RefusesFlags c → c.init = true

/-! ## The entry points -/

section Entry
variable (c : CreateSite) (context : MemoryObject → Nat)

theorem run_buffer (ctx : Option Nat) (flags : CLMemFlags) (size : Nat) (hostPtr : Option Nat) :
    (buffer ctx flags size hostPtr).run c context = clCreateBuffer c.ndebug c.address c.init ctx flags size hostPtr := by
  simp [run, setters, kind, clCreateBuffer]

theorem run_subBuffer (mem : Option MemoryObject) (flags : CLMemFlags) (bct : Nat) (bci : Option BufferRegion) :
    (subBuffer mem flags bct bci).run c context = clCreateSubBuffer c.ndebug c.address c.init context mem flags bct bci := by
  simp [run, setters, kind, clCreateSubBuffer, createSubBuffer]

theorem run_image (x : CreateImageArgs) : (image x).run c context = x.create c := by
  simp [run, setters, kind, CreateImageArgs.create]

end Entry

end CreateCall

/-! ## Two setters and `create` -/

section Two
variable {b b' : MemoryObjectBuilder} {address : Buffer → Nat} {init : Bool}

theorem protocol_failed {first : MemoryErrCode} (h : b.err ≠ .success) (hfirst : first ≠ .success) :
    Protocol first (b.create address init) ↔ b.err = first := by
  rw [create_failed h]
  constructor
  · intro hp
    exact hp.reported
  · intro heq
    exact ⟨rfl, heq, iff_of_true rfl hfirst, iff_of_false h Bool.false_ne_true⟩

/-- An object is returned although its memory could not be had. -/
theorem protocol_created (h : b.err = .success) (hctx : b.ctx.isSome = true)
    (hparent : (b.kind != .subBuffer || b.params.parent.isSome) = true) :
    Protocol (if init then .success else .outOfHostMemory) (b.create address init) ↔ init = true := by
  rw [create_success h hctx hparent]
  cases init with
  | true => exact iff_of_true ⟨rfl, rfl, iff_of_false (fun h => by cases h) (not_not.2 rfl), iff_of_true rfl rfl⟩ rfl
  | false =>
    refine iff_of_false (fun h => ?_) Bool.false_ne_true
    have hnone := h.null.2 fun h => by cases h
    exact Option.some_ne_none _ hnone

/-- The builder `b` of the first setters is `b'` after the flags, for which `Q` says that they are refused. -/
theorem protocol_iff {P Q : Prop} (hP : b.err ≠ .success ↔ P) (hrefused : Q → b'.err ≠ .success)
    (hpassed : ¬ Q → b'.err = b.err) (hctx : b'.ctx.isSome = true)
    (hparent : (b'.kind != .subBuffer || b'.params.parent.isSome) = true) {first : MemoryErrCode}
    (hfirst : first = if b.err ≠ .success then b.err else b'.err) :
    Protocol (if first = .success ∧ init = false then .outOfHostMemory else first) (b'.create address init) ↔
      (P → Q → b'.err = b.err) ∧ (¬ P → ¬ Q → init = true) := by
  by_cases hp : P
  · have hb : b.err ≠ .success := hP.2 hp
    rw [if_pos hb] at hfirst
    subst hfirst
    rw [if_neg fun h => hb h.1]
    by_cases hq : Q
    · rw [protocol_failed (hrefused hq) hb]
      exact ⟨fun h => ⟨fun _ _ => h, fun hn => absurd hp hn⟩, fun h => h.1 hp hq⟩
    · rw [protocol_failed (hpassed hq ▸ hb) hb]
      exact iff_of_true (hpassed hq) ⟨fun _ h => absurd h hq, fun hn => absurd hp hn⟩
  · have hb : b.err = .success := not_not.1 fun h => hp (hP.1 h)
    rw [if_neg (not_not.2 hb)] at hfirst
    subst hfirst
    by_cases hq : Q
    · have hne := hrefused hq
      rw [if_neg fun h => hne h.1, protocol_failed hne hne]
      exact iff_of_true rfl ⟨fun h => absurd h hp, fun _ h => absurd hq h⟩
    · have hsucc : b'.err = .success := (hpassed hq).trans hb
      have hmem : (if b'.err = .success ∧ init = false then .outOfHostMemory else b'.err) =
          if init then .success else MemoryErrCode.outOfHostMemory := by
        rw [hsucc]
        cases init <;> rfl
      rw [hmem, protocol_created hsucc hctx hparent]
      exact ⟨fun h => ⟨fun hn => absurd hn hp, fun _ _ => h⟩, fun h => h.2 hp hq⟩

end Two

/-! ## Two setters in a row -/

section Row
variable {b₀ b b' : MemoryObjectBuilder} {set setFlags : ParamSetter}

theorem foldlM_two {α : Type} (h : set b₀ = pure b) (h' : setFlags b = pure b') (f : MemoryObjectBuilder → Checked α) :
    ([set, setFlags].foldlM (fun b set => set b) b₀ >>= f) = f b' := by
  simp only [List.foldlM_cons, List.foldlM_nil, h, h', pure_bind]

theorem firstError_two (h : set b₀ = pure b) (h' : setFlags b = pure b') :
    firstError [set, setFlags] b₀ = if b.err ≠ .success then b.err else b'.err := by
  simp only [firstError, h, h', Checked.val_pure]
  rw [show (if b'.err ≠ .success then b'.err else .success) = b'.err by split <;> simp_all]

end Row

/-! ## Objects with flags of their own -/

section Generic
variable (c : CreateSite) (set : ParamSetter) (flags : CLMemFlags) (hostPtr : Option Nat) {b₀ b : MemoryObjectBuilder}
  {P : Prop}

/-- The errors of `set` and those of the flags are never the same. -/
theorem generic_protocol_iff (hset : set b₀ = pure b) (hctx : b.ctx.isSome = true) (hkind : b.kind ≠ .subBuffer)
    (hbuf : ∀ buf, b.imageBuffer = some buf → buf.isSome = true) (hP : b.err ≠ .success ↔ P)
    (hcode : b.err ≠ .invalidValue ∧ b.err ≠ .invalidHostPtr) :
    let sets := [set, (·.setGenericFlags c.ndebug flags hostPtr)]
    Protocol (if firstError sets b₀ = .success ∧ c.init = false then .outOfHostMemory else firstError sets b₀)
      (sets.foldlM (fun b set => set b) b₀ >>= fun b => b.create c.address c.init) ↔
      (P → b.PassesFlags flags hostPtr) ∧ (¬ P → b.PassesFlags flags hostPtr → c.init = true) := by
  intro sets
  obtain ⟨b', hflags⟩ : ∃ b', b.setGenericFlags c.ndebug flags hostPtr = pure b' :=
    ⟨_, Checked.ext rfl (setGenericFlags_ok hctx hkind hbuf)⟩
  have hval : (b.setGenericFlags c.ndebug flags hostPtr).val = b' := by rw [hflags]; rfl
  have hrefused : ¬ b.PassesFlags flags hostPtr → b'.err = .invalidValue ∨ b'.err = .invalidHostPtr := by
    intro hnot
    obtain ⟨e, msg, herror, hcode⟩ := setGenericFlags_refused hnot
    rw [← hval, herror]
    exact hcode
  -- what the flags leave alone
  have hsame : Same b b' ∧ (b.PassesFlags flags hostPtr → b'.err = b.err) := by
    by_cases hpass : b.PassesFlags flags hostPtr
    · obtain ⟨f, hpassed⟩ := setGenericFlags_passed hpass
      rw [← hval, hpassed]
      exact ⟨⟨rfl, rfl, rfl⟩, fun _ => rfl⟩
    · obtain ⟨e, msg, herror, -⟩ := setGenericFlags_refused hpass
      rw [← hval, herror]
      exact ⟨⟨rfl, rfl, rfl⟩, fun h => absurd h hpass⟩
  have hparent : (b'.kind != .subBuffer || b'.params.parent.isSome) = true := by
    rw [hsame.1.kind, bne_iff_ne.2 hkind, Bool.true_or]
  have hne : ¬ b.PassesFlags flags hostPtr → b'.err ≠ .success := by
    intro hnot herr
    rcases hrefused hnot with h | h <;> cases herr.symm.trans h
  rw [foldlM_two hset hflags, protocol_iff hP hne (fun h => hsame.2 (not_not.1 h)) (hsame.1.ctx.symm ▸ hctx) hparent
    (firstError_two hset hflags)]
  refine and_congr (forall_congr' fun _ => ?_) (forall_congr' fun _ => by rw [not_not])
  constructor
  · intro h
    by_contra hnot
    rcases hrefused hnot with hval | hval
    · exact hcode.1 ((h hnot).symm.trans hval)
    · exact hcode.2 ((h hnot).symm.trans hval)
  · exact fun h hnot => absurd h hnot

end Generic

/-! ## Errors of images -/

/-- An error before the type of the image is known. -/
structure Early (e : ImageError) : Prop where
  params : e.params = {}
  code : e.code ∈ [.invalidImageFormatDescriptor, .invalidImageDescriptor, .invalidImageSize, .imageFormatNotSupported]

section Early
variable {α : Type} {e : ImageError}

theorem early_errorIf {cond : Bool} {code : MemoryErrCode} {msg : String} {f : Unit → Except ImageError α}
    (hcode : code ∈ [.invalidImageFormatDescriptor, .invalidImageDescriptor, .invalidImageSize, .imageFormatNotSupported])
    (hf : cond = false → ∀ e, f () = .error e → Early e) (h : (errorIf cond code msg >>= f) = .error e) : Early e := by
  cases cond with
  | false => exact hf rfl e h
  | true =>
    cases h
    exact ⟨rfl, hcode⟩

theorem early_bind {β : Type} {x : Except ImageError β} {f : β → Except ImageError α} (hx : ∀ e, x = .error e → Early e)
    (hf : ∀ a, x = .ok a → ∀ e, f a = .error e → Early e) (h : (x >>= f) = .error e) : Early e := by
  cases x with
  | error e' =>
    cases h
    exact hx _ rfl
  | ok a => exact hf a rfl e h

theorem checkFormat_early {fmt : Option CLImageFormat} (h : checkFormat fmt = .error e) : Early e := by
  unfold checkFormat at h
  split at h
  · cases h
    exact ⟨rfl, by decide⟩
  · cases h
    exact ⟨rfl, by decide⟩
  · cases h
    exact ⟨rfl, by decide⟩
  · exact early_errorIf (by decide) (fun _ e h => by cases h) h

theorem checkArraySize_early {isArray : Bool} {lim : ImageLimits} {d : CLImageDesc}
    (h : checkArraySize isArray lim d = .error e) : Early e := by
  unfold checkArraySize at h
  refine early_errorIf (by decide) ?_ h
  intro _ e h
  exact early_errorIf (by decide) (fun _ e h => by cases h) h

theorem checkSizes_early {lim : ImageLimits} {elementSize : SizeT} {type : ImageType} {d : CLImageDesc}
    (h : checkSizes lim elementSize type d = .error e) : Early e := by
  revert e
  cases type with
  | image3D =>
    unfold checkSizes
    iterate 7 (intro e h; refine early_errorIf (by decide) ?_ h; clear h e; intro _)
    intro e h
    cases h
  | image1D | image1DBuffer | image1DArray =>
    unfold checkSizes
    iterate 4 (intro e h; refine early_errorIf (by decide) ?_ h; clear h e; intro _)
    intro e h
    exact early_bind (fun e h => checkArraySize_early h) (fun a _ e h => by cases h) h
  | image2D | image2DArray =>
    unfold checkSizes
    iterate 5 (intro e h; refine early_errorIf (by decide) ?_ h; clear h e; intro _)
    intro e h
    exact early_bind (fun e h => checkArraySize_early h) (fun a _ e h => by cases h) h

/-- The type is known when the pitches are looked at. -/
theorem setPitches_late {elementSize : SizeT} {type : ImageType} {d : CLImageDesc} {sizes : ImageDescriptor}
    (h : setPitches none elementSize type d sizes = .error e) :
    e.params = { type := some type, buf := d.buffer } ∧ e.code = .invalidImageDescriptor := by
  have herror : ∀ {cond : Bool} {msg : String} {f : Unit → Except ImageError ImageDescriptor},
      (errorIf cond .invalidImageDescriptor msg { type := some type, buf := d.buffer } >>= f) = .error e →
        (e.params = { type := some type, buf := d.buffer } ∧ e.code = .invalidImageDescriptor) ∨ f () = .error e := by
    intro cond msg f h
    cases cond with
    | false => exact .inr h
    | true =>
      cases h
      exact .inl ⟨rfl, rfl⟩
  unfold setPitches at h
  rw [Option.isNone_none, if_pos rfl] at h
  rcases herror h with h | h
  · exact h
  rcases herror h with h | h
  · exact h
  · cases h

variable {x : CreateImageArgs} {devices : List DeviceInfo}

theorem computeImage_late {format : ImageFormat} {type : ImageType} {d : CLImageDesc} (hd : x.Describes format type d)
    (hacc : d.Acceptable devices format type) (h : computeImage none devices x.fmt x.desc = .error e) :
    e.params = { type := some type, buf := d.buffer } ∧ e.code = .invalidImageDescriptor := by
  obtain ⟨hvalid, hlevels, hsamples, lim, hlim, hfits⟩ := hacc
  have hformat : checkFormat x.fmt = .ok format := by
    rw [hd.fmt, checkFormat, hvalid]
    rfl
  have hsizes := checkSizes_iff.2 ⟨hfits, rfl⟩
  have hok : ∀ code msg, errorIf false code msg = .ok () := fun code msg => rfl
  unfold computeImage at h
  rw [hformat, hd.desc] at h
  simp only [bind, Except.bind, hlevels, hsamples, bne_self_eq_false, hok, hlim, hd.type, hsizes] at h
  cases hpitch : setPitches none (BitVec.ofNat 64 format.elementSize) type d (d.sizes type) with
  | error e' =>
    rw [hpitch] at h
    cases h
    exact setPitches_late hpitch
  | ok desc =>
    rw [hpitch] at h
    cases h

theorem computeImage_early (hno : ¬ ∃ format type d, x.Describes format type d ∧ d.Acceptable devices format type)
    (h : computeImage none devices x.fmt x.desc = .error e) : Early e := by
  unfold computeImage at h
  refine early_bind (fun e h => checkFormat_early h) ?_ h
  intro format hformat e h
  obtain ⟨hfmt, hvalid⟩ := checkFormat_iff.1 hformat
  cases hdesc : x.desc with
  | none =>
    rw [hdesc] at h
    cases h
    exact ⟨rfl, by decide⟩
  | some d =>
    rw [hdesc] at h
    refine early_errorIf (by decide) ?_ h
    intro hlevels e h
    refine early_errorIf (by decide) ?_ h
    intro hsamples e h
    cases hlim : imageLimits devices format with
    | none =>
      rw [hlim] at h
      cases h
      exact ⟨rfl, by decide⟩
    | some lim =>
      simp only [hlim] at h
      cases htype : d.imageType with
      | none =>
        rw [htype] at h
        cases h
        exact ⟨rfl, by decide⟩
      | some type =>
        rw [htype] at h
        refine early_bind (fun e h => checkSizes_early h) ?_ h
        intro sizes hsizes
        exact absurd ⟨format, type, d, ⟨hfmt, hdesc, htype⟩, hvalid, bne_eq_false_iff_eq.1 hlevels,
          bne_eq_false_iff_eq.1 hsamples, lim, hlim, (checkSizes_iff.1 hsizes).1⟩ hno

end Early

/-! ## Buffers -/

namespace CreateCall
variable (c : CreateSite) (context : MemoryObject → Nat)

theorem buffer_protocol_iff (ctx : Option Nat) (flags : CLMemFlags) (size : Nat) (hostPtr : Option Nat) :
    Protocol ((buffer ctx flags size hostPtr).recorded c context) ((buffer ctx flags size hostPtr).run c context) ↔
      (buffer ctx flags size hostPtr).Orderly c := by
  cases ctx with
  | none => exact iff_of_false (fun h => by cases h.defined) fun h => by cases h.context
  | some ctx =>
    let b₀ : MemoryObjectBuilder := { new .buffer with ctx := some ctx }
    obtain ⟨b, hset, hctx, hkind, herr⟩ : ∃ b, b₀.setBufferSize size = pure b ∧ b.ctx.isSome = true ∧ b.kind = .buffer ∧
        b.err = if size = 0 then .invalidBufferSize else .success := by
      unfold setBufferSize
      by_cases hsize : size = 0
      · rw [if_pos hsize, if_pos hsize]
        exact ⟨_, rfl, rfl, rfl, rfl⟩
      · rw [if_neg hsize, if_neg hsize]
        exact ⟨_, rfl, rfl, rfl, rfl⟩
    have himage : b.imageBuffer = none := by rw [imageBuffer, hkind]
    have hpass : b.PassesFlags flags hostPtr ↔ ¬ (checkFlags flags hostPtr).isOk = false := by
      unfold PassesFlags
      cases checkFlags flags hostPtr <;> simp [himage, Except.isOk, Except.toBool]
    have hP : b.err ≠ .success ↔ size = 0 := by
      rw [herr]
      split <;> simp_all
    have hiff := generic_protocol_iff c (·.setBufferSize size) flags hostPtr hset hctx (by rw [hkind]; decide)
      (fun buf h => by rw [himage] at h; cases h) hP (by rw [herr]; split <;> decide)
    rw [hpass] at hiff
    refine Iff.trans hiff ⟨fun h => ⟨rfl, fun hs hf => absurd hf (h.1 hs), h.2⟩, fun h => ⟨fun hs hf => h.one hs hf, h.memory⟩⟩

/-! ## Images -/

section Image
variable {x : CreateImageArgs} {devices : List DeviceInfo}

/-- What `setImage` leaves in the builder. -/
def imageParams : Except ImageError Image → ImageParams
  | .ok img => { type := some img.type, buf := img.buf, size := img.size.toNat }
  | .error e => e.params

def imageErr : Except ImageError Image → MemoryErrCode
  | .ok _ => .success
  | .error e => e.code

/-- The type is known if all but the pitches is right. -/
theorem imageParams_known {format : ImageFormat} {type : ImageType} {d : CLImageDesc} (hd : x.Describes format type d)
    (hacc : d.Acceptable devices format type) :
    (imageParams (computeImage none devices x.fmt x.desc)).type = some type ∧
      (imageParams (computeImage none devices x.fmt x.desc)).buf = d.buffer := by
  cases h : computeImage none devices x.fmt x.desc with
  | error e =>
    have hparams := (computeImage_late hd hacc h).1
    rw [imageParams, hparams]
    exact ⟨rfl, rfl⟩
  | ok img =>
    rw [hd.fmt, hd.desc] at h
    obtain ⟨-, -, rfl⟩ := (computeImage_iff hd.type).1 h
    exact ⟨rfl, rfl⟩

theorem imageParams_unknown (h : ¬ ∃ format type d, x.Describes format type d ∧ d.Acceptable devices format type) :
    (imageParams (computeImage none devices x.fmt x.desc)).type = none := by
  cases himage : computeImage none devices x.fmt x.desc with
  | error e => rw [imageParams, (computeImage_early h himage).params]
  | ok img =>
    obtain ⟨format, type, d, hd⟩ := CreateImageArgs.computeImage_describes himage
    rw [hd.fmt, hd.desc] at himage
    exact absurd ⟨format, type, d, hd, ((computeImage_iff hd.type).1 himage).1⟩ h

/-- What is asked of the buffer of an image over one. -/
theorem imageParams_iff {P : Option Buffer → Prop} :
    ((imageParams (computeImage none devices x.fmt x.desc)).type = some .image1DBuffer →
      P (imageParams (computeImage none devices x.fmt x.desc)).buf) ↔
      ∀ format d, x.Describes format .image1DBuffer d → d.Acceptable devices format .image1DBuffer → P d.buffer := by
  constructor
  · intro h format d hd hacc
    obtain ⟨htype, hbuf⟩ := imageParams_known hd hacc
    rw [← hbuf]
    exact h htype
  · intro h htype
    by_cases hknown : ∃ format type d, x.Describes format type d ∧ d.Acceptable devices format type
    · obtain ⟨format, type, d, hd, hacc⟩ := hknown
      obtain ⟨htype', hbuf⟩ := imageParams_known hd hacc
      obtain rfl := Option.some.inj (htype.symm.trans htype')
      rw [hbuf]
      exact h format d hd hacc
    · cases htype.symm.trans (imageParams_unknown hknown)

theorem imageErr_iff :
    (imageErr (computeImage none devices x.fmt x.desc) ≠ .success ↔
      ¬ ∃ format type d, x.Describes format type d ∧ d.Acceptable devices format type ∧ ¬ d.GivesPitch type) ∧
    imageErr (computeImage none devices x.fmt x.desc) ≠ .invalidValue ∧
    imageErr (computeImage none devices x.fmt x.desc) ≠ .invalidHostPtr := by
  cases himage : computeImage none devices x.fmt x.desc with
  | ok img =>
    refine ⟨iff_of_false (not_not.2 rfl) (not_not.2 ?_), (fun h => by cases h), fun h => by cases h⟩
    obtain ⟨format, type, d, hd⟩ := CreateImageArgs.computeImage_describes himage
    rw [hd.fmt, hd.desc] at himage
    obtain ⟨hacc, hgives, -⟩ := (computeImage_iff hd.type).1 himage
    exact ⟨format, type, d, hd, hacc, hgives⟩
  | error e =>
    have hcode : e.code ∈
        [.invalidImageFormatDescriptor, .invalidImageDescriptor, .invalidImageSize, .imageFormatNotSupported] := by
      by_cases h : ∃ format type d, x.Describes format type d ∧ d.Acceptable devices format type
      · obtain ⟨format, type, d, hd, hacc⟩ := h
        rw [(computeImage_late hd hacc himage).2]
        decide
      · exact (computeImage_early h himage).code
    have hne : ∀ code, code ∉ [.invalidImageFormatDescriptor, .invalidImageDescriptor, .invalidImageSize,
        .imageFormatNotSupported] → e.code ≠ code := fun code hnot h => hnot (h ▸ hcode)
    refine ⟨iff_of_true (hne _ (by decide)) ?_, hne _ (by decide), hne _ (by decide)⟩
    rintro ⟨format, type, d, hd, hacc, hgives⟩
    rw [hd.fmt, hd.desc, (computeImage_iff hd.type).2 ⟨hacc, hgives, rfl⟩] at himage
    cases himage

/-- What `setImage` makes of a builder of an image that has its context. -/
structure HasImage (c : CreateSite) (x : CreateImageArgs) (b : MemoryObjectBuilder) : Prop where
  ctx : b.ctx.isSome = true
  kind : b.kind = .image
  params : b.params = .img (imageParams (computeImage none (x.devices c) x.fmt x.desc))
  err : b.err = imageErr (computeImage none (x.devices c) x.fmt x.desc)

theorem setImageFrom_hasImage (c : CreateSite) {ctx : Nat} (hctx : x.ctx = some ctx) :
    ∃ b, ({ new .image with ctx := some ctx } : MemoryObjectBuilder).setImageFrom c.devicesOf x.fmt x.desc = pure b ∧
      HasImage c x b := by
  have hdevices : (some ctx).elim [] c.devicesOf = x.devices c := by rw [CreateImageArgs.devices, hctx]
  have hptr : (new .image).hostPtr = none := rfl
  rw [setImageFrom]
  dsimp only
  rw [hptr, hdevices, Option.isSome_some, Bool.true_or, check_true, pure_bind]
  cases himage : computeImage none (x.devices c) x.fmt x.desc with
  | ok img => exact ⟨_, rfl, rfl, rfl, by rw [himage]; rfl, by rw [himage]; rfl⟩
  | error e => exact ⟨_, rfl, rfl, rfl, by rw [himage]; rfl, by rw [himage]; rfl⟩

section
variable {c : CreateSite} {b : MemoryObjectBuilder} (h : HasImage c x b)
include h

/-- Where flags are inherited, there is a buffer. -/
theorem HasImage.buffer_isSome : ∀ buf, b.imageBuffer = some buf → buf.isSome = true := by
  intro buf hbuf
  rw [imageBuffer, h.kind, h.params] at hbuf
  simp only [Option.ite_none_right_eq_some, Option.some.injEq] at hbuf
  obtain ⟨htype, rfl⟩ := hbuf
  refine (imageParams_iff (P := fun buf => buf.isSome = true)).2 ?_ htype
  intro format d _ hacc
  obtain ⟨lim, -, hfits⟩ := hacc.fits
  exact hfits.buffer.2 rfl

theorem HasImage.passesFlags_iff : b.PassesFlags x.flags x.hostPtr ↔ x.PassesFlags c := by
  rw [CreateImageArgs.passesFlags_image h.kind h.params]
  exact exists_congr fun f => and_congr_right fun _ =>
    imageParams_iff (P := fun buf => (inheritFlags ((buf.map Buffer.getFlags).getD 0) f).isOk = true)

end

end Image

theorem image_protocol_iff (x : CreateImageArgs) :
    Protocol ((image x).recorded c context) ((image x).run c context) ↔ (image x).Orderly c := by
  cases hctx : x.ctx with
  | none =>
    refine iff_of_false (fun h => ?_) fun h => ?_
    · have hdefined := h.defined
      simp [run, setters, kind, setContext, hctx, error, new] at hdefined
    · have hcontext : x.ctx.isSome = true := h.context
      rw [hctx] at hcontext
      cases hcontext
  | some ctx =>
    obtain ⟨b, hset, himage⟩ := setImageFrom_hasImage c hctx
    have hP : b.err ≠ .success ↔ ¬ x.PassesImage c := by
      rw [himage.err]
      exact imageErr_iff.1
    have hiff := generic_protocol_iff c (·.setImageFrom c.devicesOf x.fmt x.desc) x.flags x.hostPtr hset himage.ctx
      (by rw [himage.kind]; decide) himage.buffer_isSome hP (himage.err ▸ imageErr_iff.2)
    rw [himage.passesFlags_iff] at hiff
    have hset' : (image x).setters c context = [(·.setContext (some ctx)), (·.setImageFrom c.devicesOf x.fmt x.desc),
        (·.setGenericFlags c.ndebug x.flags x.hostPtr)] := by rw [← hctx]; rfl
    rw [recorded, run, hset']
    refine Iff.trans hiff ⟨fun h => ⟨?_, fun hi hf => hf (h.1 hi), fun hi hf => h.2 hi (not_not.1 hf)⟩,
      fun h => ⟨fun hi => ?_, fun hi hf => h.memory hi (not_not.2 hf)⟩⟩
    · rw [HasContext, hctx]
      rfl
    · by_contra hf
      exact h.one hi hf

/-! ## Sub-buffers -/

/-- There is a parent from here on; all errors of a region but one have the code of those of the flags. -/
theorem setSubBufferParams_err (b : MemoryObjectBuilder) (m : Main) (bct : Nat) (bci : Option BufferRegion)
    (herr : b.err = .success) :
    ∃ b', b.setSubBufferParams context (some (.buffer (.main m))) bct bci = pure b' ∧ Same (b.withParent context m) b' ∧
      (b'.err = .success ↔ bct = bufferCreateTypeRegion ∧ ∃ br, bci = some br ∧ RegionAccepted (.main m) br) ∧
      (b'.err = .invalidValue ∨ b'.err = .success ↔ ¬ (bct = bufferCreateTypeRegion ∧ ∃ br, bci = some br ∧ br.size = 0)) := by
  have hsub : (Buffer.main m).isSubBuffer = false := rfl
  simp only [setSubBufferParams, hsub, Bool.false_eq_true, if_false]
  by_cases hbct : bct = bufferCreateTypeRegion
  case neg =>
    rw [if_pos hbct]
    exact ⟨_, rfl, ⟨rfl, rfl, rfl⟩, iff_of_false (fun h => by cases h) fun h => hbct h.1,
      iff_of_true (.inl rfl) fun h => hbct h.1⟩
  rw [if_neg (not_not.2 hbct)]
  cases bci with
  | none =>
    refine ⟨_, rfl, ⟨rfl, rfl, rfl⟩, iff_of_false (fun h => by cases h) ?_, iff_of_true (.inl rfl) ?_⟩
    · rintro ⟨-, br, h, -⟩
      cases h
    · rintro ⟨-, br, h, -⟩
      cases h
  | some br =>
    simp only [Option.some.injEq, exists_eq_left', hbct, true_and]
    by_cases hsize : br.size = 0
    · rw [if_pos hsize]
      exact ⟨_, rfl, ⟨rfl, rfl, rfl⟩, iff_of_false (fun h => by cases h) fun h => h.1 hsize,
        iff_of_false (fun h => by rcases h with h | h <;> cases h) (not_not.2 hsize)⟩
    rw [if_neg hsize]
    by_cases hbounds : (br.origin + br.size).toNat > (Buffer.main m).getSize
    · rw [if_pos hbounds]
      exact ⟨_, rfl, ⟨rfl, rfl, rfl⟩, iff_of_false (fun h => by cases h) fun h => Nat.not_lt.2 h.2 hbounds,
        iff_of_true (.inl rfl) hsize⟩
    · rw [if_neg hbounds]
      exact ⟨_, rfl, ⟨rfl, rfl, rfl⟩, iff_of_true herr ⟨hsize, Nat.not_lt.1 hbounds⟩, iff_of_true (.inr herr) hsize⟩

/-- Without a main buffer there is no context, and with assertions one fails. -/
theorem subBuffer_undefined (mem : Option MemoryObject) (flags : CLMemFlags) (bct : Nat) (bci : Option BufferRegion)
    (h : ¬ (subBuffer mem flags bct bci).HasContext c) : ((subBuffer mem flags bct bci).run c context).ok = false := by
  rw [run_subBuffer]
  unfold clCreateSubBuffer createSubBuffer
  rw [Checked.ok_bind, Checked.ok_bind]
  by_cases hmain : ∃ m, mem = some (.buffer (.main m))
  · have hdebug : c.ndebug = false := Bool.eq_false_iff.2 fun hn => h ⟨hn, hmain⟩
    obtain ⟨m, rfl⟩ := hmain
    obtain ⟨b', hset, hsame, -⟩ := setSubBufferParams_err context (new .buffer) m bct bci rfl
    have hkind : b'.kind ≠ .subBuffer := by
      rw [hsame.kind]
      exact fun h => by cases h
    rw [hset, Checked.val_pure, hdebug, assertion_fails flags hkind, Bool.false_and, Bool.and_false]
  · have hok : ((new .buffer).setSubBufferParams context mem bct bci).ok = false := by
      unfold setSubBufferParams
      split
      · next buf =>
        cases buf with
        | main m => exact absurd ⟨m, rfl⟩ hmain
        | sub => rfl
      · rfl
    rw [hok, Bool.false_and]

/-- Flags of a sub-buffer that are rejected give one error, others leave the one that there is. -/
theorem setSubBufferFlags_same {ndebug : Bool} {b : MemoryObjectBuilder} {m : Main} (flags : CLMemFlags)
    (hctx : b.ctx.isSome = true) (hparent : b.params.parent = some (.main m)) (hndebug : ndebug = true) :
    ∃ b', b.setSubBufferFlags ndebug flags = pure b' ∧ Same b b' ∧
      (RejectedForSubBuffer flags → b'.err = .invalidValue) ∧ (¬ RejectedForSubBuffer flags → b'.err = b.err) := by
  by_cases hrej : RejectedForSubBuffer flags
  · obtain ⟨msg, h⟩ := setSubBufferFlags_rejected flags hctx (.inl hndebug) hrej
    exact ⟨_, h, ⟨rfl, rfl, rfl⟩, fun _ => rfl, fun h => absurd hrej h⟩
  · exact ⟨_, setSubBufferFlags_accepted flags hparent (.inl hndebug) hrej, ⟨rfl, rfl, rfl⟩, fun h => absurd h hrej,
      fun _ => rfl⟩

theorem subBuffer_protocol_iff (mem : Option MemoryObject) (flags : CLMemFlags) (bct : Nat) (bci : Option BufferRegion) :
    Protocol ((subBuffer mem flags bct bci).recorded c context) ((subBuffer mem flags bct bci).run c context) ↔
      (subBuffer mem flags bct bci).Orderly c := by
  by_cases hcontext : (subBuffer mem flags bct bci).HasContext c
  case neg =>
    refine iff_of_false (fun h => ?_) fun h => hcontext h.context
    cases (subBuffer_undefined c context mem flags bct bci hcontext).symm.trans h.defined
  obtain ⟨hndebug, m, rfl⟩ := hcontext
  obtain ⟨b, hset, hsame, hregion, hvalue⟩ := setSubBufferParams_err context (new .buffer) m bct bci rfl
  have hctx : b.ctx.isSome = true := by
    rw [hsame.ctx]
    rfl
  have hparent : b.params.parent = some (.main m) := by
    rw [hsame.params]
    rfl
  obtain ⟨b', hflags, hsame', hrejected, haccepted⟩ := setSubBufferFlags_same flags hctx hparent hndebug
  have hrefused : b.err ≠ .success ↔ (subBuffer (some (.buffer (.main m))) flags bct bci).RefusesObject c := by
    refine not_congr (hregion.trans ?_)
    constructor
    · rintro ⟨hbct, br, hbr, hacc⟩
      exact ⟨m, br, rfl, hbct, hbr, hacc⟩
    · rintro ⟨m', br, hm, hbct, hbr, hacc⟩
      cases hm
      exact ⟨hbct, br, hbr, hacc⟩
  have hparent' : (b'.kind != .subBuffer || b'.params.parent.isSome) = true := by
    rw [hsame'.params, hparent]
    exact Bool.or_true _
  have hfirst : firstError ((subBuffer (some (.buffer (.main m))) flags bct bci).setters c context) (new .buffer) =
      if b.err ≠ .success then b.err else b'.err := firstError_two hset hflags
  have hrun : (subBuffer (some (.buffer (.main m))) flags bct bci).run c context = b'.create c.address c.init :=
    foldlM_two hset hflags _
  have hne : RejectedForSubBuffer flags → b'.err ≠ .success := fun h => by
    rw [hrejected h]
    exact fun h => by cases h
  rw [recorded, kind, hrun, protocol_iff hrefused hne haccepted (hsame'.ctx.symm ▸ hctx) hparent' hfirst]
  constructor
  · rintro ⟨hone, hinit⟩
    refine ⟨⟨hndebug, m, rfl⟩, fun ho hf => ?_, hinit⟩
    exact hvalue.1 (.inl ((hone ho hf).symm.trans (hrejected hf)))
  · rintro ⟨-, hone, hinit⟩
    refine ⟨fun ho hf => ?_, hinit⟩
    rw [hrejected hf]
    exact ((hvalue.2 (hone ho hf)).resolve_right (hrefused.2 ho)).symm

/-- The errors of a call follow the protocol if and only if there is a context and no more than one thing
goes wrong, which is not that memory is short. -/
theorem protocol_iff_orderly (call : CreateCall) :
    Protocol (call.recorded c context) (call.run c context) ↔ call.Orderly c := by
  cases call with
  | buffer ctx flags size hostPtr => exact buffer_protocol_iff c context ctx flags size hostPtr
  | subBuffer mem flags bct bci => exact subBuffer_protocol_iff c context mem flags bct bci
  | image x => exact image_protocol_iff c context x

/-- Sixteen bytes without a context: the error is reported to a null pointer. Where memory is short, an object
comes back with the error. -/
theorem sixteen_bytes_protocol :
    ¬ Protocol ((buffer none 0 16 none).recorded ⟨true, fun _ => 0, true, fun _ => []⟩ fun _ => 0)
        ((buffer none 0 16 none).run ⟨true, fun _ => 0, true, fun _ => []⟩ fun _ => 0) ∧
      ¬ Protocol ((buffer (some 0) 0 16 none).recorded ⟨true, fun _ => 0, false, fun _ => []⟩ fun _ => 0)
        ((buffer (some 0) 0 16 none).run ⟨true, fun _ => 0, false, fun _ => []⟩ fun _ => 0) := by
  constructor
  · intro h
    cases h.defined
  · intro h
    have hnone := h.null.2 fun h => by cases h
    cases hnone

end CreateCall

end OpenCRun
