import OpenCRun.Core.MapBuilders
/-!
# Mapping

`clEnqueueMapBuffer` and `clEnqueueMapImage`: the pointer that a call returns,
and the live mappings that it leaves behind.
-/
namespace OpenCRun

open CommandBuilder

/-- `CL_MAP_FIELD_ALL`. -/
def CLMapFlags.CL_MAP_FIELD_ALL : CLMapFlags := CL_MAP_READ ||| CL_MAP_WRITE ||| CL_MAP_WRITE_INVALIDATE_REGION

def clValidMapField (mapFlags : CLMapFlags) : Bool := mapFlags &&& ~~~CLMapFlags.CL_MAP_FIELD_ALL == 0

/-- What `errcode_ret` gets when a call returns null. -/
inductive MapErrCode where
  | invalidCommandQueue
  | command (e : CommandErrCode)
  deriving DecidableEq, Repr

/-- `CommandQueue::Enqueue` takes a command that does not wait for events of another context. -/
def QueueInfo.enqueues (q : QueueInfo) (waitList : List WaitEvent) : Bool := waitList.all (·.context == q.context)

/-- The end of both calls; `mapBuf` is the pointer that is returned. -/
def finishMap {α : Type} (q : QueueInfo) (mapBuf : α → Nat) (b : CommandBuilder (α × Mappings)) :
    Mappings × Except MapErrCode Nat :=
  (b.params.2,
    match b.create with
    | .error e => .error (.command e)
    | .ok cmd => if q.enqueues cmd.waitList then .ok (mapBuf cmd.params.1) else .error (.command .invalidContext))

def clEnqueueMapBuffer (q : Option QueueInfo) (s : Mappings) (site : MapSite) (x : MapBufferArgs) :
    Mappings × Except MapErrCode Nat :=
  match q with
  | none => (s, .error .invalidCommandQueue)
  | some q =>
    if !clValidMapField x.mapFlags then (s, .error (.command .invalidValue))
    else if x.size = 0 then (s, .error (.command .invalidValue))
    else finishMap q (·.mapBuf) (EnqueueMapBufferBuilder.build q s site x)

def clEnqueueMapImage (q : Option QueueInfo) (s : Mappings) (site : MapSite) (x : MapImageArgs) :
    Mappings × Except MapErrCode Nat :=
  match q with
  | none => (s, .error .invalidCommandQueue)
  | some q =>
    if !clValidMapField x.mapFlags then (s, .error (.command .invalidValue))
    else if !q.device.hasImageSupport then (s, .error (.command .invalidOperation))
    else finishMap q (·.mapBuf) (EnqueueMapImageBuilder.build q s site x)

/-- The call returns null. -/
def Null (ret : Except MapErrCode Nat) : Prop := ∀ ptr, ret = .ok ptr → ptr = 0

/-- A call of one of the two. -/
inductive MapRequest where
  | buffer (x : MapBufferArgs)
  | image (x : MapImageArgs)

namespace MapRequest

def call (q : Option QueueInfo) (s : Mappings) (site : MapSite) : MapRequest → Mappings × Except MapErrCode Nat
  | buffer x => clEnqueueMapBuffer q s site x
  | image x => clEnqueueMapImage q s site x

/-- The mapping is recorded, and a test of another setter or of the constructor refuses the call. -/
def LeavesTrace (q : Option QueueInfo) (s : Mappings) (site : MapSite) : MapRequest → Prop
  | buffer x => ∃ q' src, q = some q' ∧ (clValidMapField x.mapFlags = true ∧ x.size ≠ 0) ∧ x.buf = some (.buffer src) ∧
      MemoryObject.AcceptsMapping s (.buffer src.buffer) site.addr (x.info site src) ∧
      ¬ (EnqueueMapBufferBuilder.tests.Admits q' src ∧ x.offset + x.size ≤ src.getSize ∧
          x.wl.Accepted q'.context x.blocking)
  | image x => ∃ q' img o r, q = some q' ∧ (clValidMapField x.mapFlags = true ∧ q'.device.hasImageSupport = true) ∧
      (x.image = some (.image img) ∧ x.Area img o r) ∧
      img.object.AcceptsMapping s site.addr (x.info site img o r) ∧
      ¬ (img.context = q'.context ∧ exceedsLimits q'.device img.image = false ∧
          q'.device.isImageFormatSupported img.image.format = true ∧ x.wl.Accepted q'.context x.blocking)

end MapRequest

/-! ## What a failed call leaves behind -/

theorem null_error (e : MapErrCode) : Null (.error e) := nofun

theorem setWaitList_context {α : Type} {b : CommandBuilder α} {blocking : α → Bool} {n : Nat}
    {evs : Option (Nat → Option WaitEvent)} (h : (b.setWaitList blocking n evs).reports = []) :
    ∀ ev ∈ (b.setWaitList blocking n evs).waitList, ev.context = b.ctx := by
  intro ev hev
  simp only [CommandBuilder.setWaitList, List.append_eq_nil_iff, Option.toList_eq_nil_iff, checkEvents_eq_none] at h
  exact (h.2 ev hev).1

section

variable {α : Type} {q : QueueInfo} {mapBuf : α → Nat} {b : CommandBuilder (α × Mappings)}

/-- Once a builder has no error, `Enqueue` has none. -/
theorem finishMap_null (h : b.reports = [] → q.enqueues b.waitList = true ∧ mapBuf b.params.1 ≠ 0) :
    Null (finishMap q mapBuf b).2 ↔ b.reports ≠ [] := by
  by_cases hnil : b.reports = []
  · obtain ⟨henq, hptr⟩ := h hnil
    have hcreate : b.create = .ok ⟨b.params, b.waitList⟩ := CommandBuilder.create_ok_iff.2 ⟨hnil, rfl⟩
    refine iff_of_false (fun hnull => hptr (hnull _ ?_)) (not_not.2 hnil)
    simp [finishMap, hcreate, henq]
  · refine iff_of_true ?_ hnil
    cases hcreate : b.create with
    | error e => simp [finishMap, hcreate, null_error]
    | ok cmd => exact absurd (CommandBuilder.create_ok_iff.1 hcreate).1 hnil

theorem finishMap_ok_iff {ptr : Nat} (h : b.reports = [] → q.enqueues b.waitList = true) :
    (finishMap q mapBuf b).2 = .ok ptr ↔ b.reports = [] ∧ mapBuf b.params.1 = ptr := by
  by_cases hnil : b.reports = []
  · have hcreate : b.create = .ok ⟨b.params, b.waitList⟩ := CommandBuilder.create_ok_iff.2 ⟨hnil, rfl⟩
    simp [finishMap, hcreate, h hnil, hnil]
  · cases hcreate : b.create with
    | error e => simp [finishMap, hcreate, hnil]
    | ok cmd => exact absurd (CommandBuilder.create_ok_iff.1 hcreate).1 hnil

end

namespace MapBufferArgs

variable {x : MapBufferArgs} {q : QueueInfo} {s : Mappings} {site : MapSite} {src : BufferObject}

/-- The queue takes what the builder has let pass. -/
theorem build_enqueues (h : (EnqueueMapBufferBuilder.build q s site x).reports = []) :
    q.enqueues (EnqueueMapBufferBuilder.build q s site x).waitList = true := by
  have hctx := setWaitList_context h
  exact List.all_eq_true.2 fun ev hev => beq_iff_eq.2 ((hctx ev hev).trans (by rw [setBlocking_eq rfl]; rfl))

theorem checkMapFlags_of_accepts {o : MemoryObject} (h : o.AcceptsMapping s site.addr (x.info site src)) :
    checkMapFlags src.buffer.getFlags x.mapFlags = none := by
  have hflags : (if (checkMapFlags src.buffer.getFlags x.mapFlags).isSome then 0 else x.mapFlags) ≠ 0 := h.2.1
  cases hcheck : checkMapFlags src.buffer.getFlags x.mapFlags with
  | none => rfl
  | some r => simp [hcheck] at hflags

theorem finish_null :
    Null (finishMap q (·.mapBuf) (EnqueueMapBufferBuilder.build q s site x)).2 ↔
      (EnqueueMapBufferBuilder.build q s site x).reports ≠ [] := by
  refine finishMap_null fun hnil => ⟨build_enqueues hnil, ?_⟩
  cases hbuf : Mem.buffer? x.buf with
  | none => exact absurd hnil (build_of_no_buffer hbuf).2
  | some src =>
    rw [Mem.buffer?_eq_some] at hbuf
    have hacc := (build_reports_nil hbuf).1 hnil
    rw [build_params hbuf, addMapBuffer_of_accepted hacc.mapped]
    exact hacc.mapped.1

/-- Only a mapping with accepted flags is recorded, so the flags need no test of their own. -/
theorem accepted_iff :
    x.Accepted q s site src ↔
      MemoryObject.AcceptsMapping s (.buffer src.buffer) site.addr (x.info site src) ∧
        (EnqueueMapBufferBuilder.tests.Admits q src ∧ x.offset + x.size ≤ src.getSize ∧
          x.wl.Accepted q.context x.blocking) :=
  ⟨fun h => ⟨h.mapped, h.admitted, h.area, h.waitList⟩,
    fun h => ⟨h.2.1, checkMapFlags_of_accepts h.1, h.2.2.1, h.1, h.2.2.2⟩⟩

theorem finish_unchanged_iff (h : x.buf = some (.buffer src)) :
    (Null (finishMap q (·.mapBuf) (EnqueueMapBufferBuilder.build q s site x)).2 →
        (finishMap q (·.mapBuf) (EnqueueMapBufferBuilder.build q s site x)).1 = s) ↔
      ¬ (MemoryObject.AcceptsMapping s (.buffer src.buffer) site.addr (x.info site src) ∧
          ¬ (EnqueueMapBufferBuilder.tests.Admits q src ∧ x.offset + x.size ≤ src.getSize ∧
            x.wl.Accepted q.context x.blocking)) := by
  have hmappings : (finishMap q (·.mapBuf) (EnqueueMapBufferBuilder.build q s site x)).1 = s ↔
      ¬ MemoryObject.AcceptsMapping s (.buffer src.buffer) site.addr (x.info site src) := by
    rw [finishMap, build_params h]
    exact addMapBuffer_mappings
  rw [finish_null, hmappings, Ne, build_reports_nil h, accepted_iff]
  tauto

end MapBufferArgs

namespace MapImageArgs

variable {x : MapImageArgs} {q : QueueInfo} {s : Mappings} {site : MapSite} {img : ImageObject} {o r : Fin 3 → SizeT}

theorem build_enqueues (h : (EnqueueMapImageBuilder.build q s site x).reports = []) :
    q.enqueues (EnqueueMapImageBuilder.build q s site x).waitList = true := by
  have hctx := setWaitList_context h
  exact List.all_eq_true.2 fun ev hev => beq_iff_eq.2 ((hctx ev hev).trans (by rw [setBlocking_eq rfl]; rfl))

theorem checkMapFlags_of_accepts {obj : MemoryObject} (h : obj.AcceptsMapping s site.addr (x.info site img o r)) :
    checkMapFlags img.main.flags x.mapFlags = none := by
  have hflags : x.keptFlags img ≠ 0 := by
    have hne := h.2.1
    simp only [info, EnqueueMapImageBuilder.mapInfo] at hne
    split at hne <;> exact hne
  cases hcheck : checkMapFlags img.main.flags x.mapFlags with
  | none => rfl
  | some rep => simp [keptFlags, hcheck] at hflags

theorem finish_null :
    Null (finishMap q (·.mapBuf) (EnqueueMapImageBuilder.build q s site x)).2 ↔
      (EnqueueMapImageBuilder.build q s site x).reports ≠ [] := by
  refine finishMap_null fun hnil => ⟨build_enqueues hnil, ?_⟩
  cases himg : Mem.image? x.image with
  | none => exact absurd hnil (build_of_no_image himg).2
  | some img =>
    rw [Mem.image?_eq_some] at himg
    obtain ⟨o, r, hacc⟩ := (build_reports_nil himg).1 hnil
    have hparams : (EnqueueMapImageBuilder.build q s site x).params =
        (EnqueueMapImageBuilder.setMapBuffer site (located q s x).params).1 := rfl
    rw [hparams, setMapBuffer_located himg hacc.area, addMapBuffer_of_accepted hacc.mapped]
    exact hacc.mapped.1

theorem accepted_iff :
    x.Accepted q s site img o r ↔
      (x.Area img o r ∧ img.object.AcceptsMapping s site.addr (x.info site img o r)) ∧
        (img.context = q.context ∧ exceedsLimits q.device img.image = false ∧
          q.device.isImageFormatSupported img.image.format = true ∧ x.wl.Accepted q.context x.blocking) :=
  ⟨fun h => ⟨⟨h.area, h.mapped⟩, h.context, h.limits, h.format, h.waitList⟩,
    fun h => ⟨h.2.1, h.2.2.1, h.2.2.2.1, checkMapFlags_of_accepts h.1.2, h.1.1, h.1.2, h.2.2.2.2⟩⟩

theorem finish_unchanged_iff (h : x.image = some (.image img)) :
    (Null (finishMap q (·.mapBuf) (EnqueueMapImageBuilder.build q s site x)).2 →
        (finishMap q (·.mapBuf) (EnqueueMapImageBuilder.build q s site x)).1 = s) ↔
      ∀ o r, ¬ ((x.Area img o r ∧ img.object.AcceptsMapping s site.addr (x.info site img o r)) ∧
        ¬ (img.context = q.context ∧ exceedsLimits q.device img.image = false ∧
            q.device.isImageFormatSupported img.image.format = true ∧ x.wl.Accepted q.context x.blocking)) := by
  rw [finish_null, finishMap, build_mappings h, Ne, build_reports_nil h]
  simp only [accepted_iff, not_exists]
  constructor
  · rintro hcall o r ⟨⟨hor, hmap⟩, hno⟩
    exact hcall (fun o r hacc => hno hacc.2) o r ⟨hor, hmap⟩
  · rintro hno hnone o r ⟨hor, hmap⟩
    exact hno o r ⟨⟨hor, hmap⟩, fun hrest => hnone o r ⟨⟨hor, hmap⟩, hrest⟩⟩

end MapImageArgs

namespace MapRequest

variable {q : QueueInfo} {s : Mappings} {site : MapSite}

theorem buffer_unchanged_iff (x : MapBufferArgs) :
    (Null (clEnqueueMapBuffer (some q) s site x).2 → (clEnqueueMapBuffer (some q) s site x).1 = s) ↔
      ¬ (buffer x).LeavesTrace (some q) s site := by
  simp only [clEnqueueMapBuffer, LeavesTrace]
  split
  · next hfield =>
    refine iff_of_true (fun _ => rfl) ?_
    rintro ⟨_, _, _, ⟨h, _⟩, _⟩
    simp [h] at hfield
  · next hfield =>
    split
    · next hsize =>
      refine iff_of_true (fun _ => rfl) ?_
      rintro ⟨_, _, _, ⟨_, h⟩, _⟩
      exact h hsize
    · next hsize =>
      -- Without a buffer the builder reports it and maps nothing.
      cases hbuf : Mem.buffer? x.buf with
      | none =>
        refine iff_of_true (fun _ => (MapBufferArgs.build_of_no_buffer hbuf).1) ?_
        rintro ⟨_, src, -, -, hsrc, -⟩
        simp [hsrc, Mem.buffer?] at hbuf
      | some src =>
        rw [Mem.buffer?_eq_some] at hbuf
        rw [MapBufferArgs.finish_unchanged_iff hbuf]
        refine not_congr ⟨fun h => ⟨q, src, rfl, ⟨by simpa using hfield, hsize⟩, hbuf, h⟩, ?_⟩
        rintro ⟨q', src', hq, -, hbuf', h⟩
        obtain rfl : q = q' := Option.some.inj hq
        obtain rfl : src = src' := by simpa [hbuf] using hbuf'
        exact h

theorem image_unchanged_iff (x : MapImageArgs) :
    (Null (clEnqueueMapImage (some q) s site x).2 → (clEnqueueMapImage (some q) s site x).1 = s) ↔
      ¬ (image x).LeavesTrace (some q) s site := by
  simp only [clEnqueueMapImage, LeavesTrace]
  split
  · next hfield =>
    refine iff_of_true (fun _ => rfl) ?_
    rintro ⟨_, _, _, _, _, ⟨h, _⟩, _⟩
    simp [h] at hfield
  · next hfield =>
    split
    · next hsupport =>
      refine iff_of_true (fun _ => rfl) ?_
      rintro ⟨_, _, _, _, ⟨⟩, h, _⟩
      simp [h.2] at hsupport
    · next hsupport =>
      -- Without an image the builder reports it and maps nothing.
      cases himg : Mem.image? x.image with
      | none =>
        refine iff_of_true (fun _ => (MapImageArgs.build_of_no_image himg).1) ?_
        rintro ⟨_, img, _, _, -, -, ⟨h, -⟩, -⟩
        simp [h, Mem.image?] at himg
      | some img =>
        rw [Mem.image?_eq_some] at himg
        rw [MapImageArgs.finish_unchanged_iff himg]
        constructor
        · rintro hno ⟨q', img', o, r, hq, -, ⟨himg', hor⟩, hmap, hrest⟩
          obtain rfl : q = q' := Option.some.inj hq
          obtain rfl : img = img' := by simpa [himg] using himg'
          exact hno o r ⟨⟨hor, hmap⟩, hrest⟩
        · rintro hno o r ⟨⟨hor, hmap⟩, hrest⟩
          exact hno ⟨q, img, o, r, rfl, ⟨by simpa using hfield, by simpa using hsupport⟩, ⟨himg, hor⟩, hmap, hrest⟩

/-- A call that returns null leaves the live mappings as they were: if the mapping was not recorded,
or nothing else refused the call. -/
theorem failed_map_unchanged_iff (q : Option QueueInfo) (s : Mappings) (site : MapSite) (req : MapRequest) :
    (Null (req.call q s site).2 → (req.call q s site).1 = s) ↔ ¬ req.LeavesTrace q s site := by
  cases q with
  | none =>
    cases req with
    | buffer x =>
      refine iff_of_true (fun _ => rfl) ?_
      rintro ⟨_, _, ⟨⟩, _⟩
    | image x =>
      refine iff_of_true (fun _ => rfl) ?_
      rintro ⟨_, _, _, _, ⟨⟩, _⟩
  | some q =>
    cases req with
    | buffer x => exact buffer_unchanged_iff x
    | image x => exact image_unchanged_iff x

/-- A mapping of the first 8 bytes of a buffer to read, with a wait list of one event that is not there. -/
def missingEvent : MapRequest :=
  .buffer
    { buf := some (.buffer BufferObject.sixteenBytes)
      blocking := true
      mapFlags := .CL_MAP_READ
      offset := 0
      size := 8
      wl := { n := 1, evs := none } }

/-- The wait list is looked at when the mapping has been recorded. -/
theorem failed_map_recorded :
    ¬ ∀ (q : Option QueueInfo) (s : Mappings) (site : MapSite) (req : MapRequest),
      Null (req.call q s site).2 → (req.call q s site).1 = s := by
  intro hall
  have hsame := hall (some { context := 0, device := CPUDevice.info }) (fun _ => [])
    { addr := 4096, uninit := { offset := fun _ => 0, size := fun _ => 0, flags := 0 } } missingEvent
    fun _ hret => by cases hret
  exact absurd (congrArg List.length (congrFun hsame (.buffer (.main sixteen)))) (by decide)

end MapRequest

end OpenCRun
