import OpenCRun.Core.CommandBuilder
import OpenCRun.Lib.Bytes
import OpenCRun.Lib.Patches
/-!
# Native kernels

A native kernel is a function of the host that is called on a copy of the
bytes of its arguments. Within the copy, the places that the application names
are overwritten with the addresses of memory objects each time the command is
submitted. The builder asks neither whether these places lie within the
arguments nor whether they lie apart.
-/
open Lib Lib.Bytes Lib.Patches

namespace OpenCRun.NativeKernel

/-! ## The builder -/

/-- `EnqueueNativeKernel::MemoryLocations`, a map that is ordered by its keys. -/
abbrev MemoryLocations := List (Int × Mem)

/-- `Locs[Offset] = …` -/
def MemoryLocations.set (offset : Int) (obj : Mem) : MemoryLocations → MemoryLocations
  | [] => [(offset, obj)]
  | (o, x) :: locs =>
    if o < offset then (o, x) :: set offset obj locs
    else if offset < o then (offset, obj) :: (o, x) :: locs
    else (offset, obj) :: locs

/-- The fields of `EnqueueNativeKernelBuilder`; `args` and `size` are `RawArgs`. -/
structure Params where
  func : Option Nat
  args : Option (BitVec 64)
  size : Nat
  locs : MemoryLocations := []
  deriving DecidableEq

abbrev Builder := CommandBuilder Params

def Builder.new (ctx : Nat) (func : Option Nat) (args : Option (BitVec 64)) (size : Nat) : Builder where
  ctx
  params := { func, args, size }
  reports :=
    (if func.isNone then [(.invalidValue, "cannot build a native kernel without a working function")] else []) ++
      (if args.isNone ∧ size ≠ 0 then [(.invalidValue, "expected arguments pointer")] else []) ++
      if args.isSome ∧ size = 0 then [(.invalidValue, "expected arguments size")] else []

/-- The difference of two pointers, a `ptrdiff_t`. -/
def offset (args loc : BitVec 64) : Int := (loc - args).toInt

/-- The loop of `SetMemoryLocations`; it returns at a null object. -/
def pushLocations (args : BitVec 64) : List (Option Mem × BitVec 64) → MemoryLocations → MemoryLocations × Option Report
  | [], locs => (locs, none)
  | (none, _) :: _, locs => (locs, some (.invalidMemObject, "invalid memory object"))
  | (some obj, loc) :: rest, locs => pushLocations args rest (locs.set (offset args loc) obj)

def setMemoryLocations (n : Nat) (memObjs : Option (Nat → Option Mem)) (memLocs : Option (Nat → BitVec 64)) :
    Setter Params := fun p =>
  if (n ≠ 0 ∧ p.args.isNone) ∨ (n = 0 ∧ (memObjs.isSome ∨ memLocs.isSome)) then
    (p, some (.invalidValue, "unexpected memory mappings"))
  else
    match memObjs, memLocs with
    | some objs, some locs =>
      let r := pushLocations (p.args.getD 0) ((List.range n).map fun i => (objs i, locs i)) p.locs
      ({ p with locs := r.1 }, r.2)
    | _, _ => (p, if n ≠ 0 then some (.invalidValue, "expected memory mappings") else none)

/-- `SetWaitList`; no more is asked of the events. -/
def Builder.setWaitList (n : Nat) (evs : Option (Nat → Option WaitEvent)) (b : Builder) : Builder :=
  let base := CommandBuilder.baseWaitList n evs
  { b with waitList := b.waitList ++ base.1, reports := b.reports ++ base.2.toList }

/-- The parameters of `clEnqueueNativeKernel`. -/
structure Call where
  userFunc : Option Nat
  args : Option (BitVec 64)
  cbArgs : Nat
  numMemObjects : Nat
  memList : Option (Nat → Option Mem)
  argsMemLoc : Option (Nat → BitVec 64)
  numEvents : Nat
  eventWaitList : Option (Nat → Option WaitEvent)

/-- The builder's calls in `clEnqueueNativeKernel`. -/
def Call.build (c : Call) (ctx : Nat) : Except CommandErrCode (Built Params) :=
  let b := (Builder.new ctx c.userFunc c.args c.cbArgs).call
    (setMemoryLocations c.numMemObjects c.memList c.argsMemLoc)
  (Builder.setWaitList c.numEvents c.eventWaitList b).create

/-! ## The command -/

structure Command where
  func : Option Nat
  /-- The copy of the arguments. -/
  rawArgs : List (BitVec 8)
  locs : MemoryLocations
  deriving DecidableEq

/-- The constructor of the command copies the arguments from the memory. -/
def Command.new (m : Memory 64) (p : Params) : Command where
  func := p.func
  rawArgs := (p.args.map fun a => load m a p.size).getD []
  locs := p.locs

/-- What `Submit` writes over the copy, where `ptr` is the address that the device has for an object. -/
def patches (ptr : Mem → BitVec 64) (locs : MemoryLocations) : List (Int × List (BitVec 8)) :=
  locs.map fun p => (p.1, toBytes 8 (ptr p.2).toNat)

/-- `CPUDevice::Submit`; `none` where it writes outside of the copy. -/
def Command.submit (cmd : Command) (ptr : Mem → BitVec 64) : Option Command :=
  (patchAll cmd.rawArgs (patches ptr cmd.locs)).map fun rawArgs => { cmd with rawArgs }

/-- A command that no thread takes is submitted again. -/
def Command.submitAll (cmd : Command) (ptrs : List (Mem → BitVec 64)) : Option Command :=
  ptrs.foldlM Command.submit cmd

/-! ## What is accepted -/

namespace Call
variable (c : Call)

/-- The places that are named and their objects, in the order of the arrays. -/
def locations : List (Int × Mem) :=
  (List.range c.numMemObjects).filterMap fun i =>
    match c.memList, c.argsMemLoc with
    | some objs, some locs => (objs i).map (offset (c.args.getD 0) (locs i), ·)
    | _, _ => none

/-- What the builder asks of the arrays. -/
def NamesLocations : Prop :=
  match c.memList, c.argsMemLoc with
  | none, none => c.numMemObjects = 0
  | some objs, some _ => c.numMemObjects ≠ 0 ∧ c.args.isSome = true ∧ ∀ i < c.numMemObjects, (objs i).isSome = true
  | _, _ => False

def WaitsForEvents : Prop :=
  match c.eventWaitList with
  | none => c.numEvents = 0
  | some evs => c.numEvents ≠ 0 ∧ ∀ i < c.numEvents, (evs i).isSome = true

end Call

/-! ## The map of locations -/

namespace MemoryLocations

def Sorted (locs : MemoryLocations) : Prop := locs.Pairwise fun p q => p.1 < q.1

theorem mem_set {locs : MemoryLocations} (h : locs.Sorted) {o : Int} {x : Mem} {p : Int × Mem} :
    p ∈ locs.set o x ↔ p = (o, x) ∨ (p.1 ≠ o ∧ p ∈ locs) := by
  induction locs with
  | nil => simp [set]
  | cons q locs ih =>
    obtain ⟨hq, hsorted⟩ := List.pairwise_cons.1 h
    rw [set]
    split
    · next hlt =>
      rw [List.mem_cons, ih hsorted, List.mem_cons]
      constructor
      · rintro (rfl | hp | ⟨hne, hp⟩)
        · exact .inr ⟨ne_of_lt hlt, .inl rfl⟩
        · exact .inl hp
        · exact .inr ⟨hne, .inr hp⟩
      · rintro (hp | ⟨hne, rfl | hp⟩)
        · exact .inr (.inl hp)
        · exact .inl rfl
        · exact .inr (.inr ⟨hne, hp⟩)
    · next hge =>
      -- What follows has greater offsets.
      have hrest : ∀ r ∈ locs, r.1 ≠ o := fun r hr => by
        have := hq r hr
        omega
      split
      · next hlt =>
        rw [List.mem_cons, List.mem_cons]
        constructor
        · rintro (hp | rfl | hp)
          · exact .inl hp
          · exact .inr ⟨ne_of_gt hlt, .inl rfl⟩
          · exact .inr ⟨hrest p hp, .inr hp⟩
        · rintro (hp | ⟨-, hp⟩)
          · exact .inl hp
          · exact .inr hp
      · next hle =>
        have heq : q.1 = o := by omega
        rw [List.mem_cons, List.mem_cons]
        constructor
        · rintro (hp | hp)
          · exact .inl hp
          · exact .inr ⟨hrest p hp, .inr hp⟩
        · rintro (hp | ⟨hne, rfl | hp⟩)
          · exact .inl hp
          · exact absurd heq hne
          · exact .inr hp

theorem Sorted.set {locs : MemoryLocations} (h : locs.Sorted) (o : Int) (x : Mem) : (locs.set o x).Sorted := by
  induction locs with
  | nil => exact List.pairwise_singleton ..
  | cons q locs ih =>
    obtain ⟨hq, hsorted⟩ := List.pairwise_cons.1 h
    rw [MemoryLocations.set]
    split
    · next hlt =>
      refine List.pairwise_cons.2 ⟨fun r hr => ?_, ih hsorted⟩
      rcases (mem_set hsorted).1 hr with rfl | ⟨-, hr⟩
      · exact hlt
      · exact hq r hr
    · split
      · next hlt =>
        refine List.pairwise_cons.2 ⟨fun r hr => ?_, h⟩
        rcases List.mem_cons.1 hr with rfl | hr
        · exact hlt
        · exact lt_trans hlt (hq r hr)
      · next hge hle =>
        have heq : q.1 = o := by omega
        exact List.pairwise_cons.2 ⟨fun r hr => heq ▸ hq r hr, hsorted⟩

/-- What the assignments leave. -/
def ofList (l : List (Int × Mem)) : MemoryLocations := l.foldl (fun locs p => locs.set p.1 p.2) []

theorem ofList_snoc (l : List (Int × Mem)) (p : Int × Mem) : ofList (l ++ [p]) = (ofList l).set p.1 p.2 := by
  rw [ofList, List.foldl_append]
  rfl

theorem ofList_sorted (l : List (Int × Mem)) : (ofList l).Sorted := by
  induction l using List.reverseRecOn with
  | nil => exact List.Pairwise.nil
  | append_singleton l p ih =>
    rw [ofList_snoc]
    exact ih.set p.1 p.2

/-- The last one of each offset is left. -/
theorem mem_ofList {l : List (Int × Mem)} {p : Int × Mem} :
    p ∈ ofList l ↔ ∃ before after, l = before ++ p :: after ∧ ∀ q ∈ after, q.1 ≠ p.1 := by
  induction l using List.reverseRecOn with
  | nil => simp [ofList]
  | append_singleton l q ih =>
    rw [ofList_snoc, mem_set (ofList_sorted l), ih]
    constructor
    · rintro (rfl | ⟨hne, before, after, rfl, hafter⟩)
      · exact ⟨l, [], rfl, by simp⟩
      · refine ⟨before, after ++ [q], by simp, fun r hr => ?_⟩
        rcases List.mem_append.1 hr with hr | hr
        · exact hafter r hr
        · rw [List.mem_singleton.1 hr]
          exact hne.symm
    · rintro ⟨before, after, hsplit, hafter⟩
      rcases after.eq_nil_or_concat with rfl | ⟨after, r, rfl⟩
      · obtain ⟨-, hq⟩ := List.append_inj' hsplit rfl
        exact .inl (List.singleton_inj.1 hq).symm
      · rw [List.concat_eq_append, ← List.cons_append, ← List.append_assoc] at hsplit
        obtain ⟨rfl, hr⟩ := List.append_inj' hsplit rfl
        obtain rfl := List.singleton_inj.1 hr
        refine .inr ⟨(hafter q (by simp)).symm, before, after, rfl, fun r hr => hafter r (by simp [hr])⟩

end MemoryLocations

/-! ## The calls of the builder -/

theorem new_reports_eq_nil_iff {ctx : Nat} {func : Option Nat} {args : Option (BitVec 64)} {size : Nat} :
    (Builder.new ctx func args size).reports = [] ↔ func.isSome = true ∧ (args = none ↔ size = 0) := by
  cases func <;> cases args <;> by_cases hsize : size = 0 <;> simp [Builder.new, hsize]

theorem pushLocations_eq (args : BitVec 64) (l : List (Option Mem × BitVec 64)) (locs : MemoryLocations) :
    ((pushLocations args l locs).2 = none ↔ ∀ x ∈ l, x.1.isSome = true) ∧
      ((pushLocations args l locs).2 = none → (pushLocations args l locs).1 =
        (l.filterMap fun x => x.1.map (offset args x.2, ·)).foldl (fun locs p => locs.set p.1 p.2) locs) := by
  induction l generalizing locs with
  | nil => exact ⟨by simp [pushLocations], fun _ => rfl⟩
  | cons x l ih =>
    obtain ⟨obj, loc⟩ := x
    cases obj with
    | none => simp [pushLocations]
    | some obj =>
      obtain ⟨hnone, heq⟩ := ih (locs.set (offset args loc) obj)
      refine ⟨?_, heq⟩
      rw [List.forall_mem_cons, pushLocations, hnone]
      simp

theorem setMemoryLocations_eq (c : Call) {p : Params} (hargs : p.args = c.args) (hlocs : p.locs = []) :
    ((setMemoryLocations c.numMemObjects c.memList c.argsMemLoc p).2 = none ↔ c.NamesLocations) ∧
      ((setMemoryLocations c.numMemObjects c.memList c.argsMemLoc p).2 = none →
        (setMemoryLocations c.numMemObjects c.memList c.argsMemLoc p).1 =
          { p with locs := MemoryLocations.ofList c.locations }) := by
  obtain ⟨func, args, size, locs⟩ := p
  obtain rfl : args = c.args := hargs
  obtain rfl : locs = [] := hlocs
  unfold setMemoryLocations Call.NamesLocations Call.locations
  dsimp only
  cases hobjs : c.memList with
  | none =>
    cases hlocations : c.argsMemLoc with
    | none =>
      by_cases hn : c.numMemObjects = 0
      · simp [hn, MemoryLocations.ofList]
      · cases hset : c.args with
        | none => simp [hn]
        | some a => simp [hn]
    | some locs =>
      by_cases hn : c.numMemObjects = 0
      · simp [hn]
      · cases hset : c.args with
        | none => simp [hn]
        | some a => simp [hn]
  | some objs =>
    cases hlocations : c.argsMemLoc with
    | none =>
      by_cases hn : c.numMemObjects = 0
      · simp [hn]
      · cases hset : c.args with
        | none => simp [hn]
        | some a => simp [hn]
    | some locs =>
      by_cases hn : c.numMemObjects = 0
      · simp [hn]
      · cases hset : c.args with
        | none => simp [hn]
        | some a =>
          -- The arrays are gone through.
          obtain ⟨hnone, heq⟩ := pushLocations_eq a ((List.range c.numMemObjects).map fun i => (objs i, locs i)) []
          simp only [hn, ne_eq, not_false_eq_true, Option.isNone_some, Bool.false_eq_true, and_false, false_and,
            or_self, if_false, Option.getD_some, Option.isSome_some, true_and]
          refine ⟨?_, fun h => ?_⟩
          · rw [hnone, List.forall_mem_map]
            simp
          · rw [heq h, List.filterMap_map]
            rfl

theorem baseWaitList_none_iff (c : Call) :
    (CommandBuilder.baseWaitList c.numEvents c.eventWaitList).2 = none ↔ c.WaitsForEvents := by
  unfold CommandBuilder.baseWaitList Call.WaitsForEvents
  cases c.eventWaitList with
  | none => simp
  | some evs =>
    by_cases hn : c.numEvents = 0
    · simp [hn]
    · have hevents := CommandBuilder.pushEvents_forall (fun _ => True) (l := (List.range c.numEvents).map evs)
      simp only [implies_true, and_true] at hevents
      simp [hn, hevents, Option.isSome_iff_exists]

/-- What is accepted, and the fields of its command. -/
theorem build_ok_iff {c : Call} {ctx : Nat} {b : Built Params} : c.build ctx = .ok b ↔
    (c.userFunc.isSome = true ∧ (c.args = none ↔ c.cbArgs = 0) ∧ c.NamesLocations ∧ c.WaitsForEvents) ∧
      b = { params := { func := c.userFunc, args := c.args, size := c.cbArgs, locs := MemoryLocations.ofList c.locations }
            waitList := (CommandBuilder.baseWaitList c.numEvents c.eventWaitList).1 } := by
  obtain ⟨hnone, heq⟩ := setMemoryLocations_eq c
    (p := { func := c.userFunc, args := c.args, size := c.cbArgs }) rfl rfl
  have hreports : ∀ r : Option Report, r.toList = [] ↔ r = none := fun r => Option.toList_eq_nil_iff
  rw [Call.build, CommandBuilder.create_ok_iff]
  dsimp only [Builder.setWaitList, CommandBuilder.call]
  rw [List.append_eq_nil_iff, List.append_eq_nil_iff, hreports, hreports, new_reports_eq_nil_iff,
    baseWaitList_none_iff]
  have hparams : (Builder.new ctx c.userFunc c.args c.cbArgs).params =
      { func := c.userFunc, args := c.args, size := c.cbArgs } := rfl
  rw [hparams, hnone]
  constructor
  · rintro ⟨⟨⟨⟨hfunc, hargs⟩, hlocations⟩, hevents⟩, rfl⟩
    rw [heq (hnone.2 hlocations)]
    exact ⟨⟨hfunc, hargs, hlocations, hevents⟩, rfl⟩
  · rintro ⟨⟨hfunc, hargs, hlocations, hevents⟩, rfl⟩
    rw [heq (hnone.2 hlocations)]
    exact ⟨⟨⟨⟨hfunc, hargs⟩, hlocations⟩, hevents⟩, rfl⟩

/-! ## What the function is called with -/

/-- The eight bytes of the address at the location. -/
def CoversByte (p : Int × Mem) (k : Nat) : Prop := p.1 ≤ k ∧ (k : Int) < p.1 + 8

section Submit
variable {cmd cmd' : Command} {ptr : Mem → BitVec 64}

theorem submit_isSome_iff : (∃ cmd', cmd.submit ptr = some cmd') ↔
    ∀ p ∈ cmd.locs, 0 ≤ p.1 ∧ p.1 + 8 ≤ cmd.rawArgs.length := by
  have hpatch : (∃ cmd', cmd.submit ptr = some cmd') ↔
      ∃ bytes, patchAll cmd.rawArgs (patches ptr cmd.locs) = some bytes := by
    simp [Command.submit]
  rw [hpatch, patchAll_isSome_iff, patches, List.forall_mem_map]
  simp [Inside]

theorem submit_rawArgs (h : cmd.submit ptr = some cmd') :
    patchAll cmd.rawArgs (patches ptr cmd.locs) = some cmd'.rawArgs ∧ cmd'.locs = cmd.locs := by
  obtain ⟨bytes, hbytes, rfl⟩ := Option.map_eq_some_iff.1 h
  exact ⟨hbytes, rfl⟩

/-- The last submission counts. -/
theorem submitAll_snoc (cmd : Command) (ptrs : List (Mem → BitVec 64)) (ptr : Mem → BitVec 64) :
    cmd.submitAll (ptrs ++ [ptr]) = cmd.submit ptr := by
  induction ptrs generalizing cmd with
  | nil =>
    rw [Command.submitAll, List.nil_append, List.foldlM_cons]
    exact Option.bind_fun_some ..
  | cons ptr' ptrs ih =>
    have hplaces : (patches ptr' cmd.locs).map place = (patches ptr cmd.locs).map place := by
      simp [patches, place]
    have hagain : (cmd.submit ptr').bind (·.submit ptr) = cmd.submit ptr := by
      have h : (patchAll cmd.rawArgs (patches ptr' cmd.locs)).bind (patchAll · (patches ptr cmd.locs)) = _ :=
        patchAll_again hplaces
      unfold Command.submit
      rw [← h, Option.map_bind, Option.bind_map]
      rfl
    rw [← hagain]
    exact congrArg (Option.bind _) (funext fun cmd' => ih cmd')

theorem submit_byte_other (h : cmd.submit ptr = some cmd') {k : Nat} (hk : ∀ p ∈ cmd.locs, ¬ CoversByte p k) :
    cmd'.rawArgs[k]? = cmd.rawArgs[k]? := by
  refine getElem?_patchAll_other (submit_rawArgs h).1 ?_
  rw [patches, List.forall_mem_map]
  simpa [Covers, CoversByte] using hk

/-- Of the locations that cover a byte the one at the greatest offset decides. -/
theorem submit_byte (h : cmd.submit ptr = some cmd') (hsorted : MemoryLocations.Sorted cmd.locs) {p : Int × Mem}
    (hp : p ∈ cmd.locs) {k : Nat} (hk : CoversByte p k) (hgreatest : ∀ q ∈ cmd.locs, CoversByte q k → q.1 ≤ p.1) :
    cmd'.rawArgs[k]? = (toBytes 8 (ptr p.2).toNat)[k - p.1.toNat]? := by
  obtain ⟨before, after, hsplit⟩ := List.append_of_mem hp
  have hpatch := (submit_rawArgs h).1
  rw [patches, hsplit, List.map_append, List.map_cons] at hpatch
  refine getElem?_patchAll_covered hpatch (by simpa [Covers, CoversByte] using hk) ?_
  rw [List.forall_mem_map]
  intro q hq hcovers
  have hcovers' : CoversByte q k := by simpa [Covers, CoversByte] using hcovers
  have hle := hgreatest q (by rw [hsplit]; simp [hq]) hcovers'
  -- What follows has greater offsets.
  rw [MemoryLocations.Sorted, hsplit, List.pairwise_append, List.pairwise_cons] at hsorted
  have hlt := hsorted.2.1.1 q hq
  omega

end Submit

section Built
variable {c : Call} {ctx : Nat} {b : Built Params} {m : Memory 64} {ptr : Mem → BitVec 64} {cmd : Command}

theorem locs_of_built (h : c.build ctx = .ok b) : (Command.new m b.params).locs = MemoryLocations.ofList c.locations := by
  rw [(build_ok_iff.1 h).2]
  rfl

/-- The copy has the bytes from the memory. -/
theorem rawArgs_of_built (h : c.build ctx = .ok b) : (Command.new m b.params).rawArgs.length = c.cbArgs ∧
    ∀ a, c.args = some a → (Command.new m b.params).rawArgs = load m a c.cbArgs := by
  obtain ⟨⟨-, hargs, -, -⟩, rfl⟩ := build_ok_iff.1 h
  unfold Command.new
  cases hset : c.args with
  | none => exact ⟨(hargs.1 hset).symm, nofun⟩
  | some a =>
    refine ⟨length_load .., ?_⟩
    rintro _ ⟨⟩
    rfl

theorem mem_locations_of_mem {l : List (Int × Mem)} {p : Int × Mem} (h : p ∈ MemoryLocations.ofList l) : p ∈ l := by
  obtain ⟨before, after, rfl, -⟩ := MemoryLocations.mem_ofList.1 h
  simp

theorem exists_last_mem {l : List (Int × Mem)} {p : Int × Mem} (h : p ∈ l) :
    ∃ before after, l = before ++ p :: after ∧ p ∉ after := by
  obtain ⟨after, before, hsplit, hafter⟩ := List.eq_append_cons_of_mem (List.mem_reverse.2 h)
  refine ⟨before.reverse, after.reverse, ?_, fun hp => hafter (List.mem_reverse.1 hp)⟩
  rw [← List.reverse_reverse l, hsplit]
  simp

theorem exists_offset_mem (l : List (Int × Mem)) {p : Int × Mem} (h : p ∈ l) :
    ∃ q ∈ MemoryLocations.ofList l, q.1 = p.1 := by
  induction l using List.reverseRecOn with
  | nil => cases h
  | append_singleton l r ih =>
    simp only [MemoryLocations.ofList_snoc, MemoryLocations.mem_set (MemoryLocations.ofList_sorted l)]
    by_cases hr : r.1 = p.1
    · exact ⟨r, .inl rfl, hr⟩
    · rcases List.mem_append.1 h with h | h
      · obtain ⟨q, hq, heq⟩ := ih h
        exact ⟨q, .inr ⟨heq ▸ Ne.symm hr, hq⟩, heq⟩
      · exact absurd (congrArg Prod.fst (List.mem_singleton.1 h).symm) hr

theorem forall_offset_iff {l : List (Int × Mem)} (P : Int → Prop) :
    (∀ p ∈ MemoryLocations.ofList l, P p.1) ↔ ∀ p ∈ l, P p.1 := by
  constructor
  · intro h p hp
    obtain ⟨q, hq, heq⟩ := exists_offset_mem l hp
    exact heq ▸ h q hq
  · exact fun h p hp => h p (mem_locations_of_mem hp)

theorem submit_inside_iff (h : c.build ctx = .ok b) : (∃ cmd, (Command.new m b.params).submit ptr = some cmd) ↔
    ∀ p ∈ c.locations, 0 ≤ p.1 ∧ p.1 + 8 ≤ c.cbArgs := by
  rw [submit_isSome_iff, locs_of_built h, (rawArgs_of_built h).1]
  exact forall_offset_iff fun o => 0 ≤ o ∧ o + 8 ≤ c.cbArgs

/-- A byte of the copy, where the locations that cover it have no greater offset, and those after it a smaller one. -/
theorem built_byte (h : c.build ctx = .ok b) (hcmd : (Command.new m b.params).submit ptr = some cmd) {k : Nat}
    {before after : List (Int × Mem)} {p : Int × Mem} (hsplit : c.locations = before ++ p :: after)
    (hk : CoversByte p k) (hbefore : ∀ q ∈ before, CoversByte q k → q.1 ≤ p.1)
    (hafter : ∀ q ∈ after, CoversByte q k → q.1 < p.1) :
    cmd.rawArgs[k]? = (toBytes 8 (ptr p.2).toNat)[k - p.1.toNat]? := by
  have hlocs := locs_of_built (m := m) h
  refine submit_byte hcmd (hlocs ▸ MemoryLocations.ofList_sorted _) ?_ hk fun q hq hcovers => ?_
  · rw [hlocs, MemoryLocations.mem_ofList]
    refine ⟨before, after, hsplit, fun q hq heq => ?_⟩
    have hlt := hafter q hq (by rw [CoversByte, heq]; exact hk)
    omega
  · rw [hlocs] at hq
    have hmem := mem_locations_of_mem hq
    rw [hsplit] at hmem
    rcases List.mem_append.1 hmem with hmem | hmem
    · exact hbefore q hmem hcovers
    · rcases List.mem_cons.1 hmem with rfl | hmem
      · exact le_rfl
      · exact (hafter q hmem hcovers).le

/-- However often a command is submitted, the function is called with the bytes that the arguments had when the
command was created, but for those that a location covers: they are of the address that the last submission had for
the object there. Of locations that overlap the one at the greatest offset counts, of those at one place the last one.
All of this as far as the locations lie within the arguments, and otherwise bytes outside of the copy are written. -/
theorem native_arguments (h : c.build ctx = .ok b) (m : Memory 64) (ptrs : List (Mem → BitVec 64))
    (ptr : Mem → BitVec 64) :
    ((∃ cmd, (Command.new m b.params).submitAll (ptrs ++ [ptr]) = some cmd) ↔
      ∀ p ∈ c.locations, 0 ≤ p.1 ∧ p.1 + 8 ≤ c.cbArgs) ∧
    ∀ cmd, (Command.new m b.params).submitAll (ptrs ++ [ptr]) = some cmd →
      cmd.rawArgs.length = c.cbArgs ∧
      (∀ k a, k < c.cbArgs → c.args = some a → (∀ p ∈ c.locations, ¬ CoversByte p k) →
        cmd.rawArgs[k]? = some (m (a + BitVec.ofNat 64 k))) ∧
      ∀ k before p after, c.locations = before ++ p :: after → CoversByte p k →
        (∀ q ∈ before, CoversByte q k → q.1 ≤ p.1) → (∀ q ∈ after, CoversByte q k → q.1 < p.1) →
          cmd.rawArgs[k]? = (toBytes 8 (ptr p.2).toNat)[k - p.1.toNat]? := by
  rw [submitAll_snoc]
  obtain ⟨hlength, hload⟩ := rawArgs_of_built (m := m) h
  refine ⟨submit_inside_iff h, fun cmd hcmd => ⟨?_, fun k a hk ha hother => ?_, fun k before p after hsplit hk => ?_⟩⟩
  · rw [length_patchAll (submit_rawArgs hcmd).1, hlength]
  · rw [submit_byte_other hcmd, hload a ha, getElem?_load m a hk]
    intro p hp
    rw [locs_of_built h] at hp
    exact hother p (mem_locations_of_mem hp)
  · exact built_byte h hcmd hsplit hk

/-- The function finds at each location the address of the object there, whatever the addresses are, exactly if the
locations lie within the arguments, those at one place have the same object, and others do not overlap. -/
theorem locations_right_iff (h : c.build ctx = .ok b) (m : Memory 64) :
    (∀ ptr, ∃ cmd, (Command.new m b.params).submit ptr = some cmd ∧
      ∀ p ∈ c.locations, (cmd.rawArgs.drop p.1.toNat).take 8 = toBytes 8 (ptr p.2).toNat) ↔
    (∀ p ∈ c.locations, 0 ≤ p.1 ∧ p.1 + 8 ≤ c.cbArgs) ∧
      ∀ p ∈ c.locations, ∀ q ∈ c.locations, (p.1 = q.1 → p.2 = q.2) ∧ (p.1 < q.1 → p.1 + 8 ≤ q.1) := by
  constructor
  · intro hall
    have hinside := (submit_inside_iff h).1 ((hall fun _ => 1).imp fun _ => And.left)
    refine ⟨hinside, fun p hp q hq => ⟨fun heq => ?_, fun hlt => ?_⟩⟩
    · -- Two objects at one place, with two addresses.
      by_contra hne
      obtain ⟨cmd, -, hright⟩ := hall fun x => if x = p.2 then 0 else 1
      have hzero := hright p hp
      have hone := hright q hq
      rw [if_pos rfl, heq] at hzero
      rw [if_neg fun hsame => hne hsame.symm, hzero] at hone
      exact absurd hone (by decide)
    · -- The address 1 has its only nonzero byte at its front.
      by_contra hover
      obtain ⟨cmd, -, hright⟩ := hall fun _ => 1
      have hbytes : toBytes 8 (1 : BitVec 64).toNat = [1, 0, 0, 0, 0, 0, 0, 0] := rfl
      have hbyte : cmd.rawArgs[q.1.toNat]? = some 1 := by
        have hfront := congrArg (·[0]?) (hright q hq)
        rw [hbytes] at hfront
        simpa using hfront
      have hbyte' : cmd.rawArgs[q.1.toNat]? = some 0 := by
        have hp0 := (hinside p hp).1
        obtain ⟨d, hd⟩ : ∃ d : Nat, q.1.toNat = p.1.toNat + d := ⟨q.1.toNat - p.1.toNat, by omega⟩
        have hat := congrArg (·[d]?) (hright p hp)
        rw [hbytes] at hat
        simp only [List.getElem?_take_of_lt (show d < 8 by omega), List.getElem?_drop] at hat
        rw [hd, hat]
        have hpos : 0 < d := by omega
        match d, hpos, (show d < 8 by omega) with
        | 1, _, _ | 2, _, _ | 3, _, _ | 4, _, _ | 5, _, _ | 6, _, _ | 7, _, _ => rfl
      rw [hbyte] at hbyte'
      exact absurd hbyte' (by decide)
  · rintro ⟨hinside, hapart⟩ ptr
    obtain ⟨cmd, hcmd⟩ : ∃ cmd, (Command.new m b.params).submit ptr = some cmd := (submit_inside_iff h).2 hinside
    refine ⟨cmd, hcmd, fun p hp => List.ext_getElem? fun j => ?_⟩
    obtain ⟨before, after, hsplit, hlast⟩ := exists_last_mem hp
    have hp0 := (hinside p hp).1
    by_cases hj : j < 8
    · -- Only locations at the same place cover the byte.
      have hsame : ∀ q ∈ c.locations, CoversByte q (p.1.toNat + j) → q.1 = p.1 := by
        rintro q hq ⟨hle, hlt⟩
        have hpq := (hapart p hp q hq).2
        have hqp := (hapart q hq p hp).2
        omega
      have hcovers : CoversByte p (p.1.toNat + j) := by
        rw [CoversByte]
        omega
      rw [List.getElem?_take_of_lt hj, List.getElem?_drop, built_byte h hcmd hsplit hcovers, Nat.add_sub_cancel_left]
      · exact fun q hq hk => (hsame q (by simp [hsplit, hq]) hk).le
      · intro q hq hk
        have hmem : q ∈ c.locations := by simp [hsplit, hq]
        have heq := hsame q hmem hk
        exact absurd (Prod.ext heq ((hapart q hmem p hp).1 heq) ▸ hq) hlast
    · rw [List.getElem?_eq_none (by rw [List.length_take]; omega), List.getElem?_eq_none (by rw [length_toBytes]; omega)]

end Built

/-- Sixteen bytes of arguments, with a buffer in the second half. -/
def oneLocation : Call where
  userFunc := some 0
  args := some 0x1000
  cbArgs := 16
  numMemObjects := 1
  memList := some fun _ => some (.buffer .sixteenBytes)
  argsMemLoc := some fun _ => 0x1008
  numEvents := 0
  eventWaitList := none

def oneBuilt : Built Params where
  params := { func := some 0, args := some 0x1000, size := 16, locs := [(8, .buffer .sixteenBytes)] }
  waitList := []

theorem oneLocation_build : oneLocation.build 0 = .ok oneBuilt := rfl

theorem native_arguments_one : ∃ cmd,
    (Command.new (fun _ => 7) oneBuilt.params).submitAll ([fun _ => 0x3000] ++ [fun _ => 0x2000]) = some cmd ∧
      cmd.rawArgs[0]? = some 7 ∧ cmd.rawArgs[9]? = some 0x20 := by
  obtain ⟨hinside, hbytes⟩ := native_arguments oneLocation_build (fun _ => 7) [fun _ => 0x3000] fun _ => 0x2000
  obtain ⟨cmd, hcmd⟩ := hinside.2 (by decide)
  obtain ⟨-, hother, hcovered⟩ := hbytes cmd hcmd
  refine ⟨cmd, hcmd, hother 0 0x1000 (by decide) rfl ?_, hcovered 9 [] (8, .buffer .sixteenBytes) [] rfl ?_ ?_ ?_⟩
  · intro p hp
    obtain rfl : p = (8, .buffer .sixteenBytes) := List.mem_singleton.1 hp
    rintro ⟨hle, -⟩
    exact absurd hle (by decide)
  · exact ⟨by decide, by decide⟩
  · exact fun q hq => absurd hq List.not_mem_nil
  · exact fun q hq => absurd hq List.not_mem_nil

theorem locations_right_one : ∃ cmd, (Command.new (fun _ => 0) oneBuilt.params).submit (fun _ => 0x2000) = some cmd ∧
    ∀ p ∈ oneLocation.locations, (cmd.rawArgs.drop p.1.toNat).take 8 = toBytes 8 0x2000 :=
  (locations_right_iff oneLocation_build fun _ => 0).2 ⟨by decide, by decide⟩ fun _ => 0x2000

end OpenCRun.NativeKernel
