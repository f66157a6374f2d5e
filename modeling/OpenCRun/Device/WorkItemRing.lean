import Mathlib.Data.List.Count
import OpenCRun.Device.BlockParallel
import OpenCRun.Device.ExecutionStack
import OpenCRun.Lib.Runs
/-!
# Switching between work-items

`SwitchToNextWorkItem` of `CPUThread.cpp`, and the assembly of
`StackX8664.inc`. A barrier switches to the next work-item. Two rings have to
stay in step: the links between the stacks, and the iterator that goes back to
`Begin` at `End`.
-/
open Lib.Runs Lib.MixedRadix

namespace OpenCRun.WorkItemRing

open ExecutionStack DimensionInfo

/-- The registers and the memory, with `WIStack` of the thread's local storage. -/
structure Cpu where
  rbx : Nat
  r12 : Nat
  r13 : Nat
  r14 : Nat
  r15 : Nat
  rbp : Nat
  rsp : Nat
  rip : Nat
  wiStack : Nat
  mem : Memory

/-- `SwitchWorkItem`, called with its return address on the top of the stack. Its own calls push below
that, where nothing is kept. -/
def switchWorkItem (c : Cpu) : Cpu :=
  -- Get current stack base.
  let rax := c.wiStack
  -- Save standard callee-saved registers.
  let mem := Function.update c.mem (rax - rbxSaveOffset) c.rbx
  let mem := Function.update mem (rax - r12SaveOffset) c.r12
  let mem := Function.update mem (rax - r13SaveOffset) c.r13
  let mem := Function.update mem (rax - r14SaveOffset) c.r14
  let mem := Function.update mem (rax - r15SaveOffset) c.r15
  -- Save stack registers, and the return address that is popped by hand.
  let mem := Function.update mem (rax - rbpSaveOffset) c.rbp
  let mem := Function.update mem (rax - rspSaveOffset) (c.rsp + 8)
  let mem := Function.update mem (rax - retSaveOffset) (mem c.rsp)
  -- Move to the next stack.
  let next := mem rax
  { rbx := mem (next - rbxSaveOffset)
    r12 := mem (next - r12SaveOffset)
    r13 := mem (next - r13SaveOffset)
    r14 := mem (next - r14SaveOffset)
    r15 := mem (next - r15SaveOffset)
    rbp := mem (next - rbpSaveOffset)
    rsp := mem (next - rspSaveOffset)
    rip := mem (next - retSaveOffset)
    wiStack := next
    mem := mem }

/-- The registers are those of a context. -/
structure Cpu.Resumed (c : Cpu) (mem : Memory) (context : Nat) : Prop where
  rbx : c.rbx = mem (context - rbxSaveOffset)
  r12 : c.r12 = mem (context - r12SaveOffset)
  r13 : c.r13 = mem (context - r13SaveOffset)
  r14 : c.r14 = mem (context - r14SaveOffset)
  r15 : c.r15 = mem (context - r15SaveOffset)
  rbp : c.rbp = mem (context - rbpSaveOffset)
  rsp : c.rsp = mem (context - rspSaveOffset)
  rip : c.rip = mem (context - retSaveOffset)

/-- `RunWorkItems`, up to the call of the kernel. -/
def runWorkItems (stack size returnAddress : Nat) (c : Cpu) : Cpu :=
  let stackAddr := top stack size
  let rbp := stackAddr - baseOffset
  let rsp := stackAddr - ptrOffset - 8
  { c with
    wiStack := stackAddr
    -- the thread's own stack is kept in registers that the kernel saves
    r12 := c.rbp
    r13 := c.rsp
    rbp := rbp
    rsp := rsp
    rip := c.mem rbp
    mem := Function.update c.mem rsp returnAddress }

/-- A thread in a work-group, and a log of the contexts that have come to a barrier. -/
structure State where
  cpu : Cpu
  first : DimensionInfoIterator
  last : DimensionInfoIterator
  cur : DimensionInfoIterator
  reached : List Nat := []

/-- `CPUThread::SwitchToNextWorkItem`. -/
def switchToNextWorkItem (di : DimensionInfo) (t : State) : State :=
  let cur := di.addAssign 1 t.cur
  { t with
    cur := if cur = t.last then t.first else cur
    cpu := switchWorkItem t.cpu }

/-- `Barrier`; what the fence does is not seen by one thread. -/
def barrier (di : DimensionInfo) (t : State) : State :=
  switchToNextWorkItem di { t with reached := t.reached ++ [t.cpu.wiStack] }

/-- `Execute` of a block command, up to the start of the first work-item. -/
def execute (hw : Hardware) (ndebug : Bool) (alloc : Allocator) (di : DimensionInfo)
    (block : BlockParallel.NDRangeKernelBlockCPUCommand) (func args returnAddress : Nat) (s : ExecutionStack) (c : Cpu) :
    Option (ExecutionStack × State) :=
  -- Entry point not available, error!
  if func = 0 then none
  else
    let (s, mem, _) := reset hw ndebug alloc func args di.getLocalWorkItems s c.mem
    some (s,
      { first := block.start
        last := block.stop
        cur := block.start
        cpu := runWorkItems s.stack (getPrivateSize hw ndebug) returnAddress { c with mem := mem } })

inductive Label where
  | compute
  | barrier
  deriving DecidableEq

section Runs
variable (base priv n : Nat)

/-- What the code of a work-item may do between two barriers: anything with the registers and with memory
but the contexts of other work-items and the links. -/
structure Computes (t t' : State) : Prop where
  same : t'.first = t.first ∧ t'.last = t.last ∧ t'.cur = t.cur ∧ t'.reached = t.reached
  wiStack : t'.cpu.wiStack = t.cpu.wiStack
  links : ∀ i < n, t'.cpu.mem (topAt base priv i) = t.cpu.mem (topAt base priv i)
  contexts : ∀ i < n, topAt base priv i ≠ t.cpu.wiStack → ∀ c ≤ ptrOffset,
    t'.cpu.mem (topAt base priv i - c) = t.cpu.mem (topAt base priv i - c)

inductive Step (di : DimensionInfo) : State → Label → State → Prop
  | compute (t t' : State) (h : Computes base priv n t t') : Step di t .compute t'
  | barrier (t : State) : Step di t .barrier (barrier di t)

/-- The work-group from some state on. -/
def system (di : DimensionInfo) (t₀ : State) : System State Label where
  init t := t = t₀
  step := Step base priv n di

end Runs

/-! ## One switch -/

section Switch
variable {base priv n : Nat} {c : Cpu}

/-- The words that a switch saves to. -/
theorem switch_mem (hp : 4096 ≤ priv) {i : Nat} (hi : c.wiStack = topAt base priv i) {j d : Nat} (hd : d ≤ ptrOffset)
    (h : j ≠ i ∨ d = 0 ∨ retSaveOffset < d) :
    (switchWorkItem c).mem (topAt base priv j - d) = c.mem (topAt base priv j - d) := by
  have hne : ∀ e, rbxSaveOffset ≤ e → e ≤ retSaveOffset → topAt base priv j - d ≠ c.wiStack - e := by
    intro e he he' heq
    rw [hi] at heq
    obtain ⟨hji, hde⟩ := word_inj hp (context_le hd) (context_le (he'.trans (by decide))) heq
    rcases h with h | h | h
    · exact h hji
    · rw [← hde, h] at he
      exact absurd he (by decide)
    · rw [hde] at h
      exact absurd he' (not_le.2 h)
  unfold switchWorkItem
  simp only
  iterate 8 rw [Function.update_of_ne (hne _ (by decide) (by decide))]

/-- A link stays as it is. -/
theorem switch_link (hp : 4096 ≤ priv) {i : Nat} (hi : c.wiStack = topAt base priv i) (j : Nat) :
    (switchWorkItem c).mem (topAt base priv j) = c.mem (topAt base priv j) :=
  switch_mem hp hi (d := 0) (Nat.zero_le _) (.inr (.inl rfl))

/-- The thread goes on with the context that the link says. -/
theorem switch_wiStack (hp : 4096 ≤ priv) {i : Nat} (hi : c.wiStack = topAt base priv i) :
    (switchWorkItem c).wiStack = c.mem (topAt base priv i) := by
  have h := switch_link hp hi i
  rw [← hi] at h ⊢
  exact h

/-- A work-item that is resumed has the registers of its context, as they were before the switch. -/
theorem switch_resumes (hp : 4096 ≤ priv) {i j : Nat} (hi : c.wiStack = topAt base priv i)
    (hj : c.mem (topAt base priv i) = topAt base priv j) (hij : j ≠ i) :
    (switchWorkItem c).Resumed c.mem (topAt base priv j) := by
  have hw := switch_wiStack hp hi
  rw [hj] at hw
  have hget : ∀ d ≤ ptrOffset, (switchWorkItem c).mem ((switchWorkItem c).wiStack - d) = c.mem (topAt base priv j - d) := by
    intro d hd
    rw [hw]
    exact switch_mem hp hi hd (.inl hij)
  constructor <;> exact hget _ (by decide)

end Switch

/-! ## Any number of switches -/

/-- Positions up to the end are told apart by their iterators. -/
theorem position_inj {di : DimensionInfo} (h : di.Divided) {m n : Nat} (hm : m < di.globalSizes.prod)
    (hn : n ≤ di.globalSizes.prod) (he : di.position m = di.position n) : m = n := by
  rcases Nat.lt_or_eq_of_le hn with hlt | rfl
  · rw [position_eq hm, position_eq hlt] at he
    exact h.iterAt_inj hm hlt he
  · have hend : di.position di.globalSizes.prod = di.endIter := if_neg (Nat.lt_irrefl _)
    rw [hend] at he
    exact absurd he (h.position_ne_end hm)

/-- From the first work-item of a group to another one of it. -/
theorem addAssign_within {di : DimensionInfo} (h : di.Divided) {g r : Nat} (hg : g < di.groupCounts.prod)
    (hr : r < di.localSizes.prod) :
    di.addAssign r (di.position (di.localSizes.prod * g)) = di.position (di.localSizes.prod * g + r) := by
  have hlt := hr.trans h.localProd
  have hfirst : di.localSizes.prod * g < di.globalSizes.prod := by
    have := h.group_lt hg
    omega
  rw [addAssign, toUnsigned, Nat.mod_eq_of_lt hlt, position, if_pos hfirst]
  apply h.advance_iterAt hfirst
  · right
    rw [Nat.mul_mod_right, Nat.zero_add]
    exact hlt
  · rw [Nat.mul_mod_right, Nat.zero_add]
    exact hr.le

section Ring
variable {base priv : Nat} {di : DimensionInfo}

/-- After `k` switches in the work-group `g`: the stack that runs, the iterator, and the barriers that each
work-item has come to. -/
structure InRing (base priv : Nat) (di : DimensionInfo) (g k : Nat) (t : State) : Prop where
  running : t.cpu.wiStack = topAt base priv (k % di.localSizes.prod)
  links : ∀ i < di.localSizes.prod,
    t.cpu.mem (topAt base priv i) = topAt base priv ((i + 1) % di.localSizes.prod)
  first : t.first = di.position (di.localSizes.prod * g)
  last : t.last = di.position (di.localSizes.prod * (g + 1))
  cur : t.cur = di.position (di.localSizes.prod * g + k % di.localSizes.prod)
  reached : ∀ j < di.localSizes.prod, t.reached.count (topAt base priv j) =
    k / di.localSizes.prod + if j < k % di.localSizes.prod then 1 else 0

theorem topAt_inj (hp : 4096 ≤ priv) {i j : Nat} (h : topAt base priv i = topAt base priv j) : i = j :=
  (word_inj hp (c := 0) (d := 0) (Nat.zero_le _) (Nat.zero_le _) h).1

/-- Counting on: either round the ring, or within the round. -/
theorem succ_round (k : Nat) {n : Nat} (hn : 0 < n) :
    k % n + 1 = n ∧ (k + 1) % n = 0 ∧ (k + 1) / n = k / n + 1 ∨
      k % n + 1 < n ∧ (k + 1) % n = k % n + 1 ∧ (k + 1) / n = k / n := by
  have hlt := Nat.mod_lt k hn
  have hdm := Nat.div_add_mod k n
  rcases Nat.lt_or_eq_of_le (Nat.succ_le_of_lt hlt) with hr | hr
  · right
    have heq : k + 1 = k % n + 1 + n * (k / n) := by omega
    refine ⟨hr, ?_, ?_⟩
    · rw [heq, Nat.add_mul_mod_self_left, Nat.mod_eq_of_lt hr]
    · rw [heq, Nat.add_mul_div_left _ _ hn, Nat.div_eq_of_lt hr, Nat.zero_add]
  · left
    have heq : k + 1 = n * (k / n + 1) := by
      rw [Nat.mul_add_one]
      omega
    refine ⟨hr, ?_, ?_⟩
    · rw [heq, Nat.mul_mod_right]
    · rw [heq, Nat.mul_div_cancel_left _ hn]

/-- The barriers come to, one after the other round the ring. -/
theorem succ_count (k : Nat) {n j : Nat} (hj : j < n) :
    (k / n + if j < k % n then 1 else 0) + (if j = k % n then 1 else 0) =
      (k + 1) / n + if j < (k + 1) % n then 1 else 0 := by
  rcases succ_round k (Nat.zero_lt_of_lt hj) with ⟨hround, hmod, hdiv⟩ | ⟨hround, hmod, hdiv⟩
  · -- all have come to the barrier
    rw [hmod, hdiv, if_neg (Nat.not_lt_zero j)]
    by_cases he : j = k % n
    · rw [if_pos he, if_neg (by omega)]
    · rw [if_neg he, if_pos (by omega)]
  · rw [hmod, hdiv]
    by_cases he : j = k % n
    · rw [if_pos he, if_neg (by omega), if_pos (by omega)]
    · rw [if_neg he, Nat.add_zero]
      congr 1
      by_cases hlt : j < k % n
      · rw [if_pos hlt, if_pos (by omega)]
      · rw [if_neg hlt, if_neg (by omega)]

theorem barrier_count (hp : 4096 ≤ priv) {t : State} {i : Nat} (hi : t.cpu.wiStack = topAt base priv i) (j : Nat) :
    (barrier di t).reached.count (topAt base priv j) = t.reached.count (topAt base priv j) + if j = i then 1 else 0 := by
  simp only [WorkItemRing.barrier, switchToNextWorkItem, List.count_append, List.count_singleton, hi, beq_iff_eq]
  congr 1
  by_cases he : j = i
  · rw [if_pos he, he, if_pos rfl]
  · rw [if_neg he, if_neg fun ht => he (topAt_inj hp ht).symm]

/-- The iterator goes from the last work-item of the group back to the first. -/
theorem InRing.next_cur (h : di.Divided) {g k : Nat} (hg : g < di.groupCounts.prod) {t : State}
    (hr : InRing base priv di g k t) :
    (barrier di t).cur = di.position (di.localSizes.prod * g + (k + 1) % di.localSizes.prod) := by
  have hn := h.localProd_pos
  have hlt := Nat.mod_lt k hn
  have hle := h.group_lt hg
  have hcur : di.addAssign 1 t.cur = di.position (di.localSizes.prod * g + k % di.localSizes.prod + 1) := by
    rw [hr.cur]
    exact h.addAssign_one (by omega)
  have hend : di.localSizes.prod * (g + 1) = di.localSizes.prod * g + di.localSizes.prod := Nat.mul_add_one _ _
  have htotal : di.localSizes.prod * (g + 1) ≤ di.globalSizes.prod := by
    rw [← prod_groupCounts h.dvd]
    exact Nat.mul_le_mul_left _ hg
  have hdef : (barrier di t).cur = if di.addAssign 1 t.cur = t.last then t.first else di.addAssign 1 t.cur := rfl
  rw [hdef, hcur, hr.last, hr.first]
  rcases succ_round k hn with ⟨hround, hmod, -⟩ | ⟨hround, hmod, -⟩
  · rw [if_pos (by rw [hend]; congr 1; omega), hmod, Nat.add_zero]
  · rw [if_neg, hmod, Nat.add_assoc]
    intro he
    have := position_inj h (by omega) htotal he
    omega

theorem InRing.next (hp : 4096 ≤ priv) (h : di.Divided) {g k : Nat} (hg : g < di.groupCounts.prod) {t : State}
    (hr : InRing base priv di g k t) : InRing base priv di g (k + 1) (barrier di t) := by
  have hlt := Nat.mod_lt k h.localProd_pos
  have hnext : (barrier di t).cpu.wiStack = topAt base priv ((k % di.localSizes.prod + 1) % di.localSizes.prod) :=
    (switch_wiStack hp hr.running).trans (hr.links _ hlt)
  refine ⟨?_, fun i hi => ?_, hr.first, hr.last, hr.next_cur h hg, fun j hj => ?_⟩
  · rw [hnext, Nat.mod_add_mod]
  · exact (switch_link hp hr.running i).trans (hr.links i hi)
  · rw [barrier_count hp hr.running, hr.reached j hj]
    exact succ_count k hj

theorem InRing.compute {g k : Nat} {t t' : State} (hr : InRing base priv di g k t)
    (hc : Computes base priv di.localSizes.prod t t') : InRing base priv di g k t' := by
  obtain ⟨hfirst, hlast, hcur, hreached⟩ := hc.same
  refine ⟨hc.wiStack.trans hr.running, fun i hi => (hc.links i hi).trans (hr.links i hi), hfirst.trans hr.first,
    hlast.trans hr.last, hcur.trans hr.cur, fun j hj => ?_⟩
  rw [hreached]
  exact hr.reached j hj

theorem InRing.run (hp : 4096 ≤ priv) (h : di.Divided) {g : Nat} (hg : g < di.groupCounts.prod) {start t₀ t : State}
    {k : Nat} (h₀ : InRing base priv di g 0 t₀)
    (hrun : Taking (system base priv di.localSizes.prod di start) (· = .barrier) k t₀ t) : InRing base priv di g k t := by
  induction hrun with
  | refl => exact h₀
  | mine _ hl hstep ih =>
    subst hl
    cases hstep
    exact (ih h₀).next hp h hg
  | other _ hl hstep ih =>
    cases hstep with
    | compute _ hc => exact (ih h₀).compute hc
    | barrier => exact absurd rfl hl

/-- A work-group that starts on a ring of stacks. -/
theorem InRing.start (hp : 4096 ≤ priv) (h : di.Divided) {g : Nat} (hg : g < di.groupCounts.prod) {mem : Memory}
    {func args : Nat} (hring : ExecutionStack.Ring base priv func args di.localSizes.prod mem)
    (returnAddress : Nat) (c : Cpu) :
    InRing base priv di g 0
      { first := (BlockParallel.block di (di.position (di.localSizes.prod * g))).start
        last := (BlockParallel.block di (di.position (di.localSizes.prod * g))).stop
        cur := (BlockParallel.block di (di.position (di.localSizes.prod * g))).start
        cpu := runWorkItems base priv returnAddress { c with mem := mem } } := by
  have htop : top base priv = topAt base priv 0 := by
    simp only [topAt, stackAt, Nat.zero_mul, Nat.add_zero]
  refine ⟨?_, fun i hi => ?_, rfl, h.addAssign_group hg, ?_, fun j hj => ?_⟩
  · rw [Nat.zero_mod]
    exact htop
  · -- the return address is below the context of the first stack
    have hne : topAt base priv i ≠ top base priv - ptrOffset - 8 := by
      intro he
      rw [htop, Nat.sub_sub] at he
      have := (word_inj hp (c := 0) (d := ptrOffset + 8) (Nat.zero_le _) (by decide) he).2
      exact absurd this (by decide)
    exact (Function.update_of_ne hne ..).trans (hring.links i hi)
  · rw [Nat.zero_mod, Nat.add_zero]
    rfl
  · simp

end Ring

/-- The group's stacks do not overlap and lie in the area, their links go round all of them, and after any
number of barriers, with any code of the work-items in between: the stack that runs and the iterator are
those of one work-item, no work-item has passed a barrier that another has not come to, and the next one
goes on from its own context. -/
theorem work_item_ring {ctx : Nat} {kern : Option Kernel} {workDim : Nat}
    {globalWorkOffset globalWorkSize localWorkSize : Option (Nat → Nat)} {numEvents : Nat}
    {eventWaitList : Option (Nat → Option Nat)} {cmd : EnqueueNDRangeKernel}
    (hok : (clEnqueueNDRangeKernel ctx CPUDevice.cpuDevice kern workDim globalWorkOffset globalWorkSize localWorkSize
      numEvents eventWaitList).ok = true)
    (hcmd : (clEnqueueNDRangeKernel ctx CPUDevice.cpuDevice kern workDim globalWorkOffset globalWorkSize localWorkSize
      numEvents eventWaitList).val = .ok cmd)
    {g : Nat} (hg : g < cmd.dimInfo.groupCounts.prod) (hw : Hardware) (ndebug : Bool) (alloc : Allocator)
    {func : Nat} (hfunc : func ≠ 0) (args returnAddress : Nat) (s : ExecutionStack) (c : Cpu) :
    let di := cmd.dimInfo
    let n := di.getLocalWorkItems
    let block := BlockParallel.block di (di.position (di.localSizes.prod * g))
    let priv := getPrivateSize hw ndebug
    ∃ s' t₀, execute hw ndebug alloc di block func args returnAddress s c = some (s', t₀) ∧ 0 < n ∧
      (∀ i < n, s'.stack ≤ stackAt s'.stack priv i ∧
        stackAt s'.stack priv i + priv ≤ s'.stack + s'.stackSize ∧
        ∀ j < i, stackAt s'.stack priv j + priv ≤ stackAt s'.stack priv i) ∧
      (∀ i < n, t₀.cpu.mem (topAt s'.stack priv i) = topAt s'.stack priv ((i + 1) % n)) ∧
      ∀ k t, Taking (system s'.stack priv n di t₀) (· = .barrier) k t₀ t →
        t.cpu.wiStack = topAt s'.stack priv (k % n) ∧ t.cur = di.addAssign (k % n) block.start ∧
        (∀ j < n, t.reached.count (topAt s'.stack priv j) = k / n + if j < k % n then 1 else 0) ∧
        (∀ j < n, t.reached.count t.cpu.wiStack ≤ t.reached.count (topAt s'.stack priv j)) ∧
        ((k + 1) % n ≠ k % n → (barrier di t).cpu.Resumed t.cpu.mem (topAt s'.stack priv ((k + 1) % n))) := by
  intro di n block priv
  have h : di.Divided := CPUDevice.accepted_divided hok hcmd
  have hn : n = di.localSizes.prod := getLocalWorkItems_eq.trans (Nat.mod_eq_of_lt h.localProd)
  have hpos : 0 < n := hn ▸ h.localProd_pos
  have hlt : n < 2 ^ 32 := hn ▸ h.localProd
  have hp : 4096 ≤ priv := private_large hw ndebug
  have hring := reset_ring hw ndebug alloc func args s c.mem hpos
  have hinside := fun i (hi : i < n) => reset_inside hw ndebug alloc func args s c.mem hlt hi.le
  generalize hreset : reset hw ndebug alloc func args n s c.mem = r at hring hinside
  obtain ⟨s', mem, readOnly⟩ := r
  have h₀ := InRing.start hp h hg (hn ▸ hring) returnAddress c
  refine ⟨s', State.mk (runWorkItems s'.stack priv returnAddress { c with mem := mem }) block.start block.stop block.start [],
    ?_, hpos, fun i hi => ?_, fun i hi => ?_, fun k t hrun => ?_⟩
  · simp only [execute, if_neg hfunc]
    rw [hreset]
  · obtain ⟨h1, h2, -⟩ := hinside i hi
    refine ⟨h1, ?_, fun j hj => stackAt_lt _ _ hj⟩
    rw [← stackAt_succ]
    exact h2 hi
  · have := h₀.links i (hn ▸ hi)
    rwa [← hn] at this
  · rw [hn] at hrun
    obtain ⟨hrunning, hlinks, -, -, hcur, hcount⟩ := h₀.run hp h hg hrun
    have hr : k % n < n := Nat.mod_lt k hpos
    rw [← hn] at hrunning hlinks hcur hcount
    refine ⟨hrunning, ?_, hcount, fun j hj => ?_, fun hne => ?_⟩
    · rw [hcur, hn]
      exact (addAssign_within h hg (hn ▸ hr)).symm
    · rw [hrunning, hcount j hj, hcount _ hr, if_neg (Nat.lt_irrefl _)]
      exact Nat.le_add_right _ _
    · apply switch_resumes hp hrunning _ hne
      rw [hlinks _ hr, Nat.mod_add_mod]

/-- Pages of 4096 bytes, and any code and any registers. -/
theorem work_item_ring_square : ∃ (cmd : EnqueueNDRangeKernel) (s' : ExecutionStack) (t₀ : State), (BlockParallel.square 64 16).val = .ok cmd ∧
    cmd.dimInfo.getLocalWorkItems = 16 ∧
    (∀ k t, Taking (system s'.stack 4096 16 cmd.dimInfo t₀) (· = .barrier) k t₀ t →
      t.cpu.wiStack = topAt s'.stack 4096 (k % 16)) := by
  have hok : (BlockParallel.square 64 16).ok = true := by decide
  have hfunc : (1 : Nat) ≠ 0 := by decide
  obtain ⟨s', t₀, -, -, -, -, hrun⟩ := work_item_ring hok rfl (g := 0) (by decide)
    ⟨4096, le_rfl, by decide⟩ true (fun _ => ⟨65536, by decide⟩) hfunc 0 0
    ⟨65536, 4096, by decide⟩ ⟨0, 0, 0, 0, 0, 0, 0, 0, 0, fun _ => 0⟩
  exact ⟨_, s', t₀, rfl, by decide, fun k t hk => (hrun k t hk).1⟩

end OpenCRun.WorkItemRing
