import Mathlib.Data.List.Basic
import Mathlib.Logic.Function.Basic
import OpenCRun.Util.DimensionInfo
/-!
# Stacks of work-items

`ExecutionStack` of `CPUThread.cpp` over `StackX8664.inc`. One allocated area
holds a private stack for each work-item of a group. The words at its high end
are the context that `SwitchWorkItem` saves and restores, the highest of them
the address of the next work-item's context. An area does not wrap around the
address space, so sums of addresses are not cut.
-/
namespace OpenCRun

/-- The area of a thread. The allocations are asserted to succeed. -/
structure ExecutionStack where
  stack : Nat
  stackSize : Nat
  allocated : stack ≠ 0

namespace ExecutionStack

/-- What the words of a memory hold, by address. -/
abbrev Memory := Nat → Nat

structure Hardware where
  pageSize : Nat
  page_le : 4096 ≤ pageSize
  le_page : pageSize ≤ 2 ^ 30

/-- `PageAlignedAlloc`: where an area of some size is allocated. -/
abbrev Allocator := Nat → { address : Nat // address ≠ 0 }

/-- The code of `WorkItemLauncher`. -/
def workItemLauncher : Nat := 1

section Sizes
variable (hw : Hardware) (ndebug : Bool)

/-- `getPrivateSize`. With assertions, the first of two pages is a guard. -/
def getPrivateSize : Nat := toSize ((if ndebug then 1 else 1 + 1) * hw.pageSize)

def getRequiredStackSize (n : Nat) : Nat := toSize (toSize (n * getPrivateSize hw ndebug) + hw.pageSize)

end Sizes

/-! ## A context

The offsets are from the highest word of a stack, downwards. -/

def nextOffset : Nat := 0
def rbxSaveOffset : Nat := nextOffset + 8
def r12SaveOffset : Nat := rbxSaveOffset + 8
def r13SaveOffset : Nat := r12SaveOffset + 8
def r14SaveOffset : Nat := r13SaveOffset + 8
def r15SaveOffset : Nat := r14SaveOffset + 8
def rbpSaveOffset : Nat := r15SaveOffset + 8
def rspSaveOffset : Nat := rbpSaveOffset + 8
def retSaveOffset : Nat := rspSaveOffset + 8
def baseOffset : Nat := retSaveOffset + 8
def kernFuncOffset : Nat := baseOffset + 0
def kernArgsOffset : Nat := kernFuncOffset + 8
def ptrOffset : Nat := kernArgsOffset + 8

/-- The highest word of a stack. -/
def top (stack size : Nat) : Nat := stack + (size - 8)

def initWorkItemStack (mem : Memory) (stack size entry args : Nat) : Memory :=
  let stackAddr := top stack size
  let mem := Function.update mem (stackAddr - rbpSaveOffset) (stackAddr - baseOffset)
  let mem := Function.update mem (stackAddr - rspSaveOffset) (stackAddr - ptrOffset)
  let mem := Function.update mem (stackAddr - retSaveOffset) workItemLauncher
  let mem := Function.update mem (stackAddr - kernFuncOffset) entry
  Function.update mem (stackAddr - kernArgsOffset) args

def setWorkItemStackLink (mem : Memory) (stack prevStack size : Nat) : Memory :=
  Function.update mem (top prevStack size - nextOffset) (top stack size)

/-! ## Laying out the stacks -/

/-- The variables of the loop in `Reset`, and the pages it makes read-only. -/
structure Layout where
  mem : Memory
  addr : Nat
  prevAddr : Nat
  readOnly : List Nat

def layoutStep (ndebug : Bool) (privateSize entry args : Nat) (l : Layout) : Layout :=
  let mem := initWorkItemStack l.mem l.addr privateSize entry args
  let mem := if l.prevAddr ≠ 0 then setWorkItemStackLink mem l.addr l.prevAddr privateSize else mem
  { mem := mem
    addr := l.addr + privateSize
    prevAddr := l.addr
    readOnly := if ndebug then l.readOnly else l.readOnly ++ [l.addr] }

def layout (ndebug : Bool) (privateSize entry args n : Nat) (mem : Memory) (baseAddr : Nat) : Layout :=
  (List.range n).foldl (fun l _ => layoutStep ndebug privateSize entry args l)
    { mem := mem, addr := baseAddr, prevAddr := 0, readOnly := [] }

/-- Stack too small, expand it. -/
def grow (hw : Hardware) (ndebug : Bool) (alloc : Allocator) (n : Nat) (s : ExecutionStack) : ExecutionStack :=
  let required := getRequiredStackSize hw ndebug n
  if s.stackSize < required then
    { stack := alloc required, stackSize := required, allocated := (alloc required).property }
  else s

/-- `Reset`: the area, the memory, and the pages that are read-only after it. -/
def reset (hw : Hardware) (ndebug : Bool) (alloc : Allocator) (entry args n : Nat) (s : ExecutionStack)
    (mem : Memory) : ExecutionStack × Memory × List Nat :=
  let privateSize := getPrivateSize hw ndebug
  let s := grow hw ndebug alloc n s
  let mem := if ndebug then mem else fun a => if s.stack ≤ a ∧ a < s.stack + s.stackSize then 0 else mem a
  let l := layout ndebug privateSize entry args n mem s.stack
  let mem := setWorkItemStackLink l.mem s.stack l.prevAddr privateSize
  (s, mem, if ndebug then l.readOnly else l.readOnly ++ [l.addr])

/-! ## Sizes -/

section Sizes
variable (hw : Hardware) (ndebug : Bool)

theorem getPrivateSize_eq : getPrivateSize hw ndebug = (if ndebug then 1 else 2) * hw.pageSize := by
  have := hw.le_page
  apply Nat.mod_eq_of_lt
  split <;> omega

theorem page_le_private : hw.pageSize ≤ getPrivateSize hw ndebug := by
  rw [getPrivateSize_eq]
  split <;> omega

theorem private_le : getPrivateSize hw ndebug ≤ 2 ^ 31 := by
  have := hw.le_page
  rw [getPrivateSize_eq]
  split <;> omega

theorem getRequiredStackSize_eq {n : Nat} (hn : n < 2 ^ 32) :
    getRequiredStackSize hw ndebug n = n * getPrivateSize hw ndebug + hw.pageSize := by
  have hp := private_le hw ndebug
  have hpage := hw.le_page
  have hmul : n * getPrivateSize hw ndebug ≤ 2 ^ 32 * 2 ^ 31 := Nat.mul_le_mul hn.le hp
  have h1 : toSize (n * getPrivateSize hw ndebug) = n * getPrivateSize hw ndebug := Nat.mod_eq_of_lt (by omega)
  rw [getRequiredStackSize, h1]
  exact Nat.mod_eq_of_lt (by omega)

/-- The area is large enough after it has grown. -/
theorem grow_size (alloc : Allocator) (s : ExecutionStack) {n : Nat} (hn : n < 2 ^ 32) :
    n * getPrivateSize hw ndebug + hw.pageSize ≤ (grow hw ndebug alloc n s).stackSize := by
  unfold grow
  simp only [getRequiredStackSize_eq hw ndebug hn]
  split
  · exact Nat.le_refl _
  · rename_i h
    exact Nat.le_of_not_lt h

end Sizes

/-! ## Where the words are -/

section Places
variable {base priv : Nat}

/-- The stack of a work-item. -/
def stackAt (base priv i : Nat) : Nat := base + i * priv

def topAt (base priv i : Nat) : Nat := top (stackAt base priv i) priv

theorem stackAt_succ (base priv i : Nat) : stackAt base priv (i + 1) = stackAt base priv i + priv := by
  unfold stackAt
  rw [Nat.add_one_mul, Nat.add_assoc]

theorem stackAt_mono (base priv : Nat) {i j : Nat} (h : i ≤ j) : stackAt base priv i ≤ stackAt base priv j :=
  Nat.add_le_add_left (Nat.mul_le_mul_right priv h) base

/-- A stack ends before a later one begins. -/
theorem stackAt_lt (base priv : Nat) {i j : Nat} (h : i < j) : stackAt base priv i + priv ≤ stackAt base priv j := by
  rw [← stackAt_succ]
  exact stackAt_mono base priv h

theorem context_le {c : Nat} (h : c ≤ ptrOffset) : c ≤ 4088 := h.trans (by decide)

/-- The words of the highest page lie in the stack they belong to. -/
theorem word_within (base : Nat) (hp : 4096 ≤ priv) {c : Nat} (hc : c ≤ 4088) (i : Nat) :
    stackAt base priv i ≤ topAt base priv i - c ∧ topAt base priv i - c < stackAt base priv i + priv := by
  unfold topAt top
  omega

/-- Different words have different addresses, in one stack and in two. -/
theorem word_inj (hp : 4096 ≤ priv) {c d i j : Nat} (hc : c ≤ 4088) (hd : d ≤ 4088)
    (h : topAt base priv i - c = topAt base priv j - d) : i = j ∧ c = d := by
  have hi := word_within base hp hc i
  have hj := word_within base hp hd j
  have hij : i = j := by
    rcases Nat.lt_trichotomy i j with hlt | heq | hlt
    · have := stackAt_lt base priv hlt
      omega
    · exact heq
    · have := stackAt_lt base priv hlt
      omega
  subst hij
  refine ⟨rfl, ?_⟩
  unfold topAt top at h
  omega

end Places

/-! ## What the layout leaves -/

section Laid
variable {base priv entry args : Nat}

/-- A context that starts the kernel. -/
structure Ready (base priv entry args : Nat) (mem : Memory) (i : Nat) : Prop where
  rbp : mem (topAt base priv i - rbpSaveOffset) = topAt base priv i - baseOffset
  rsp : mem (topAt base priv i - rspSaveOffset) = topAt base priv i - ptrOffset
  ret : mem (topAt base priv i - retSaveOffset) = workItemLauncher
  func : mem (topAt base priv i - kernFuncOffset) = entry
  args : mem (topAt base priv i - kernArgsOffset) = args

/-- Every word but five is left alone. -/
theorem init_frame (mem : Memory) {a stackAddr : Nat} {stack size : Nat} (ht : top stack size = stackAddr)
    (h : ∀ c, rbpSaveOffset ≤ c → c ≤ ptrOffset → a ≠ stackAddr - c) :
    initWorkItemStack mem stack size entry args a = mem a := by
  subst ht
  unfold initWorkItemStack
  iterate 5 rw [Function.update_of_ne (h _ (by decide) (by decide))]

theorem init_ready (hp : 4096 ≤ priv) (mem : Memory) (i : Nat) :
    Ready base priv entry args (initWorkItemStack mem (stackAt base priv i) priv entry args) i := by
  have hne : ∀ c d, c ≤ ptrOffset → d ≤ ptrOffset → c ≠ d → topAt base priv i - c ≠ topAt base priv i - d :=
    fun c d hc hd hcd h => hcd (word_inj hp (context_le hc) (context_le hd) h).2
  have ht : top (stackAt base priv i) priv = topAt base priv i := rfl
  -- a word is written once, and by none of the writes after it
  constructor <;> simp only [initWorkItemStack, ht]
  all_goals
    repeat rw [Function.update_of_ne (hne _ _ (by decide) (by decide) (by decide))]
    exact Function.update_self ..

/-- What the words of a stack that differ from the link are after some of the stacks were laid out. -/
theorem Ready.frame {mem mem' : Memory} {i : Nat} (h : Ready base priv entry args mem i)
    (hw : ∀ c, rbpSaveOffset ≤ c → c ≤ ptrOffset → mem' (topAt base priv i - c) = mem (topAt base priv i - c)) :
    Ready base priv entry args mem' i where
  rbp := (hw _ (by decide) (by decide)).trans h.rbp
  rsp := (hw _ (by decide) (by decide)).trans h.rsp
  ret := (hw _ (by decide) (by decide)).trans h.ret
  func := (hw _ (by decide) (by decide)).trans h.func
  args := (hw _ (by decide) (by decide)).trans h.args

/-- Laying out a stack leaves the contexts of the others alone, and every link. -/
theorem init_word (hp : 4096 ≤ priv) (mem : Memory) {i n c : Nat} (hc : c ≤ ptrOffset) (hor : i ≠ n ∨ c = 0) :
    initWorkItemStack mem (stackAt base priv n) priv entry args (topAt base priv i - c) = mem (topAt base priv i - c) := by
  have ht : top (stackAt base priv n) priv = topAt base priv n := rfl
  apply init_frame mem ht
  intro d hd hd' he
  obtain ⟨hi, hcd⟩ := word_inj hp (context_le hc) (context_le hd') he
  rcases hor with hne | h0
  · exact hne hi
  · rw [← hcd, h0] at hd
    exact absurd hd (by decide)

/-- Linking a stack to the next writes the first word of its context. -/
theorem link_word (hp : 4096 ≤ priv) (mem : Memory) (next : Nat) {i j c : Nat} (hc : c ≤ ptrOffset) :
    setWorkItemStackLink mem next (stackAt base priv j) priv (topAt base priv i - c) =
      if i = j ∧ c = 0 then top next priv else mem (topAt base priv i - c) := by
  have hiff : topAt base priv i - c = top (stackAt base priv j) priv - nextOffset ↔ i = j ∧ c = 0 := by
    constructor
    · exact fun he => word_inj hp (context_le hc) (d := nextOffset) (j := j) (by decide) he
    · rintro ⟨rfl, rfl⟩
      rfl
  simp only [setWorkItemStackLink, Function.update_apply, hiff]

/-- The words after the link, of any stack. -/
theorem link_frame (hp : 4096 ≤ priv) (mem : Memory) (next : Nat) {i j c : Nat} (hc : rbpSaveOffset ≤ c)
    (hc' : c ≤ ptrOffset) :
    setWorkItemStackLink mem next (stackAt base priv j) priv (topAt base priv i - c) = mem (topAt base priv i - c) := by
  rw [link_word hp mem next hc', if_neg]
  rintro ⟨-, rfl⟩
  exact absurd hc (by decide)

/-- The link of a stack. -/
theorem link_next (hp : 4096 ≤ priv) (mem : Memory) (next : Nat) {i j : Nat} :
    setWorkItemStackLink mem next (stackAt base priv j) priv (topAt base priv i) =
      if i = j then top next priv else mem (topAt base priv i) := by
  have h : setWorkItemStackLink mem next (stackAt base priv j) priv (topAt base priv i - 0) = _ :=
    link_word hp mem next (Nat.zero_le ptrOffset)
  simpa only [Nat.sub_zero, and_true] using h

structure Laid (ndebug : Bool) (base priv entry args n : Nat) (l : Layout) : Prop where
  addr : l.addr = stackAt base priv n
  prev : l.prevAddr = if n = 0 then 0 else stackAt base priv (n - 1)
  links : ∀ i, i + 1 < n → l.mem (topAt base priv i) = topAt base priv (i + 1)
  ready : ∀ i < n, Ready base priv entry args l.mem i
  readOnly : l.readOnly = if ndebug then [] else (List.range n).map (stackAt base priv)

/-- The memory after one more stack, linked to the one before it. -/
theorem layoutStep_mem {ndebug : Bool} (hbase : base ≠ 0) {n : Nat} {l : Layout}
    (h : Laid ndebug base priv entry args n l) :
    (layoutStep ndebug priv entry args l).mem =
      if n = 0 then initWorkItemStack l.mem (stackAt base priv n) priv entry args
      else setWorkItemStackLink (initWorkItemStack l.mem (stackAt base priv n) priv entry args) (stackAt base priv n)
        (stackAt base priv (n - 1)) priv := by
  simp only [layoutStep, h.addr, h.prev]
  by_cases h0 : n = 0
  · simp only [h0, if_true, ne_eq, not_true_eq_false, if_false]
  · have hprev : stackAt base priv (n - 1) ≠ 0 := by
      unfold stackAt
      omega
    simp only [h0, if_false, ne_eq, hprev, not_false_eq_true, if_true]

theorem layoutStep_laid {ndebug : Bool} (hp : 4096 ≤ priv) (hbase : base ≠ 0) {n : Nat} {l : Layout}
    (h : Laid ndebug base priv entry args n l) :
    Laid ndebug base priv entry args (n + 1) (layoutStep ndebug priv entry args l) := by
  have hmem := layoutStep_mem hbase h
  have hready : ∀ i < n + 1,
      Ready base priv entry args (initWorkItemStack l.mem (stackAt base priv n) priv entry args) i := by
    intro i hi
    rcases Nat.lt_succ_iff_lt_or_eq.1 hi with hlt | rfl
    · exact (h.ready i hlt).frame fun c _ hc' => init_word hp l.mem hc' (.inl hlt.ne)
    · exact init_ready hp l.mem i
  refine ⟨?_, ?_, fun i hi => ?_, fun i hi => ?_, ?_⟩
  · simp only [layoutStep, h.addr, stackAt_succ]
  · simp only [layoutStep, h.addr, Nat.add_one_ne_zero, if_false, Nat.add_sub_cancel]
  · have h0 : n ≠ 0 := by omega
    rw [hmem, if_neg h0, link_next hp]
    split
    · rename_i hlast
      rw [hlast, Nat.sub_add_cancel (Nat.one_le_iff_ne_zero.2 h0)]
      rfl
    · rename_i hlast
      exact (init_word hp l.mem (Nat.zero_le _) (.inr rfl)).trans (h.links i (by omega))
  · rw [hmem]
    split
    · exact hready i hi
    · exact (hready i hi).frame fun c hc hc' => link_frame hp _ _ hc hc'
  · simp only [layoutStep, h.readOnly, h.addr]
    cases ndebug
    · simp [List.range_succ]
    · rfl

theorem layout_laid (ndebug : Bool) (entry args : Nat) (hp : 4096 ≤ priv) (hbase : base ≠ 0) (mem : Memory) (n : Nat) :
    Laid ndebug base priv entry args n (layout ndebug priv entry args n mem base) := by
  induction n with
  | zero =>
    refine ⟨(Nat.add_zero _).symm.trans (by simp [layout, stackAt]), rfl, fun i hi => absurd hi (Nat.not_lt_zero _),
      fun i hi => absurd hi (Nat.not_lt_zero _), ?_⟩
    cases ndebug <;> rfl
  | succ n ih =>
    have hstep := layoutStep_laid hp hbase ih
    unfold layout at hstep ⊢
    rw [List.range_succ, List.foldl_append]
    exact hstep

end Laid

/-! ## Reset -/

/-- The stacks of `n` work-items, linked in a ring, each ready to start. -/
structure Ring (base priv entry args n : Nat) (mem : Memory) : Prop where
  links : ∀ i < n, mem (topAt base priv i) = topAt base priv ((i + 1) % n)
  ready : ∀ i < n, Ready base priv entry args mem i

section Reset
variable (hw : Hardware) (ndebug : Bool) (alloc : Allocator) (entry args : Nat) (s : ExecutionStack) (mem : Memory)

theorem private_large : 4096 ≤ getPrivateSize hw ndebug := hw.page_le.trans (page_le_private hw ndebug)

theorem reset_ring {n : Nat} (hn : 0 < n) :
    Ring (reset hw ndebug alloc entry args n s mem).1.stack (getPrivateSize hw ndebug) entry args n
      (reset hw ndebug alloc entry args n s mem).2.1 := by
  have hp := private_large hw ndebug
  simp only [reset]
  generalize hs : grow hw ndebug alloc n s = s'
  generalize (if ndebug then mem else fun a => if s'.stack ≤ a ∧ a < s'.stack + s'.stackSize then 0 else mem a) = mem₀
  have h := layout_laid ndebug entry args hp s'.allocated mem₀ n
  generalize layout ndebug (getPrivateSize hw ndebug) entry args n mem₀ s'.stack = l at h
  have hprev : l.prevAddr = stackAt s'.stack (getPrivateSize hw ndebug) (n - 1) := by
    rw [h.prev, if_neg (Nat.ne_of_gt hn)]
  have hfirst : top s'.stack (getPrivateSize hw ndebug) = topAt s'.stack (getPrivateSize hw ndebug) 0 := by
    simp only [topAt, stackAt, Nat.zero_mul, Nat.add_zero]
  rw [hprev]
  constructor
  · intro i hi
    rw [link_next hp]
    by_cases he : i + 1 = n
    · rw [if_pos (by omega), hfirst, he, Nat.mod_self]
    · rw [if_neg (by omega), Nat.mod_eq_of_lt (by omega)]
      exact h.links i (by omega)
  · exact fun i hi => (h.ready i hi).frame fun c hc hc' => link_frame hp _ _ hc hc'

/-- Each stack lies in the area, and so does the page after the last one. -/
theorem reset_inside {n : Nat} (hn : n < 2 ^ 32) {i : Nat} (hi : i ≤ n) :
    let s' := (reset hw ndebug alloc entry args n s mem).1
    s'.stack ≤ stackAt s'.stack (getPrivateSize hw ndebug) i ∧
      (i < n → stackAt s'.stack (getPrivateSize hw ndebug) (i + 1) ≤ s'.stack + s'.stackSize) ∧
      stackAt s'.stack (getPrivateSize hw ndebug) i + hw.pageSize ≤ s'.stack + s'.stackSize := by
  intro s'
  have hsize : n * getPrivateSize hw ndebug + hw.pageSize ≤ s'.stackSize := grow_size hw ndebug alloc s hn
  have hmono := stackAt_mono s'.stack (getPrivateSize hw ndebug) hi
  have hend : stackAt s'.stack (getPrivateSize hw ndebug) n = s'.stack + n * getPrivateSize hw ndebug := rfl
  refine ⟨Nat.le_add_right _ _, fun hlt => ?_, by omega⟩
  have hnext := stackAt_mono s'.stack (getPrivateSize hw ndebug) (Nat.succ_le_of_lt hlt)
  exact hnext.trans (by omega)

/-- With assertions, the pages made read-only are the first of each stack and the one after the last. -/
theorem reset_readOnly {n : Nat} :
    (reset hw ndebug alloc entry args n s mem).2.2 =
      if ndebug then []
      else (List.range (n + 1)).map
        (stackAt (reset hw ndebug alloc entry args n s mem).1.stack (getPrivateSize hw ndebug)) := by
  simp only [reset]
  generalize grow hw ndebug alloc n s = s'
  generalize (if ndebug then mem else fun a => if s'.stack ≤ a ∧ a < s'.stack + s'.stackSize then 0 else mem a) = mem₀
  have h := layout_laid ndebug entry args (private_large hw ndebug) s'.allocated mem₀ n
  rw [h.readOnly, h.addr]
  cases ndebug
  · simp [List.range_succ]
  · rfl

/-- No word of a context is in a page that is read-only. -/
theorem word_not_readOnly {base n c i : Nat} (hc : c ≤ ptrOffset) {page : Nat}
    (h : page ∈ (List.range (n + 1)).map (stackAt base (getPrivateSize hw false))) :
    ¬ (page ≤ topAt base (getPrivateSize hw false) i - c ∧
      topAt base (getPrivateSize hw false) i - c < page + hw.pageSize) := by
  obtain ⟨j, -, rfl⟩ := List.mem_map.1 h
  have hp := getPrivateSize_eq hw false
  simp only [Bool.false_eq_true, if_false] at hp
  have hpage := hw.page_le
  have hc' : c ≤ 88 := hc
  rintro ⟨h1, h2⟩
  have hi := word_within base (private_large hw false) (context_le hc) i
  have hij : i = j := by
    rcases Nat.lt_trichotomy i j with hlt | heq | hlt
    · have := stackAt_lt base (getPrivateSize hw false) hlt
      omega
    · exact heq
    · have := stackAt_lt base (getPrivateSize hw false) hlt
      omega
  subst hij
  unfold topAt top at h2
  omega

end Reset

end ExecutionStack

end OpenCRun
