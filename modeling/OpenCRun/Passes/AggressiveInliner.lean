import Mathlib.Data.List.Nodup
import OpenCRun.Lib.Worklist
import OpenCRun.Util.ModuleInfo
/-!
# The functions that the inliner visits

`AggressiveInliner::doInitialization` goes through the call graph from the
kernels that are selected. The functions that it does not see are not inlined,
and no calls in them are.
-/
open Lib

namespace OpenCRun.AggressiveInliner
open ModuleInfo

/-! ## Call graphs -/

section Modules
variable (M : Module)

def isDefined (f : Nat) : Bool :=
  match M.functions[f]? with
  | some F => !F.isDeclaration
  | none => false

/-- Of a call graph, the functions of the nodes that each node calls. The null
function is what a call goes to that is not to a function of the module by its
name, or that a declaration makes. The node that is found for it is that of the
external callers, which calls the functions that are visible from outside. -/
structure CallGraph where
  callees : Option Nat → List (Option Nat)
  inModule : ∀ f g, some g ∈ callees f → g < M.functions.length
  declaration : ∀ f g, isDefined M f = false → some g ∉ callees (some f)

/-- Two functions of a module have one name only if they have none. -/
def NamesUnique : Prop :=
  ∀ (i j : Nat) (F G : Function), M.functions[i]? = some F → M.functions[j]? = some G → F.name = G.name → F.name ≠ "" → i = j

/-- The function of the kernel with the name, if the module has one, or of any kernel. -/
def Selected (kernel : String) (f : Nat) : Prop :=
  ∃ d ∈ M.kernelDefs, d.function = some f ∧ ((kernel ≠ "" ∧ ∃ d ∈ M.kernelDefs, M.Named d kernel) → M.Named d kernel)

end Modules

variable {M : Module} (CG : CallGraph M)

namespace CallGraph

def Visible (f : Nat) : Prop := some f ∈ CG.callees none

/-- A call that is made in the module to one of its functions. -/
def Calls (f g : Nat) : Prop := some g ∈ CG.callees (some f)

/-- The function makes a call that is not known to be to a function of the module. -/
def CallsOutside (f : Nat) : Prop := none ∈ CG.callees (some f)

def Reached (kernel : String) (f : Nat) : Prop := ∃ r, Selected M kernel r ∧ Relation.ReflTransGen CG.Calls r f

end CallGraph

/-! ## The pass -/

section Pass
variable (M) (kernel : String)

/-- `Kernel != "" && Info.contains(Kernel)` -/
def hasKernel : Checked (Option Bool) := if kernel ≠ "" then M.contains kernel else pure (some false)

def roots : Checked (Option (List (Option Nat))) := do
  match ← hasKernel M kernel with
  | none => pure none
  | some true => do
    let info ← M.get kernel
    pure (info.map fun info => [info.kernel])
  | some false => do
    let infos ← M.enumerate
    pure (infos.map (List.map KernelInfo.kernel))

def notVisit (visited : List (Option Nat)) : List Nat :=
  (List.range M.functions.length).filter fun f => isDefined M f && decide (some f ∉ visited)

end Pass

/-- What `NotVisit` is, if the loop has come to its end after so many turns. In the
loop over the callees `CurFun` is another variable, so what is marked behind it
is the function whose callees they are. -/
def doInitialization (kernel : String) (turns : Nat) : Checked (Option (List Nat)) := do
  let toVisit ← roots M kernel
  pure (toVisit.bind fun toVisit => (Worklist.runFiltered CG.callees turns toVisit.reverse []).map (notVisit M))

/-- The loop ends, and leaves the functions that are defined and not reached. -/
structure FiltersRightly (kernel : String) : Prop where
  terminates : ∃ turns fs, doInitialization CG kernel turns = pure (some fs)
  exact : ∀ turns fs, doInitialization CG kernel turns = pure (some fs) →
    ∀ f, f ∈ fs ↔ isDefined M f = true ∧ ¬ CG.Reached kernel f

/-! ## The roots -/

theorem isDefined_lt {f : Nat} (h : isDefined M f = true) : f < M.functions.length := by
  by_contra hf
  rw [isDefined, List.getElem?_eq_none (Nat.le_of_not_lt hf)] at h
  cases h

theorem kernelDefs_function (henum : M.isSPIR = true → M.openclKernels = some []) :
    ∀ d ∈ M.kernelDefs, ∃ f, d.function = some f ∧ f < M.functions.length := by
  intro d hd
  cases hmode : M.isSPIR with
  | false =>
    rw [kernelDefs_marked hmode] at hd
    obtain ⟨k, hk, rfl⟩ := List.mem_map.1 hd
    exact ⟨k, rfl, lt_of_isKernel (List.of_mem_filter hk)⟩
  | true =>
    unfold Module.kernelDefs at hd
    rw [hmode, if_pos rfl, henum hmode] at hd
    cases hd

theorem Named.function_eq {d d' : KernelDef} {name : String} (hnames : NamesUnique M) (hname : name ≠ "")
    (h : M.Named d name) (h' : M.Named d' name) : d.function = d'.function := by
  obtain ⟨f, F, hf, hF, rfl⟩ := h
  obtain ⟨g, G, hg, hG, hsame⟩ := h'
  rw [hf, hg, hnames f g F G hF hG hsame.symm hname]

theorem forall₂_function {ds : List KernelDef} {infos : List KernelInfo} (h : List.Forall₂ M.Describes ds infos) :
    infos.map KernelInfo.kernel = ds.map KernelDef.function := by
  induction h with
  | nil => rfl
  | cons hdesc _ ih => rw [List.map_cons, List.map_cons, ih, hdesc.function]

/-- The work list at the start has the functions that are selected. -/
theorem roots_eq (henum : M.Enumerates) (hnames : NamesUnique M) (kernel : String) :
    ∃ rs, roots M kernel = pure (some rs) ∧ ∀ x, x ∈ rs ↔
      ∃ d ∈ M.kernelDefs, d.function = x ∧ ((kernel ≠ "" ∧ ∃ d ∈ M.kernelDefs, M.Named d kernel) → M.Named d kernel) := by
  obtain ⟨infos, hinfos, hdescribes, -⟩ := henum.kernels
  by_cases hnamed : kernel ≠ "" ∧ ∃ d ∈ M.kernelDefs, M.Named d kernel
  · obtain ⟨hcontains, info, hget, d, hd, hdname, hdesc⟩ := (henum.finds kernel).get hnamed.2
    refine ⟨[info.kernel], ?_, fun x => ?_⟩
    · unfold roots hasKernel
      rw [if_pos hnamed.1, hcontains, pure_bind]
      dsimp only
      rw [hget]
      rfl
    · rw [List.mem_singleton, hdesc.function]
      constructor
      · rintro rfl
        exact ⟨d, hd, rfl, fun _ => hdname⟩
      · rintro ⟨d', -, rfl, hname⟩
        exact Named.function_eq hnames hnamed.1 (hname hnamed) hdname
  · have hcontains : hasKernel M kernel = pure (some false) := by
      unfold hasKernel
      split
      next hne => exact (henum.finds kernel).contains_eq_false fun hd => hnamed ⟨hne, hd⟩
      next => rfl
    refine ⟨infos.map KernelInfo.kernel, ?_, fun x => ?_⟩
    · unfold roots
      rw [hcontains, pure_bind]
      dsimp only
      rw [hinfos]
      rfl
    · rw [forall₂_function hdescribes, List.mem_map]
      exact exists_congr fun d => and_congr_right fun _ => (and_iff_left fun h => absurd h hnamed).symm

theorem not_ok_of_begin (h : M.begin'.ok = false) (kernel : String) : (roots M kernel).ok = false := by
  have henum : M.enumerate.ok = false := by
    unfold Module.enumerate
    rw [Checked.ok_bind, h, Bool.false_and]
  have hcontains : (M.contains kernel).ok = false := by
    unfold Module.contains Module.find
    rw [Checked.ok_bind, Checked.ok_bind, h, Bool.false_and, Bool.false_and]
  unfold roots hasKernel
  rw [Checked.ok_bind]
  split
  next => rw [hcontains, Bool.false_and]
  next =>
    rw [Checked.ok_pure, Bool.true_and, Checked.val_pure]
    dsimp only
    rw [Checked.ok_bind, henum, Bool.false_and]

/-! ## What the loop sees -/

section Loop
variable {CG} {kernel : String}

def nodes (M : Module) : List (Option Nat) := none :: (List.range M.functions.length).map some

theorem mem_nodes {x : Option Nat} : x ∈ nodes M ↔ ∀ f, x = some f → f < M.functions.length := by
  cases x with
  | none => exact iff_of_true List.mem_cons_self nofun
  | some f => simp [nodes]

theorem callees_mem_nodes (x : Option Nat) : ∀ y ∈ CG.callees x, y ∈ nodes M := by
  rintro y hy
  rw [mem_nodes]
  rintro g rfl
  exact CG.inModule x g hy

theorem reaches_of_calls {f g : Nat} (h : Relation.ReflTransGen CG.Calls f g) :
    Worklist.Reaches CG.callees (some f) (some g) :=
  h.lift some fun _ _ hcall => hcall

theorem CallGraph.Reached.tail {f g : Nat} (h : CG.Reached kernel f) (hcall : CG.Calls f g) : CG.Reached kernel g := by
  obtain ⟨r, hr, hpath⟩ := h
  exact ⟨r, hr, hpath.tail hcall⟩

/-- A function that is reached calls something that is not known. -/
def ReachesOutside (CG : CallGraph M) (kernel : String) : Prop := ∃ f, CG.Reached kernel f ∧ CG.CallsOutside f

/-- Of the visible functions, none is seen for the first time from outside. -/
def SeesReached (CG : CallGraph M) (kernel : String) : Prop :=
  ReachesOutside CG kernel → ∀ g, CG.Visible g → isDefined M g = true → CG.Reached kernel g

/-- A node that is seen is a function that is reached, or else it is seen from outside and is not defined. -/
theorem reached_of_reaches (hsees : SeesReached CG kernel) {r : Nat} (hr : Selected M kernel r) {x : Option Nat}
    (h : Worklist.Reaches CG.callees (some r) x) :
    (∃ f, x = some f ∧ CG.Reached kernel f) ∨
      (ReachesOutside CG kernel ∧ ∀ f, x = some f → isDefined M f = false) := by
  induction h with
  | refl => exact .inl ⟨r, rfl, r, hr, .refl⟩
  | @tail x y _ hstep ih =>
    rcases ih with ⟨f, rfl, hf⟩ | ⟨hout, hundef⟩
    · cases y with
      | none => exact .inr ⟨⟨f, hf, hstep⟩, nofun⟩
      | some g => exact .inl ⟨g, rfl, hf.tail hstep⟩
    · rcases y with _ | g
      · exact .inr ⟨hout, nofun⟩
      · cases x with
        | none =>
          cases hg : isDefined M g with
          | true => exact .inl ⟨g, rfl, hsees hout g hstep hg⟩
          | false =>
            refine .inr ⟨hout, ?_⟩
            rintro _ ⟨⟩
            exact hg
        | some f => exact absurd hstep (CG.declaration f g (hundef f rfl))

theorem reaches_of_visible (hout : ReachesOutside CG kernel) {g : Nat} (hg : CG.Visible g) :
    ∃ r, Selected M kernel r ∧ Worklist.Reaches CG.callees (some r) (some g) := by
  obtain ⟨f, ⟨r, hr, hpath⟩, hcalls⟩ := hout
  exact ⟨r, hr, ((reaches_of_calls hpath).tail hcalls).tail hg⟩

theorem mem_notVisit {visited : List (Option Nat)} {f : Nat} :
    f ∈ notVisit M visited ↔ isDefined M f = true ∧ some f ∉ visited := by
  unfold notVisit
  rw [List.mem_filter, List.mem_range, Bool.and_eq_true, decide_eq_true_eq]
  exact and_iff_right_of_imp fun h => isDefined_lt h.1

end Loop

/-! ## The functions that are not visited -/

section Enumerated
variable (kernel : String) (henum : M.isSPIR = true → M.openclKernels = some []) (hnames : NamesUnique M)
include henum hnames

/-- The functions that are left are those that no way in the call graph leads to. -/
theorem doInitialization_eq : ∃ rs : List (Option Nat), (∀ x ∈ rs, x ∈ nodes M) ∧
    (∀ turns, doInitialization CG kernel turns =
      pure ((Worklist.runFiltered CG.callees turns rs []).map (notVisit M))) ∧
    ∀ x, (∃ r ∈ rs, Worklist.Reaches CG.callees r x) ↔
      ∃ r, Selected M kernel r ∧ Worklist.Reaches CG.callees (some r) x := by
  obtain ⟨rs, hroots, hmem⟩ := roots_eq (enumerates_of_unlisted henum) hnames kernel
  have hsome : ∀ x ∈ rs, ∃ f, x = some f ∧ f < M.functions.length := by
    intro x hx
    obtain ⟨d, hd, rfl, -⟩ := (hmem x).1 hx
    exact kernelDefs_function henum d hd
  refine ⟨rs.reverse, fun x hx => ?_, fun turns => ?_, fun x => ?_⟩
  · obtain ⟨f, rfl, hf⟩ := hsome x (List.mem_reverse.1 hx)
    rw [mem_nodes]
    rintro _ ⟨⟩
    exact hf
  · unfold doInitialization
    rw [hroots, pure_bind]
    rfl
  · constructor
    · rintro ⟨r, hr, hpath⟩
      obtain ⟨f, rfl, -⟩ := hsome r (List.mem_reverse.1 hr)
      exact ⟨f, (hmem _).1 (List.mem_reverse.1 hr), hpath⟩
    · rintro ⟨r, hr, hpath⟩
      exact ⟨some r, List.mem_reverse.2 ((hmem _).2 hr), hpath⟩

theorem doInitialization_terminates : ∃ turns fs, doInitialization CG kernel turns = pure (some fs) := by
  obtain ⟨rs, hnodes, hrun, -⟩ := doInitialization_eq CG kernel henum hnames
  obtain ⟨turns, out, hout⟩ := Worklist.runFiltered_isSome (fun x _ => callees_mem_nodes x) hnodes
  exact ⟨turns, notVisit M out, by rw [hrun, hout, Option.map_some]⟩

variable {CG kernel} in
theorem mem_of_doInitialization {turns : Nat} {fs : List Nat} (h : doInitialization CG kernel turns = pure (some fs))
    (f : Nat) : f ∈ fs ↔
      isDefined M f = true ∧ ¬ ∃ r, Selected M kernel r ∧ Worklist.Reaches CG.callees (some r) (some f) := by
  obtain ⟨rs, -, hrun, hreaches⟩ := doInitialization_eq CG kernel henum hnames
  rw [hrun] at h
  obtain ⟨out, hout, rfl⟩ := Option.map_eq_some_iff.1 (congrArg Checked.val h)
  rw [mem_notVisit, Worklist.mem_runFiltered hout, hreaches]

end Enumerated

/-- Where the kernels are enumerated, the functions are those that are not reached
if and only if no visible function is seen for the first time from outside. -/
theorem filtersRightly_iff (hnames : NamesUnique M) (kernel : String) :
    FiltersRightly CG kernel ↔ (M.isSPIR = true → M.openclKernels = some []) ∧ SeesReached CG kernel := by
  constructor
  · rintro ⟨⟨turns, fs, hfs⟩, hexact⟩
    have henum : M.isSPIR = true → M.openclKernels = some [] := by
      intro hmode
      have hok : (roots M kernel).ok = true := by
        have h := congrArg Checked.ok hfs
        unfold doInitialization at h
        rw [Checked.ok_bind, Checked.ok_pure, Bool.and_true, Checked.ok_pure] at h
        exact h
      by_contra hks
      rw [not_ok_of_begin (begin_not_ok hmode hks)] at hok
      cases hok
    refine ⟨henum, fun hout g hvisible hdefined => ?_⟩
    by_contra hreached
    have hleft : g ∈ fs := (hexact turns fs hfs g).2 ⟨hdefined, hreached⟩
    exact ((mem_of_doInitialization henum hnames hfs g).1 hleft).2 (reaches_of_visible hout hvisible)
  · rintro ⟨henum, hsees⟩
    refine ⟨doInitialization_terminates CG kernel henum hnames, fun turns fs hfs f => ?_⟩
    rw [mem_of_doInitialization henum hnames hfs f]
    refine and_congr_right fun hdefined => not_congr ⟨?_, ?_⟩
    · rintro ⟨r, hr, hpath⟩
      rcases reached_of_reaches hsees hr hpath with ⟨_, ⟨⟩, hf⟩ | ⟨-, hundef⟩
      · exact hf
      · rw [hundef f rfl] at hdefined
        cases hdefined
    · rintro ⟨r, hr, hpath⟩
      exact ⟨r, hr, reaches_of_calls hpath⟩

theorem namesUnique_of_nodup (h : (M.functions.map Function.name).Nodup) : NamesUnique M := by
  intro i j F G hF hG hname _
  obtain ⟨hi, rfl⟩ := List.getElem?_eq_some_iff.1 hF
  obtain ⟨hj, rfl⟩ := List.getElem?_eq_some_iff.1 hG
  have hlength : (M.functions.map Function.name).length = M.functions.length := List.length_map _
  refine (@List.Nodup.getElem_inj_iff _ _ h i (hlength ▸ hi) j (hlength ▸ hj)).1 ?_
  rw [List.getElem_map, List.getElem_map, hname]

/-! ### Two modules -/

/-- A kernel that calls a function that calls itself, and a function that calls the kernel. -/
def recursiveModule : Module where
  targetTriple := "x86_64-unknown-linux-gnu"
  functions := [⟨"k", false, .spirKernel, []⟩, ⟨"f", false, .spirFunc, []⟩, ⟨"unused", false, .spirFunc, []⟩]
  openclKernels := none

def recursiveGraph : CallGraph recursiveModule where
  callees
    | none => [some 0, some 1, some 2]
    | some 0 => [some 1]
    | some 1 => [some 1]
    | some 2 => [some 0]
    | some _ => []
  inModule f g h := by
    rcases f with _ | _ | _ | _ | f <;> simp at h <;> rcases h with rfl | rfl | rfl <;> decide
  declaration f g h := by
    rcases f with _ | _ | _ | f
    · cases h
    · cases h
    · cases h
    · exact List.not_mem_nil

theorem unused_filtered : FiltersRightly recursiveGraph "" :=
  (filtersRightly_iff recursiveGraph (namesUnique_of_nodup (by decide)) "").2
    ⟨nofun, fun ⟨f, _, hout⟩ => by rcases f with _ | _ | _ | f <;> simp [CallGraph.CallsOutside, recursiveGraph] at hout⟩

/-- A kernel that asks for its id, and a function that nothing calls. -/
def idModule : Module where
  targetTriple := "x86_64-unknown-linux-gnu"
  functions := [⟨"k", false, .spirKernel, []⟩, ⟨"get_global_id", true, .spirFunc, []⟩, ⟨"unused", false, .spirFunc, []⟩]
  openclKernels := none

def idGraph : CallGraph idModule where
  callees
    | none => [some 0, some 1, some 2]
    | some 0 => [some 1]
    | some 1 => [none]
    | some _ => []
  inModule f g h := by
    rcases f with _ | _ | _ | f <;> simp at h <;> rcases h with rfl | rfl | rfl <;> decide
  declaration f g h := by
    rcases f with _ | _ | f
    · cases h
    · simp
    · exact List.not_mem_nil

theorem unused_not_reached : ¬ idGraph.Reached "k" 2 := by
  rintro ⟨r, ⟨d, hd, hr, -⟩, hpath⟩
  have hkernel : r = 0 := by
    have hdefs : idModule.kernelDefs = [.ofFunction idModule 0] := rfl
    rw [hdefs, List.mem_singleton] at hd
    subst hd
    cases hr
    rfl
  -- From the kernel, only what is declared is called.
  have hseen : ∀ f, Relation.ReflTransGen idGraph.Calls 0 f → f = 0 ∨ f = 1 := by
    intro f hf
    induction hf with
    | refl => exact .inl rfl
    | tail _ hcall ih => rcases ih with rfl | rfl <;> simp_all [CallGraph.Calls, idGraph]
  subst hkernel
  rcases hseen 2 hpath with h | h <;> cases h

/-- The function is not left, because the call to a declaration leads to it. -/
theorem unused_visited : ¬ FiltersRightly idGraph "k" ∧ doInitialization idGraph "k" 6 = pure (some []) := by
  have hrun : doInitialization idGraph "k" 6 = pure (some []) := rfl
  refine ⟨fun h => ?_, hrun⟩
  exact absurd ((h.exact 6 [] hrun 2).2 ⟨rfl, unused_not_reached⟩) List.not_mem_nil

end OpenCRun.AggressiveInliner
