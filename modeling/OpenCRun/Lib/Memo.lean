import Mathlib.Logic.Function.Basic
/-!
# Tables of results

A table holds results by their keys. What is asked for and is not there is
built first, which may ask for other results. Where everything that is built
is right, so is every answer.
-/
namespace Lib.Memo

abbrev Table (K V : Type) := K → Option V

variable {σ K V : Type}

namespace Table

def empty : Table K V := fun _ => none

def set [DecidableEq K] (t : Table K V) (k : K) (v : V) : Table K V := Function.update t k (some v)

/-- The results are right for their keys. -/
def Sound (R : K → V → Prop) (t : Table K V) : Prop := ∀ k v, t k = some v → R k v

theorem sound_empty (R : K → V → Prop) : Sound R empty := nofun

variable [DecidableEq K] {R : K → V → Prop} {t : Table K V} {k : K} {v : V}

@[simp] theorem set_self : t.set k v k = some v := Function.update_self ..

theorem Sound.set (h : Sound R t) (hv : R k v) : Sound R (t.set k v) := by
  intro k' v' hk'
  by_cases heq : k' = k
  · subst heq
    rw [set_self] at hk'
    exact Option.some.inj hk' ▸ hv
  · exact h k' v' ((Function.update_of_ne heq ..).symm.trans hk')

end Table

/-- `if (!table.count(k)) build(); return *table[k];`, over a state. Building may fail. -/
def getOrBuild (table : σ → Table K V) (build : σ → Option σ) (k : K) (s : σ) : Option (V × σ) :=
  (if (table s k).isNone then build s else some s).bind fun s => (table s k).map fun v => (v, s)

/-- Where building keeps the invariant and leaves a result, the answer is right. -/
theorem getOrBuild_sound {table : σ → Table K V} {build : σ → Option σ} {k : K} {s : σ} {R : K → V → Prop} {I : σ → Prop}
    (hsound : ∀ s, I s → (table s).Sound R) (hbuild : ∃ s', build s = some s' ∧ I s' ∧ (table s' k).isSome) (hs : I s) :
    ∃ v s', getOrBuild table build k s = some (v, s') ∧ R k v ∧ I s' := by
  -- the state after the test has a result under the key, built now or before
  obtain ⟨s', htest, hs', hsome⟩ : ∃ s', (if (table s k).isNone then build s else some s) = some s' ∧ I s' ∧
      (table s' k).isSome := by
    split
    · exact hbuild
    · next hcount => exact ⟨s, rfl, hs, by simpa [Option.isSome_iff_ne_none] using hcount⟩
  obtain ⟨v, hv⟩ := Option.isSome_iff_exists.1 hsome
  refine ⟨v, s', ?_, hsound s' hs' k v hv, hs'⟩
  rw [getOrBuild, htest, Option.bind_some, hv, Option.map_some]

end Lib.Memo
