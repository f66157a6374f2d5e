import Mathlib.Logic.Basic
import Mathlib.Logic.Relation
/-!
# Comparing graphs

Two graphs are compared node by node: the pairs that steps lead to are looked
at, each early and, unless a cut stops there, late. What is known of some
pairs serves as a cut. Without a cut a pair passes if no path leads to a pair
that differs.
-/
namespace Lib.Comparison

variable {P : Type} (early late : P → Prop) (next : P → P → Prop)

/-- No path leads to a pair that differs. -/
def Bisimilar (p : P) : Prop := ∀ q, Relation.ReflTransGen next p q → early q ∧ late q

/-- A path that the cut does not stop leads to a pair that differs. -/
inductive Refuted (cut : P → Prop) : P → Prop
  | early {p : P} : ¬ early p → Refuted cut p
  | late {p : P} : ¬ cut p → ¬ late p → Refuted cut p
  | next {p q : P} : ¬ cut p → next p q → Refuted cut q → Refuted cut p

/-- A pair is looked at early, and then known, or looked at late, and so are the pairs after it. -/
inductive Approved (known : P → Prop) : P → Prop
  | known {p : P} : early p → known p → Approved known p
  | look {p : P} : early p → late p → (∀ q, next p q → Approved known q) → Approved known p

variable {early late next} {cut cut' known known' : P → Prop} {p q : P}

theorem Bisimilar.here (h : Bisimilar early late next p) : early p ∧ late p := h p .refl

theorem Bisimilar.after (h : Bisimilar early late next p) (hq : next p q) : Bisimilar early late next q :=
  fun r hr => h r (.head hq hr)

/-- A set of pairs without differences that every step stays in. -/
theorem bisimilar_of_invariant {I : P → Prop} (hsame : ∀ p, I p → early p ∧ late p)
    (hnext : ∀ p q, I p → next p q → I q) (hp : I p) : Bisimilar early late next p := by
  intro q hpath
  have hq : I q := by
    induction hpath with
    | refl => exact hp
    | tail _ hstep ih => exact hnext _ _ ih hstep
  exact hsame q hq

/-- A smaller cut lets more paths through. -/
theorem Refuted.mono (hcut : ∀ p, cut' p → cut p) (h : Refuted early late next cut p) :
    Refuted early late next cut' p := by
  induction h with
  | early hp => exact .early hp
  | late hc hp => exact .late (fun hc' => hc (hcut _ hc')) hp
  | next hc hstep _ ih => exact .next (fun hc' => hc (hcut _ hc')) hstep ih

theorem Approved.mono (hknown : ∀ p, known p → known' p) (h : Approved early late next known p) :
    Approved early late next known' p := by
  induction h with
  | known he hk => exact .known he (hknown _ hk)
  | look he hl _ ih => exact .look he hl ih

/-- What is refuted is not bisimilar, whatever the cut. -/
theorem Refuted.not_bisimilar (h : Refuted early late next cut p) : ¬ Bisimilar early late next p := by
  induction h with
  | early hp => exact fun hb => hp hb.here.1
  | late _ hp => exact fun hb => hp hb.here.2
  | next _ hstep _ ih => exact fun hb => ih (hb.after hstep)

/-- A cut at pairs with nothing but bisimilar ones behind them changes nothing. -/
theorem bisimilar_of_not_refuted (hcut : ∀ p, cut p → late p ∧ ∀ q, next p q → Bisimilar early late next q)
    (h : ¬ Refuted early late next cut p) : Bisimilar early late next p := by
  intro q hpath
  induction hpath using Relation.ReflTransGen.head_induction_on with
  | refl =>
    refine ⟨not_not.1 fun he => h (.early he), ?_⟩
    by_cases hc : cut q
    · exact (hcut q hc).1
    · exact not_not.1 fun hl => h (.late hc hl)
  | @head p' r hstep htail ih =>
    by_cases hc : cut p'
    · exact (hcut p' hc).2 r hstep q htail
    · exact ih fun hr => h (.next hc hstep hr)

/-- If what is known is either cut or looked at, all the way to what is known, nothing approved is refuted. -/
theorem Approved.not_refuted
    (hknown : ∀ p, known p → cut p ∨ late p ∧ ∀ q, next p q → Approved early late next known q)
    (h : Approved early late next known p) : ¬ Refuted early late next cut p := by
  intro hr
  induction hr with
  | early he => cases h <;> exact he ‹_›
  | late hc hl =>
    cases h with
    | known _ hk => exact hl ((hknown _ hk).resolve_left hc).1
    | look _ hl' _ => exact hl hl'
  | next hc hstep _ ih =>
    cases h with
    | known _ hk => exact ih (((hknown _ hk).resolve_left hc).2 _ hstep)
    | look _ _ hnext => exact ih (hnext _ hstep)

end Lib.Comparison
