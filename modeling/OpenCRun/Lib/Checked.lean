import Mathlib.Logic.Basic
/-!
# Computations with assertions

A `Checked` computation returns its result together with whether every
assertion on the way held. A build without assertions computes `val`; a build
with them stops at the first one that fails, so it gets that far exactly when
`ok`.
-/
namespace Lib

/-- A result, and whether every assertion on the way to it held. -/
@[ext] structure Checked (α : Type) where
  val : α
  ok : Bool
  deriving DecidableEq, Repr

namespace Checked

instance : Monad Checked where
  pure a := ⟨a, true⟩
  bind x f := ⟨(f x.val).val, x.ok && (f x.val).ok⟩

/-- An assertion. -/
def check (b : Bool) : Checked Unit := ⟨(), b⟩

variable {α β : Type}

@[simp] theorem val_pure (a : α) : (pure a : Checked α).val = a := rfl
@[simp] theorem ok_pure (a : α) : (pure a : Checked α).ok = true := rfl
@[simp] theorem val_bind (x : Checked α) (f : α → Checked β) : (x >>= f).val = (f x.val).val := rfl
@[simp] theorem ok_bind (x : Checked α) (f : α → Checked β) : (x >>= f).ok = (x.ok && (f x.val).ok) := rfl
@[simp] theorem val_map (f : α → β) (x : Checked α) : (f <$> x).val = f x.val := rfl
@[simp] theorem ok_map (f : α → β) (x : Checked α) : (f <$> x).ok = x.ok := Bool.and_true _
@[simp] theorem ok_check (b : Bool) : (check b).ok = b := rfl

instance : LawfulMonad Checked :=
  LawfulMonad.mk' Checked
    (fun _ => Checked.ext rfl (Bool.and_true _))
    (fun _ _ => Checked.ext rfl (Bool.true_and _))
    (fun _ _ _ => Checked.ext rfl (Bool.and_assoc _ _ _))

theorem val_ite (c : Prop) [Decidable c] (x y : Checked α) :
    (if c then x else y).val = if c then x.val else y.val := by
  split <;> rfl

theorem ok_ite (c : Prop) [Decidable c] (x y : Checked α) :
    (if c then x else y).ok = if c then x.ok else y.ok := by
  split <;> rfl

/-- A property every step of a fold keeps holds after the fold. -/
theorem foldlM_inv (P : β → Prop) (f : β → α → Checked β) (l : List α)
    (h : ∀ b, ∀ a ∈ l, P b → P (f b a).val) (b : β) (hb : P b) : P (l.foldlM f b).val := by
  induction l generalizing b with
  | nil => exact hb
  | cons a l ih =>
    simp only [List.foldlM_cons, val_bind]
    exact ih (fun b a ha => h b a (by simp [ha])) _ (h b a (by simp) hb)

theorem foldlM_ok (f : β → α → Checked β) (l : List α) (h : ∀ b, ∀ a ∈ l, (f b a).ok = true) (b : β) :
    (l.foldlM f b).ok = true := by
  induction l generalizing b with
  | nil => rfl
  | cons a l ih =>
    simp only [List.foldlM_cons, ok_bind, h b a (by simp), Bool.true_and]
    exact ih (fun b a ha => h b a (by simp [ha])) _

@[simp] theorem val_mapM (f : α → Checked β) (l : List α) : (l.mapM f).val = l.map fun a => (f a).val := by
  induction l with
  | nil => rfl
  | cons a l ih => simp only [List.mapM_cons, val_bind, val_pure, ih, List.map_cons]

/-- Every computation of the list gets to its end. -/
@[simp] theorem ok_mapM (f : α → Checked β) (l : List α) : (l.mapM f).ok = l.all fun a => (f a).ok := by
  induction l with
  | nil => rfl
  | cons a l ih => simp only [List.mapM_cons, ok_bind, ok_pure, ih, Bool.and_true, List.all_cons]

end Checked

end Lib
