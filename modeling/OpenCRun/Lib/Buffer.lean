import Mathlib.Data.List.Basic
import OpenCRun.Lib.Checked
/-!
# Buffers

A buffer is a list of values, and a check says that an access stays in it.
-/
namespace Lib.Buffer

variable {α : Type}

/-- The values from a place on. -/
def get (buf : List α) (i n : Nat) : Checked (List α) := do
  Checked.check (decide (i + n ≤ buf.length))
  pure ((buf.drop i).take n)

def put (buf : List α) (i : Nat) (vs : List α) : Checked (List α) := do
  Checked.check (decide (i + vs.length ≤ buf.length))
  pure (buf.take i ++ vs ++ buf.drop (i + vs.length))

/-- Elements of a size, one after the other. -/
def putAll (size : Nat) : List (List α) → Nat → List α → Checked (List α)
  | [], _, buf => pure buf
  | v :: vs, i, buf => do
    let buf ← put buf i v
    putAll size vs (i + size) buf

theorem get_eq {buf : List α} {i n : Nat} (h : i + n ≤ buf.length) : get buf i n = pure ((buf.drop i).take n) :=
  Checked.ext rfl (by simp [get, h])

theorem put_eq {buf vs : List α} {i : Nat} (h : i + vs.length ≤ buf.length) :
    put buf i vs = pure (buf.take i ++ vs ++ buf.drop (i + vs.length)) :=
  Checked.ext rfl (by simp [put, h])

/-- Values that are there already. -/
theorem put_same (pre vs post : List α) : put (pre ++ vs ++ post) pre.length vs = pure (pre ++ vs ++ post) := by
  have hlength : (pre ++ vs).length = pre.length + vs.length := List.length_append
  rw [put_eq (by rw [List.length_append, hlength]; omega), List.drop_left' hlength, List.append_assoc pre vs post,
    List.take_left,
    List.append_assoc]

theorem length_put (buf vs : List α) {i : Nat} (h : i + vs.length ≤ buf.length) : (put buf i vs).val.length = buf.length := by
  rw [put_eq h, Checked.val_pure, List.length_append, List.length_append, List.length_take, List.length_drop]
  omega

theorem flatten_length {size : Nat} {vs : List (List α)} (hsize : ∀ v ∈ vs, v.length = size) :
    vs.flatten.length = size * vs.length := by
  induction vs with
  | nil => rfl
  | cons v vs ih =>
    rw [List.flatten_cons, List.length_append, ih fun u hu => hsize u (List.mem_cons_of_mem v hu),
      hsize v List.mem_cons_self, List.length_cons, Nat.mul_succ, Nat.add_comm]

theorem putAll_eq {size : Nat} {vs : List (List α)} (hsize : ∀ v ∈ vs, v.length = size) {i : Nat} {buf : List α}
    (h : i + size * vs.length ≤ buf.length) :
    putAll size vs i buf = pure (buf.take i ++ vs.flatten ++ buf.drop (i + size * vs.length)) := by
  induction vs generalizing i buf with
  | nil =>
    rw [putAll, List.flatten_nil, List.append_nil, List.length_nil, Nat.mul_zero, Nat.add_zero, List.take_append_drop]
  | cons v vs ih =>
    have hv : v.length = size := hsize v List.mem_cons_self
    rw [List.length_cons, Nat.mul_succ] at h ⊢
    have hput : i + v.length ≤ buf.length := by omega
    have htake : (buf.take i ++ v).length = i + size := by
      rw [List.length_append, List.length_take, hv]
      omega
    have hlength := length_put buf v hput
    rw [putAll, put_eq hput, pure_bind, ih fun u hu => hsize u (List.mem_cons_of_mem v hu)]
    · have hdrop : i + v.length + (i + size + size * vs.length - (i + size)) = i + (size * vs.length + size) := by omega
      rw [List.take_left' htake, List.drop_append, htake, List.drop_eq_nil_of_le (by omega), List.nil_append,
        List.drop_drop, hdrop, List.flatten_cons]
      simp only [List.append_assoc]
    · rw [put_eq hput, Checked.val_pure] at hlength
      omega

/-- One of some elements. -/
theorem get_flatten {size : Nat} {vs : List (List α)} (hsize : ∀ v ∈ vs, v.length = size) {i : Nat} (hi : i < vs.length) :
    (vs.flatten.drop (size * i)).take size = vs[i] := by
  induction vs generalizing i with
  | nil => cases hi
  | cons v vs ih =>
    have hv : v.length = size := hsize v List.mem_cons_self
    rw [List.flatten_cons]
    cases i with
    | zero => rw [Nat.mul_zero, List.drop_zero, List.take_left' hv, List.getElem_cons_zero]
    | succ i =>
      rw [Nat.mul_succ, Nat.add_comm, ← List.drop_drop, List.drop_left' hv,
        ih (fun u hu => hsize u (List.mem_cons_of_mem v hu)) (Nat.lt_of_succ_lt_succ hi), List.getElem_cons_succ]

end Lib.Buffer
