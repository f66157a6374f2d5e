import Mathlib.Data.List.Basic
import Mathlib.Data.List.Indexes
/-!
# Nodes shared by content

A store has nodes with operands. Asked for operands that a uniqued node has,
it answers with that node. Nodes can refer to each other, in cycles too: an
operand may be replaced later, and a node that refers to itself, or that
would be the double of another, is no longer uniqued.
-/
namespace Lib.Interning

inductive Operand (V : Type) where
  | value (v : V)
  | node (i : Nat)
  deriving DecidableEq, Repr

structure Node (V : Type) where
  operands : List (Operand V)
  isUniqued : Bool
  deriving DecidableEq, Repr

/-- The nodes, each known by its place. -/
abbrev Store (V : Type) := List (Node V)

variable {V : Type} [DecidableEq V]

namespace Store

/-- The uniqued node with these operands. -/
def findUniqued (s : Store V) (ops : List (Operand V)) : Option Nat := s.findIdx? (· == ⟨ops, true⟩)

/-- The node with these operands, a new one if there is none. -/
def get (s : Store V) (ops : List (Operand V)) : Nat × Store V :=
  match s.findUniqued ops with
  | some i => (i, s)
  | none => (s.length, s ++ [⟨ops, true⟩])

def replaceOperandWith (s : Store V) (i k : Nat) (new : Operand V) : Store V :=
  match s[i]? with
  | none => s
  | some n =>
    let ops := n.operands.set k new
    if n.operands[k]? = some new then s
    else if !n.isUniqued then s.set i ⟨ops, false⟩
    else if new = .node i then s.set i ⟨ops, false⟩
    else s.set i ⟨ops, (s.findUniqued ops).isNone⟩

/-- The nodes of the first store are in the second as they were. -/
def Extends (s s' : Store V) : Prop := ∀ (i : Nat) (n : Node V), s[i]? = some n → s'[i]? = some n

variable {s s' s'' : Store V} {ops : List (Operand V)} {i j k : Nat} {new : Operand V} {n : Node V}

omit [DecidableEq V] in
theorem Extends.refl (s : Store V) : Extends s s := fun _ _ h => h

omit [DecidableEq V] in
theorem Extends.trans (h : Extends s s') (h' : Extends s' s'') : Extends s s'' :=
  fun i n hn => h' i n (h i n hn)

theorem get_extends (s : Store V) (ops : List (Operand V)) : Extends s (s.get ops).2 := by
  intro i n hn
  unfold get
  split
  · exact hn
  · rw [List.getElem?_append_left (List.getElem?_eq_some_iff.1 hn).1]
    exact hn

theorem get_node (s : Store V) (ops : List (Operand V)) : (s.get ops).2[(s.get ops).1]? = some ⟨ops, true⟩ := by
  unfold get
  split
  · next i hi =>
    obtain ⟨hlt, heq, -⟩ := List.findIdx?_eq_some_iff_getElem.1 hi
    rw [List.getElem?_eq_getElem hlt, eq_of_beq heq]
  · exact List.getElem?_concat_length

/-- A reference of a uniqued node to itself. -/
theorem replaceOperandWith_self (hn : s[i]? = some ⟨ops, true⟩) (hk : ops[k]? ≠ some (.node i)) :
    s.replaceOperandWith i k (.node i) = s.set i ⟨ops.set k (.node i), false⟩ := by
  simp [replaceOperandWith, hn, hk]

/-- In a node that is not uniqued only the operand changes. -/
theorem replaceOperandWith_distinct (hn : s[i]? = some ⟨ops, false⟩) :
    s.replaceOperandWith i k new = s.set i ⟨ops.set k new, false⟩ := by
  simp only [replaceOperandWith, hn]
  split
  · next heq =>
    obtain ⟨hlt, hget⟩ := List.getElem?_eq_some_iff.1 heq
    obtain ⟨hlt', hnode⟩ := List.getElem?_eq_some_iff.1 hn
    rw [← hget, List.set_getElem_self, ← hnode, List.set_getElem_self]
  · rfl

omit [DecidableEq V] in
theorem set_other (h : i ≠ j) (hn : s[j]? = some n) (new : Node V) : (s.set i new)[j]? = some n := by
  rw [List.getElem?_set_ne h, hn]

omit [DecidableEq V] in
theorem set_here (hn : s[i]? = some n) (new : Node V) : (s.set i new)[i]? = some new :=
  List.getElem?_set_self (List.getElem?_eq_some_iff.1 hn).1

end Store

end Lib.Interning
