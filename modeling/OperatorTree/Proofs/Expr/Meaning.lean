/-
# OperatorTree.Proofs.Expr.Meaning -- flattening keeps the value

An interpretation gives each label of a literal a value and each operator an
operation on values.  An operator node then has the value that comes of its
operands from left to right, and a pair of parentheses the value of what it holds.
Nothing is said about associativity in this; a chain of one operator that is written
as a chain of nodes is computed in the order of the nodes.

Merging nodes is a change of that order, so it keeps the values just as far as the
operations are associative.  The operands keep their order: nothing is asked of
the operations beyond that.
-/
import Mathlib.Data.Option.NAry
import OperatorTree.Proofs.Expr.Spelling

namespace OperatorTree

set_option autoImplicit false

universe u

/-- Values for the labels of literals, and operations for the operators. -/
structure Interpretation (α : Type u) where
  literal : String → α
  apply : Operator → α → α → α

namespace Interpretation

variable {α : Type u}

/-- Both operations are associative. -/
def Associative (I : Interpretation α) : Prop :=
  ∀ op a b c, I.apply op (I.apply op a b) c = I.apply op a (I.apply op b c)

/-- Computes with values from left to right.  There is no value without an operand, nor with
an operand that has none. -/
def reduce (I : Interpretation α) (op : Operator) : List (Option α) → Option α
  | [] => none
  | value :: values => values.foldl (Option.map₂ (I.apply op)) value

/-- The value of a node from the values of its children. -/
def evaluate (I : Interpretation α) : Content → List (Option α) → Option α
  | .literal label, _ => some (I.literal label)
  | .operator op, values => I.reduce op values
  | .parenthetical _, values => values.head?.join

/-- The value of an expression. -/
def value? (I : Interpretation α) (e : Expr) : Option α :=
  e.fold I.evaluate

@[simp] theorem value?_node (I : Interpretation α) (content : Content) (operands : List Expr) :
    I.value? (.node content operands) = I.evaluate content (operands.map I.value?) :=
  Tree.fold_node ..

/-! ## Order of computation -/

theorem Associative.map₂ {I : Interpretation α} (associative : I.Associative) (op : Operator) :
    Std.Associative (Option.map₂ (I.apply op)) where
  assoc _ _ _ := Option.map₂_assoc (associative op)

/-- With an associative operation, operands may be computed in groups. -/
theorem Associative.joins_reduce {I : Interpretation α} (associative : I.Associative)
    (op : Operator) : Joins (I.reduce op) (Option.map₂ (I.apply op)) where
  singleton _ := rfl
  append xs ys left right := by
    have := associative.map₂ op
    obtain ⟨x, xs, rfl⟩ := List.exists_cons_of_ne_nil left
    obtain ⟨y, ys, rfl⟩ := List.exists_cons_of_ne_nil right
    simp only [reduce, List.cons_append, List.foldl_append, List.foldl_cons]
    exact List.foldl_assoc

/-! ## Values -/

/-- Operands that have values have a value together. -/
theorem exists_reduce (I : Interpretation α) (op : Operator) {values : List (Option α)}
    (some : values ≠ []) (each : ∀ value ∈ values, ∃ a, value = .some a) :
    ∃ a, I.reduce op values = .some a := by
  obtain ⟨first, others, rfl⟩ := List.exists_cons_of_ne_nil some
  obtain ⟨a, rfl⟩ := each first List.mem_cons_self
  have rest : ∀ value ∈ others, ∃ a, value = .some a := fun value later =>
    each value (List.mem_cons_of_mem _ later)
  clear some each
  unfold reduce
  induction others generalizing a with
  | nil => exact ⟨a, rfl⟩
  | cons next others ih =>
      obtain ⟨b, rfl⟩ := rest next List.mem_cons_self
      exact ih (I.apply op a b) fun value later => rest value (List.mem_cons_of_mem _ later)

/-- An expression has a value if its operators have operands and its parentheses hold something. -/
theorem exists_value? (I : Interpretation α) {e : Expr} (shaped : e.Shaped) (filled : e.Filled) :
    ∃ a, I.value? e = some a := by
  induction e using Tree.induction with
  | step content operands ih =>
      have each : ∀ value ∈ operands.map I.value?, ∃ a, value = some a := by
        intro value member
        obtain ⟨e, among, rfl⟩ := List.mem_map.1 member
        exact ih e among (shaped.of_mem e among) (filled.of_mem e among)
      rw [value?_node]
      cases content with
      | literal label => exact ⟨I.literal label, rfl⟩
      | operator op => exact I.exists_reduce op (by simpa using filled.here op rfl) each
      | parenthetical label =>
          obtain ⟨inner, rfl⟩ := List.length_eq_one_iff.1 shaped.here
          simpa [evaluate] using each

/-- **Flattening keeps the value** under associative operations. -/
theorem Associative.value?_flatten {I : Interpretation α} (associative : I.Associative) {e : Expr}
    (filled : e.Filled) : I.value? e.flatten = I.value? e :=
  filled.fold_flatten associative.joins_reduce

end Interpretation

end OperatorTree
