/-
# OperatorTree.Proofs.Expr.Join -- operands joined by an operator

Several operands joined by an operator make up one node; a single one stays as
it is (`join`).  What an expression brings along as operands of an operator above
it (`operands`) undoes that: its own operands if it has the same operator, and
itself alone otherwise.  Flattening an operator node puts the operands of its
flattened children in a row (`flatten_operator`), so a tree of joined operands is
flat however they were nested before.
-/
import OperatorTree.Expr.Basic

namespace OperatorTree.Expr

set_option autoImplicit false

variable {op other : Operator} {e : Expr} {es fs : List Expr}

/-- The operator at the root, if there is one. -/
def root? (e : Expr) : Option Operator :=
  e.value.operator?

/-- Operands with an operator between them. -/
def join (op : Operator) : List Expr → Expr
  | [e] => e
  | es => .operator op es

/-- What the expression brings along as operands of an operator above it. -/
def operands (op : Operator) (e : Expr) : List Expr :=
  Tree.merge Content.operator? op e

@[simp] theorem root?_literal (label : String) : (literal label).root? = none := rfl

@[simp] theorem root?_operator : (operator op es).root? = some op := rfl

@[simp] theorem root?_parenthetical (label : String) : (parenthetical label e).root? = none := rfl

/-! ## Flattening -/

theorem flatten_literal (label : String) : (literal label).flatten = literal label := by
  simp [flatten, Tree.mergeBelow, Content.operator?]

theorem flatten_parenthetical (label : String) :
    (parenthetical label e).flatten = parenthetical label e.flatten := by
  simp [flatten, Tree.mergeBelow, Content.operator?]

theorem flatten_operator :
    (operator op es).flatten = operator op (es.flatMap fun e => e.flatten.operands op) := by
  simp only [flatten, Tree.flatten_node, Tree.mergeBelow, Content.operator?, List.flatMap_map]
  rfl

@[simp] theorem root?_flatten : e.flatten.root? = e.root? := by
  unfold root? flatten
  rw [Tree.value_flatten]

/-! ## Joining -/

theorem operands_of_ne (differ : e.root? ≠ some op) : e.operands op = [e] :=
  if_neg differ

@[simp] theorem operands_operator : (operator op es).operands op = es :=
  if_pos rfl

@[simp] theorem join_singleton : join op [e] = e := rfl

theorem join_of_two_le (several : 2 ≤ es.length) : join op es = operator op es := by
  match es with
  | _ :: _ :: _ => rfl

theorem join_append (left : es ≠ []) (right : fs ≠ []) :
    join op (es ++ fs) = operator op (es ++ fs) := by
  obtain ⟨e, es, rfl⟩ := List.exists_cons_of_ne_nil left
  obtain ⟨f, fs, rfl⟩ := List.exists_cons_of_ne_nil right
  cases es <;> rfl

/-- Operands that do not have the operator themselves are what they bring along together. -/
theorem operands_join (nonempty : es ≠ []) (each : ∀ e ∈ es, e.root? ≠ some op) :
    (join op es).operands op = es := by
  match es with
  | [e] => exact operands_of_ne (each e List.mem_cons_self)
  | _ :: _ :: _ => exact operands_operator

theorem root?_join_ne (differ : op ≠ other) (each : ∀ e ∈ es, e.root? ≠ some other) :
    (join op es).root? ≠ some other := by
  match es with
  | [e] => exact each e List.mem_cons_self
  | [] | _ :: _ :: _ => simpa [join] using differ

/-- Two nested joins flatten to one. -/
theorem flatten_pair {l r : Expr} (left : l.flatten = join op es) (right : r.flatten = join op fs)
    (someLeft : es ≠ []) (someRight : fs ≠ []) (each : ∀ e ∈ es ++ fs, e.root? ≠ some op) :
    (operator op [l, r]).flatten = join op (es ++ fs) := by
  have operandsL := operands_join someLeft fun e member => each e (List.mem_append_left fs member)
  have operandsR := operands_join someRight fun e member => each e (List.mem_append_right es member)
  rw [flatten_operator, join_append someLeft someRight]
  simp [left, right, operandsL, operandsR]

/-- As many operands are joined in one way only. -/
theorem eq_of_join_eq (lengths : es.length = fs.length) (same : join op es = join op fs) :
    es = fs := by
  match es, fs with
  | [], [] => rfl
  | [e], [f] => exact congrArg (fun e => [e]) same
  | _ :: _ :: _, _ :: _ :: _ => simpa [join] using same

end OperatorTree.Expr
