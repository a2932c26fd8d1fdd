/-
# OperatorTree.Expr.Basic -- expression trees

A node of an expression is a literal, an operator or a pair of parentheses.  A
literal and a pair of parentheses carry a label of their own; an operator is
labelled by its symbol.  The label of a pair of parentheses is the text it was
read from, and it is kept even when the contents change afterwards.

An expression is a tree of such contents.  The type leaves the number of
children open, because an operator may have any number of them.
-/
import OperatorTree.Operator
import OperatorTree.Tree.Flatten

namespace OperatorTree

set_option autoImplicit false

/-- What sort of node a node is. -/
inductive Kind where
  | literal
  | operator (op : Operator)
  | parenthetical
  deriving DecidableEq, Repr

/-- What a node holds, its children apart. -/
inductive Content where
  | literal (label : String)
  | operator (op : Operator)
  | parenthetical (label : String)
  deriving DecidableEq, Repr

namespace Content

/-- The sort of node that holds this. -/
def kind : Content → Kind
  | literal _ => .literal
  | operator op => .operator op
  | parenthetical _ => .parenthetical

/-- The text that stands for the node: its label, or the symbol of its operator. -/
def label : Content → String
  | literal text => text
  | operator op => op.label
  | parenthetical text => text

/-- The operator of an operator node. -/
def operator? : Content → Option Operator
  | operator op => some op
  | _ => none

/-- The content under a new label.  An operator takes the label of an operator
only, and becomes that operator. -/
def relabel? (text : String) : Content → Option Content
  | literal _ => some (literal text)
  | operator _ => (Operator.ofLabel? text).map operator
  | parenthetical _ => some (parenthetical text)

theorem eq_of_kind_of_label {a b : Content} (kinds : a.kind = b.kind)
    (labels : a.label = b.label) : a = b := by
  cases a <;> cases b <;> simp_all [kind, label]

theorem operator?_eq_some_iff {a : Content} {op : Operator} :
    a.operator? = some op ↔ a = operator op := by
  cases a <;> simp [operator?]

end Content

/-- An expression: a tree of node contents. -/
abbrev Expr := Tree Content

namespace Expr

/-- A literal. -/
@[match_pattern] abbrev literal (label : String) : Expr :=
  .node (.literal label) []

/-- An operator applied to its operands. -/
@[match_pattern] abbrev operator (op : Operator) (operands : List Expr) : Expr :=
  .node (.operator op) operands

/-- An expression in parentheses. -/
@[match_pattern] abbrev parenthetical (label : String) (inner : Expr) : Expr :=
  .node (.parenthetical label) [inner]

/-- Merges every operator node that has the operator of its parent into that
parent.  Parentheses are never merged away, so explicit grouping stays. -/
def flatten (e : Expr) : Expr :=
  Tree.flatten Content.operator? e

end Expr

end OperatorTree
