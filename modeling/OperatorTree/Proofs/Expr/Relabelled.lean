/-
# OperatorTree.Proofs.Expr.Relabelled -- parentheses labelled by what they hold

The label of a pair of parentheses is the text that it was read from.  It may have become out
of date, since what is inside may have been edited.  Relabelling gives each pair of
parentheses the text that it has now for its label (`relabelled`); nothing else is changed, and
the text of the whole least of all (`spelling_relabelled`).
-/
import OperatorTree.Expr.Text
import OperatorTree.Proofs.Expr.Join

namespace OperatorTree

set_option autoImplicit false

/-- The same content, under the given label if it is a pair of parentheses. -/
def Content.labelled (text : String) : Content → Content
  | .parenthetical _ => .parenthetical text
  | content => content

theorem Content.kind_labelled (text : String) (content : Content) :
    (content.labelled text).kind = content.kind := by
  cases content <;> rfl

theorem Content.operator?_labelled (text : String) (content : Content) :
    (content.labelled text).operator? = content.operator? := by
  cases content <;> rfl

namespace Expr

/-- The expression with the text of each pair of parentheses for its label. -/
def relabelled (e : Expr) : Expr :=
  e.fold fun content operands =>
    .node (content.labelled (text (.node content operands))) operands

variable {content : Content} {operands : List Expr} {op : Operator} {e : Expr}

theorem compose_labelled (text : String) (content : Content) (parts : List (List Char)) :
    compose (content.labelled text) parts = compose content parts := by
  cases content <;> rfl

/-- **Relabelling keeps the text.** -/
@[simp] theorem spelling_relabelled (e : Expr) : spelling e.relabelled = spelling e := by
  induction e using Tree.induction with
  | step content operands ih =>
      rw [relabelled, Tree.fold_node, spelling_node, spelling_node, compose_labelled, List.map_map]
      exact congrArg (compose content) (List.map_congr_left ih)

@[simp] theorem text_relabelled (e : Expr) : text e.relabelled = text e := by
  rw [text, text, spelling_relabelled]

theorem relabelled_node (content : Content) (operands : List Expr) :
    relabelled (.node content operands) =
      .node (content.labelled (text (.node content operands))) (operands.map relabelled) := by
  have same : text (.node content (operands.map relabelled)) = text (.node content operands) := by
    simp [text, Function.comp_def]
  rw [relabelled, Tree.fold_node]
  exact congrArg (fun label => Tree.node (content.labelled label) _) same

theorem relabelled_literal (label : String) : relabelled (literal label) = literal label := by
  rw [literal, relabelled_node]
  rfl

theorem relabelled_operator :
    relabelled (operator op operands) = operator op (operands.map relabelled) :=
  relabelled_node ..

theorem relabelled_parenthetical (label : String) :
    relabelled (parenthetical label e) =
      parenthetical (text (parenthetical label e)) e.relabelled :=
  relabelled_node ..

@[simp] theorem kind_value_relabelled (e : Expr) : e.relabelled.value.kind = e.value.kind := by
  cases e
  rw [relabelled_node]
  exact Content.kind_labelled ..

@[simp] theorem root?_relabelled (e : Expr) : e.relabelled.root? = e.root? := by
  cases e
  rw [relabelled_node]
  exact Content.operator?_labelled ..

@[simp] theorem operands_relabelled (op : Operator) (e : Expr) :
    e.relabelled.operands op = (e.operands op).map relabelled := by
  by_cases same : e.root? = some op
  · cases e with
    | node content operands =>
        obtain rfl := Content.operator?_eq_some_iff.1 same
        rw [relabelled_operator, operands_operator, operands_operator]
  · rw [operands_of_ne same, operands_of_ne (by rwa [root?_relabelled]), List.map_singleton]

end Expr

end OperatorTree
