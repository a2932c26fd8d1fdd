/-
# OperatorTree.Expr.Text -- expressions as text

A literal is written by its label, a pair of parentheses around what it holds,
and an operator between its operands.  Nothing is added: an operand is not put
into parentheses that it does not have.  The label of a pair of parentheses is
not used, so the text follows the contents when they change.
-/
import OperatorTree.Expr.Basic

namespace OperatorTree.Expr

set_option autoImplicit false

/-- How a node is written once its children are. -/
def compose (content : Content) (parts : List (List Char)) : List Char :=
  match content with
  | .literal label => label.toList
  | .operator op => [op.symbol].intercalate parts
  | .parenthetical _ => '(' :: parts.flatten ++ [')']

/-- The characters of the expression's text. -/
def spelling (e : Expr) : List Char :=
  e.fold compose

/-- The text of the expression. -/
def text (e : Expr) : String :=
  String.ofList (spelling e)

@[simp] theorem spelling_node (content : Content) (children : List Expr) :
    spelling (.node content children) = compose content (children.map spelling) :=
  Tree.fold_node ..

@[simp] theorem toList_text (e : Expr) : (text e).toList = spelling e := by
  simp [text]

end OperatorTree.Expr
