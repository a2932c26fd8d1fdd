/-
# OperatorTree.Expr.Outline -- the labels of an expression, indented by depth

An outline has one line per node in preorder: a tab for each level, the label,
and a line feed.  It is written at the end of a text that is handed from node to
node.  Kinds are not shown, so an outline of arbitrary labels may be ambiguous.
-/
import OperatorTree.Expr.Basic

namespace OperatorTree.Expr

set_option autoImplicit false

/-- Writes the line of a node at the end of a text, and then what is below it; for each
child there is what writes it, given the indent and the text so far. -/
def writeNode (content : Content) (below : List (Nat → String → String)) (indent : Nat)
    (out : String) : String :=
  let line := ((out.pushn '\t' indent) ++ content.label).push '\n'
  below.foldl (fun out write => write (indent + 1) out) line

/-- A text with the outline written after it, its first line with the given indent. -/
def appendOutline (out : String) (indent : Nat) (e : Expr) : String :=
  e.fold writeNode indent out

/-- The outline, starting without indent. -/
def outline (e : Expr) : String :=
  appendOutline "" 0 e

theorem appendOutline_node (out : String) (indent : Nat) (content : Content)
    (children : List Expr) :
    appendOutline out indent (.node content children) =
      children.foldl (fun out child => appendOutline out (indent + 1) child)
        (((out.pushn '\t' indent) ++ content.label).push '\n') := by
  rw [appendOutline, Tree.fold_node, writeNode, List.foldl_map]
  rfl

end OperatorTree.Expr
