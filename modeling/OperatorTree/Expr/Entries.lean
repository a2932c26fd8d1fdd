/-
# OperatorTree.Expr.Entries -- an expression as the list of its nodes

The nodes of an expression in preorder, each with its depth, its kind and its
label.  The list says everything about the expression: depths place each node,
and kind and label are its content.
-/
import OperatorTree.Expr.Basic

namespace OperatorTree.Expr

set_option autoImplicit false

/-- One line of the list of nodes. -/
structure Entry where
  depth : Nat
  kind : Kind
  label : String
  deriving DecidableEq, Repr

/-- The entry of a node and those below it; the children come as functions of their depth. -/
def nodeEntries (content : Content) (below : List (Nat → List Entry)) (depth : Nat) : List Entry :=
  ⟨depth, content.kind, content.label⟩ :: below.flatMap (· (depth + 1))

/-- The nodes in preorder, the root at the given depth. -/
def entriesFrom (depth : Nat) (e : Expr) : List Entry :=
  e.fold nodeEntries depth

/-- The nodes in preorder, the root at depth 0. -/
def entries (e : Expr) : List Entry :=
  entriesFrom 0 e

@[simp] theorem entriesFrom_node (depth : Nat) (content : Content) (children : List Expr) :
    entriesFrom depth (.node content children) =
      ⟨depth, content.kind, content.label⟩ :: children.flatMap (entriesFrom (depth + 1)) := by
  rw [entriesFrom, Tree.fold_node, nodeEntries, List.flatMap_map]
  rfl

end OperatorTree.Expr
