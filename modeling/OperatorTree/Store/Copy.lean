/-
# OperatorTree.Store.Copy -- building trees of new nodes

`plant` puts an expression into the store as a tree of new nodes, linked both
ways, and answers with its root.  A deep copy of a node is the expression it
makes up, planted anew: it shares no node with what it was copied from.
-/
import OperatorTree.Store.Edit

namespace OperatorTree.Store

set_option autoImplicit false

mutual

/-- Makes new nodes for an expression, and answers with the number of its root. -/
def plant (s : Store) : Expr → NodeId × Store
  | .node content children =>
    let (n, s) := s.alloc content
    (n, plantBelow n s children)

/-- Makes new nodes for several expressions and attaches each below `n`. -/
def plantBelow (n : NodeId) (s : Store) : List Expr → Store
  | [] => s
  | e :: es =>
    let (child, s) := plant s e
    plantBelow n (s.attach n child) es

end

/-- Copies the tree below a node into new nodes, and answers with the new root. -/
def deepCopy (s : Store) (n : NodeId) : NodeId × Store :=
  s.plant (s.expr n)

end OperatorTree.Store
