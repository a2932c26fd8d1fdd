/-
# OperatorTree.Store.Compare -- structural equality of nodes

Two nodes are equal in structure when they hold the same content and their
children are equal in structure one by one.  The comparison walks both trees
together and stops at a node that is reached on both sides at once: a node is
equal to itself, whatever is below it.
-/
import OperatorTree.Store.Navigation

namespace OperatorTree.Store

set_option autoImplicit false

mutual

/-- Compares two trees of nodes by what the nodes hold. -/
def equalTrees (s : Store) : Tree NodeId → Tree NodeId → Bool
  | .node a cs, .node b ds =>
    a == b || (s.content a == s.content b && equalForests s cs ds)

/-- Compares two lists of trees of nodes, one by one. -/
def equalForests (s : Store) : List (Tree NodeId) → List (Tree NodeId) → Bool
  | [], [] => true
  | c :: cs, d :: ds => equalTrees s c d && equalForests s cs ds
  | _, _ => false

end

/-- Compares two nodes by structure. -/
def equal (s : Store) (a b : NodeId) : Bool :=
  s.equalTrees (s.tree a) (s.tree b)

end OperatorTree.Store
