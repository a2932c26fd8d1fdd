/-
# OperatorTree.Store.Navigation -- walking a store down child lists and up links

Downwards, `tree s n` is the tree of the nodes below `n` and `expr s n` is the
expression they make up.  Upwards, `ancestors s n` follows the links from the
parent to the root.  Both walks are bounded by the number of slots, which no
path without repetition exceeds, so in a store without cycles they end by
themselves.
-/
import OperatorTree.Store.Basic

namespace OperatorTree.Store

set_option autoImplicit false

/-! ## Down -/

/-- The tree below a node, down to the given depth. -/
def treeFrom (s : Store) : Nat → NodeId → Tree NodeId
  | 0, n => .node n []
  | depth + 1, n => .node n ((s.children n).map (s.treeFrom depth))

/-- The nodes below a node, as a tree with the node at its root. -/
def tree (s : Store) (n : NodeId) : Tree NodeId :=
  s.treeFrom s.slots.size n

/-- The expression that a node and those below it make up. -/
def expr (s : Store) (n : NodeId) : Expr :=
  (s.tree n).map s.content

/-- The child at a position. -/
def child? (s : Store) (n : NodeId) (index : Nat) : Option NodeId :=
  (s.children n)[index]?

/-- Every child in the tree below the node has its lister as its parent. -/
def Linked (s : Store) (n : NodeId) : Prop :=
  ∀ m ∈ (s.tree n).preorder, ∀ c ∈ s.children m, s.parent? c = some m

instance (s : Store) (n : NodeId) : Decidable (s.Linked n) :=
  inferInstanceAs (Decidable (∀ m ∈ _, ∀ c ∈ _, _ = _))

/-! ## Up -/

/-- The nodes above a node, nearest first, as far as the given number of steps leads. -/
def ancestorsFrom (s : Store) : Nat → NodeId → List NodeId
  | 0, _ => []
  | steps + 1, n =>
    match s.parent? n with
    | none => []
    | some p => p :: s.ancestorsFrom steps p

/-- The nodes above a node, nearest first. -/
def ancestors (s : Store) (n : NodeId) : List NodeId :=
  s.ancestorsFrom s.slots.size n

/-- The last node on the way up, and the node itself if it has no parent. -/
def root (s : Store) (n : NodeId) : NodeId :=
  (s.ancestors n).getLast?.getD n

/-- A root has no parent. -/
def IsRoot (s : Store) (n : NodeId) : Prop :=
  s.parent? n = none

instance (s : Store) (n : NodeId) : Decidable (s.IsRoot n) :=
  inferInstanceAs (Decidable (_ = none))

end OperatorTree.Store
