/-
# OperatorTree.Store.Flatten -- merging chains of one operator in place

Flattening a node first flattens its children and then goes along its child
list.  A child with the node's own operator is merged: its children take its
place in the list, and it is left without children and without a parent.  The
children that came in are looked at from the same position on; any other child
is passed.  The nodes that stay are the same nodes as before.

Each merge is reported with the position of the merged child at that moment and
with the number of children that took its place, in the order of the merges.
-/
import OperatorTree.Store.Navigation

namespace OperatorTree

set_option autoImplicit false

/-- One merge of a child into its parent. -/
structure Merge where
  parent : NodeId
  /-- The merged child. -/
  child : NodeId
  /-- Where the child stood when it was merged. -/
  index : Nat
  /-- How many children took its place. -/
  count : Nat
  deriving DecidableEq, Repr

namespace Store

/-- Takes all children away from a node. -/
def takeChildren (s : Store) (n : NodeId) : List NodeId × Store :=
  let taken := s.children n
  (taken, (s.setChildren n []).setParents taken none)

/-- Puts other nodes in the place of the child at a position. -/
def spliceChild (s : Store) (n : NodeId) (index : Nat) (others : List NodeId) : Store :=
  let s := s.setParents others (some n)
  let children := s.children n
  let s := s.setChildren n (children.take index ++ others ++ children.drop (index + 1))
  s.setParents children[index]?.toList none

/-- Goes along the child list of `n` from a position on and merges the children
that have the operator `op`.  Every step passes or merges a node that it has not
seen before, so the number of slots bounds the number of steps. -/
def absorbFrom (n : NodeId) (op : Operator) : Nat → Nat → Store → List Merge × Store
  | 0, _, s => ([], s)
  | steps + 1, index, s =>
    match s.child? n index with
    | none => ([], s)
    | some child =>
      if s.operator? child = some op then
        let (grandchildren, s) := s.takeChildren child
        let (merges, s) := absorbFrom n op steps index (s.spliceChild n index grandchildren)
        (⟨n, child, index, grandchildren.length⟩ :: merges, s)
      else absorbFrom n op steps (index + 1) s

/-- Merges the children of a node that have its operator, if it has one. -/
def absorb (s : Store) (n : NodeId) : List Merge × Store :=
  match s.operator? n with
  | none => ([], s)
  | some op => absorbFrom n op s.slots.size 0 s

/-- Merges children into each of the nodes, one node after the other. -/
def absorbAll : List NodeId → Store → List Merge × Store
  | [], s => ([], s)
  | n :: ns, s =>
    let (first, s) := s.absorb n
    let (others, s) := absorbAll ns s
    (first ++ others, s)

/-- Flattens the tree below a node, from the leaves upwards. -/
def flatten (s : Store) (n : NodeId) : List Merge × Store :=
  absorbAll (s.tree n).postorder s

end Store

end OperatorTree
