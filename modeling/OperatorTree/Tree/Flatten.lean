/-
# OperatorTree.Tree.Flatten -- merging chains of one operator

A tree is read with a function `op?` that says which values are operators.
`Tree.flatten` removes every node that has the operator of its parent and puts
the node's children in its place, from the leaves upwards.  A value that is no
operator is kept as it is, so grouping by such nodes survives.

`merge` is one level of that: it replaces each child that carries the given
operator by the child's own children.  Flattening commutes with relabelling
(`map_flatten`), so it may be computed on the names of nodes or on what the
nodes hold.
-/
import OperatorTree.Operator
import OperatorTree.Tree.Basic

namespace OperatorTree.Tree

set_option autoImplicit false

universe u v

variable {α : Type u} {β : Type v}

/-- The trees that stand for `c` below a node with operator `op`: the children of
`c` if it has the same operator, and `c` itself otherwise. -/
def merge (op? : α → Option Operator) (op : Operator) (c : Tree α) : List (Tree α) :=
  if op? c.value = some op then c.children else [c]

/-- Merges the children that have the operator of the value `a`, if it has one. -/
def mergeBelow (op? : α → Option Operator) (a : α) (cs : List (Tree α)) : List (Tree α) :=
  match op? a with
  | some op => cs.flatMap (merge op? op)
  | none => cs

/-- Merges every operator node that has the operator of its parent into that parent. -/
def flatten (op? : α → Option Operator) : Tree α → Tree α :=
  fold fun a cs => node a (mergeBelow op? a cs)

@[simp] theorem flatten_node (op? : α → Option Operator) (a : α) (cs : List (Tree α)) :
    (node a cs).flatten op? = node a (mergeBelow op? a (cs.map (flatten op?))) :=
  fold_node ..

@[simp] theorem value_flatten (op? : α → Option Operator) (t : Tree α) :
    (t.flatten op?).value = t.value := by
  cases t
  simp

theorem map_merge (op? : β → Option Operator) (f : α → β) (op : Operator) (c : Tree α) :
    (merge (op? ∘ f) op c).map (map f) = merge op? op (c.map f) := by
  simp only [merge, Function.comp_apply, value_map]
  split <;> simp

theorem map_mergeBelow (op? : β → Option Operator) (f : α → β) (a : α) (cs : List (Tree α)) :
    (mergeBelow (op? ∘ f) a cs).map (map f) = mergeBelow op? (f a) (cs.map (map f)) := by
  simp only [mergeBelow, Function.comp_apply]
  split
  · simp [List.map_flatMap, List.flatMap_map, map_merge]
  · rfl

/-- Flattening does not look at values beyond their operators, so it commutes with relabelling. -/
theorem map_flatten (op? : β → Option Operator) (f : α → β) (t : Tree α) :
    (t.flatten (op? ∘ f)).map f = (t.map f).flatten op? := by
  induction t using induction with
  | step a cs ih =>
    simp only [flatten_node, map_node, map_mergeBelow, List.map_map]
    congr 2
    exact List.map_congr_left ih

end OperatorTree.Tree
