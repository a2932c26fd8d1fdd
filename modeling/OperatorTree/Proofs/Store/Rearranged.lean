/-
# OperatorTree.Proofs.Store.Rearranged -- exchanges of nodes and rearranged expressions

Where nodes of a store are exchanged, the expression that a node makes up is rearranged
(`Rearranged.expr`).  Conversely each exchange of two subtrees of the expression is an exchange
of two nodes below it, found where the subtrees are (`IsForest.exists_swap`).  So what can come
of the expression by exchanges in the store is what it can be rearranged to
(`IsForest.exists_swapAll_iff`).
-/
import OperatorTree.Proofs.Store.Exchange
import OperatorTree.Proofs.Tree.Rearranged

namespace OperatorTree.Store

set_option autoImplicit false

open Relation

universe u

variable {s t : Store} {a b m n p : NodeId} {i j : Nat} {e : Expr}

/-- Where the children of nodes are in another order, the expressions are rearranged. -/
theorem Rearranged.expr (rearranged : Rearranged s t) (forest : s.IsForest) (n : NodeId) :
    Tree.Rearranged (s.expr n) (t.expr n) := by
  induction n using forest.induction with
  | step n ih =>
      have below : Tree.Rearranged (.node (s.content n) ((s.children n).map s.expr))
          (.node (s.content n) ((s.children n).map t.expr)) :=
        Tree.Rearranged.each (s.content n) [] ih
      have order : Tree.Rearranged (.node (s.content n) ((s.children n).map t.expr))
          (.node (s.content n) ((t.children n).map t.expr)) :=
        Tree.Rearranged.of_perm (s.content n) [] ((rearranged.perm n).symm.map t.expr)
      rw [forest.expr_eq, (rearranged.forest forest).expr_eq, rearranged.content_eq]
      exact below.trans order

theorem set_set_append {α : Type u} (before : List α) (x : α) (between : List α) (y : α)
    (after : List α) :
    ((before ++ x :: (between ++ y :: after)).set before.length y).set
        (before.length + (between.length + 1)) x =
      before ++ y :: (between ++ x :: after) := by
  simp

/-- Two children exchanged: the expressions of the two are exchanged among the operands. -/
theorem IsForest.exists_swap_children (forest : s.IsForest) {first middle last : List NodeId}
    (split : s.children n = first ++ a :: (middle ++ b :: last)) :
    ∃ i j, (s.swap a b).1 = .ok (i, j) ∧ Exchanged s n i j (s.swap a b).2 ∧
      (s.swap a b).2.expr n = .node (s.content n) (first.map s.expr ++ s.expr b ::
        (middle.map s.expr ++ s.expr a :: last.map s.expr)) := by
  have here : (s.children n)[first.length]? = some a := by simp [split]
  have there : (s.children n)[first.length + (middle.length + 1)]? = some b := by simp [split]
  have swap := forest.swap_eq here there
  have exchanged := forest.exchanged_swap here there
  have forest' := (rearranged_swap s a b).forest forest
  refine ⟨_, _, by rw [swap], exchanged, ?_⟩
  have live : s.Live n := live_of_mem_children (List.mem_of_getElem? here)
  have children : (s.swap a b).2.children n = first ++ b :: (middle ++ a :: last) := by
    rw [swap, children_setChildren _ live, if_pos rfl, split, set_set_append]
  have kept : ((s.swap a b).2.children n).map (s.swap a b).2.expr =
      ((s.swap a b).2.children n).map s.expr := by
    refine List.map_congr_left fun c listed => ?_
    have child : c ∈ s.children n := ((rearranged_swap s a b).perm n).mem_iff.1 listed
    exact (exchanged.tree_eq_of_mem forest forest' child).2
  rw [forest'.expr_eq, kept, children, (rearranged_swap s a b).content_eq]
  simp only [List.map_append, List.map_cons]

/-- An exchange below a child changes the operand that the child makes up, and no other. -/
theorem Exchanged.expr_of_below (exchanged : Exchanged s p i j t) (forest : s.IsForest)
    (forest' : t.IsForest) {first last : List NodeId} (split : s.children n = first ++ m :: last)
    (below : ReflTransGen s.Lists m p) :
    t.expr n = .node (s.content n) (first.map s.expr ++ t.expr m :: last.map s.expr) := by
  have listed : m ∈ s.children n := by simp [split]
  have other : n ≠ p := by
    rintro rfl
    exact forest.not_below_child listed below
  have distinct := forest.nodup_children n
  rw [split, List.nodup_middle, List.nodup_cons, List.mem_append, not_or] at distinct
  -- The parent of the two is below `m`, so below no sibling of `m`.
  have kept : ∀ k ∈ s.children n, k ≠ m → t.expr k = s.expr k := fun k sibling differ =>
    (exchanged.tree_eq forest forest' fun inside => forest.siblings_apart listed sibling
      differ.symm below (forest.mem_preorder_tree.1 inside)).2
  have left : ∀ k ∈ first, t.expr k = s.expr k := fun k member =>
    kept k (by simp [split, member]) fun here => distinct.1.1 (here ▸ member)
  have right : ∀ k ∈ last, t.expr k = s.expr k := fun k member =>
    kept k (by simp [split, member]) fun here => distinct.1.2 (here ▸ member)
  have same := exchanged.node?_eq n other
  rw [forest'.expr_eq, content_of_node?_eq same, children_of_node?_eq same, split,
    List.map_append, List.map_cons, List.map_congr_left left, List.map_congr_left right]

/-- **An exchange of two subtrees of an expression is an exchange of nodes**, below the node that
makes up the expression. -/
theorem IsForest.exists_swap (forest : s.IsForest) (exchange : Tree.Exchange (s.expr n) e) :
    ∃ a b p i j, (s.swap a b).1 = .ok (i, j) ∧ ReflTransGen s.Lists n p ∧
      Exchanged s p i j (s.swap a b).2 ∧ (s.swap a b).2.expr n = e := by
  generalize whole : s.expr n = d at exchange
  induction exchange generalizing n with
  | here content before x between y after =>
      rw [forest.expr_eq, Tree.node.injEq] at whole
      obtain ⟨rfl, operands⟩ := whole
      obtain ⟨first, fromA, split, rfl, restA⟩ := List.map_eq_append_iff.1 operands
      obtain ⟨a, afterA, rfl, rfl, restM⟩ := List.map_eq_cons_iff.1 restA
      obtain ⟨middle, fromB, rfl, rfl, restB⟩ := List.map_eq_append_iff.1 restM
      obtain ⟨b, last, rfl, rfl, rfl⟩ := List.map_eq_cons_iff.1 restB
      obtain ⟨i, j, made, exchanged, expr⟩ := forest.exists_swap_children split
      exact ⟨a, b, n, i, j, made, .refl, exchanged, expr⟩
  | @inside content before c d after step ih =>
      rw [forest.expr_eq, Tree.node.injEq] at whole
      obtain ⟨rfl, operands⟩ := whole
      obtain ⟨first, others, split, rfl, rest⟩ := List.map_eq_append_iff.1 operands
      obtain ⟨m, last, rfl, same, rfl⟩ := List.map_eq_cons_iff.1 rest
      obtain ⟨a, b, p, i, j, made, below, exchanged, expr⟩ := ih same
      have listed : m ∈ s.children n := by simp [split]
      have forest' := (rearranged_swap s a b).forest forest
      refine ⟨a, b, p, i, j, made, .head listed below, exchanged, ?_⟩
      rw [exchanged.expr_of_below forest forest' split below, expr]

/-- **What exchanges of nodes can make of an expression** is what it can be rearranged to. -/
theorem IsForest.exists_swapAll_iff (forest : s.IsForest) :
    (∃ pairs, (s.swapAll pairs).expr n = e) ↔ Tree.Rearranged (s.expr n) e := by
  constructor
  · rintro ⟨pairs, rfl⟩
    exact (rearranged_swapAll pairs).expr forest n
  · intro rearranged
    induction rearranged with
    | refl => exact ⟨[], rfl⟩
    | tail _ exchange ih =>
        obtain ⟨pairs, rfl⟩ := ih
        have forest' := (rearranged_swapAll pairs).forest forest
        obtain ⟨a, b, p, i, j, -, -, -, expr⟩ := forest'.exists_swap exchange
        exact ⟨pairs ++ [(a, b)], by rwa [swapAll_append]⟩

end OperatorTree.Store
