/-
# OperatorTree.Proofs.Store.Survivors -- which nodes a flattening leaves where

A flattening merges, below the node that is flattened, exactly the nodes that
repeat the operator of their parent (`RepeatsParent`).  The others stay in the
tree (`below_flatten_iff`).  A node that was merged has lost its parent, and a
merge takes the children away with the parent, so it is alone
(`MergeRun.children_eq_nil`, `isRoot_of_merged`).

The merges of a flattening happen inside the tree that is flattened.  A set of
nodes is closed if it has the children of its members (`Closed`); merges at
members of a closed set leave every other node as it is
(`MergeRun.closed_and_node?_eq`), link and all.
-/
import OperatorTree.Proofs.Store.Flatten

namespace OperatorTree.Store

set_option autoImplicit false

open Relation

variable {s s' : Store} {c m n p : NodeId}

/-! ## Merges inside a closed set of nodes -/

/-- The set has the children of its members. -/
def Closed (s : Store) (A : NodeId → Prop) : Prop :=
  ∀ p c, A p → c ∈ s.children p → A c

theorem closed_below (s : Store) (n : NodeId) : s.Closed (ReflTransGen s.Lists n) :=
  fun _ _ below listed => below.tail listed

section MergeRun

variable {A : NodeId → Prop}

theorem Closed.mergeChild {index : Nat} (closed : s.Closed A) (forest : s.IsForest)
    (child : s.child? n index = some c) (inside : A n) : (s.mergeChild n index c).Closed A := by
  have insideChild : A c := closed n c inside (mem_children_of_child? child)
  intro p x member listed
  rw [mem_children_mergeChild forest child] at listed
  by_cases here : p = n
  · rw [if_pos here] at listed
    rcases listed with ⟨kept, -⟩ | moved
    · exact closed n x inside kept
    · exact closed c x insideChild moved
  · rw [if_neg here] at listed
    exact closed p x member listed.2

/-- Merges inside a closed set leave it closed, and the other nodes as they are. -/
theorem MergeRun.closed_and_node?_eq (run : MergeRun A s s') (forest : s.IsForest)
    (closed : s.Closed A) : s'.Closed A ∧ ∀ m, ¬ A m → s'.node? m = s.node? m := by
  induction run with
  | done => exact ⟨closed, fun _ _ => rfl⟩
  | @merge s s' n c index op inside child outer inner _ ih =>
      obtain ⟨closed', same⟩ := ih (forest.mergeChild child) (closed.mergeChild forest child inside)
      have insideChild : A c := closed n c inside (mem_children_of_child? child)
      refine ⟨closed', fun m outside => ?_⟩
      rw [same m outside]
      apply node?_mergeChild_of_ne forest child
      · rintro rfl
        exact outside inside
      · rintro rfl
        exact outside insideChild
      · exact fun moved => outside (closed c m insideChild moved)

/-- A step down after a run of merges is a way down before it. -/
theorem MergeRun.above_of_lists (run : MergeRun A s s') (forest : s.IsForest)
    (listed : s'.Lists p m) : s.Above p m := by
  induction run with
  | done => exact .single listed
  | merge _ child _ _ _ ih =>
      refine TransGen.closed (fun a b => ?_) _ _ (ih (forest.mergeChild child) listed)
      exact above_of_lists_mergeChild forest child

/-- A node without children stays without. -/
theorem MergeRun.children_eq_nil_of_eq_nil (run : MergeRun A s s') (forest : s.IsForest)
    (childless : s.children m = []) : s'.children m = [] := by
  induction run with
  | done => exact childless
  | merge _ child _ _ _ ih =>
      refine ih (forest.mergeChild child) ?_
      rw [children_mergeChild forest child]
      split
      · rename_i here
        have listed := mem_children_of_child? child
        rw [← here, childless] at listed
        cases listed
      · rw [childless, ite_self]

/-- A node that loses its parent in a run of merges was merged, and has no children after it. -/
theorem MergeRun.children_eq_nil (run : MergeRun A s s') (forest : s.IsForest)
    (listed : m ∈ s.children p) (detached : s'.parent? m = none) : s'.children m = [] := by
  induction run generalizing p with
  | done => exact absurd listed (forest.not_mem_of_isRoot detached)
  | @merge s s' n c index op _ child _ _ run ih =>
      have forest' := forest.mergeChild child
      by_cases merged : m = c
      · have notOuter : c ≠ n := forest.ne_of_mem (mem_children_of_child? child)
        refine run.children_eq_nil_of_eq_nil forest' ?_
        rw [children_mergeChild forest child, merged, if_neg notOuter, if_pos rfl]
      · -- Any other node that was listed still is, if it moved then by `n`.
        by_cases moved : p = c
        · refine ih forest' (p := n) ?_ detached
          rw [mem_children_mergeChild forest child, if_pos rfl]
          exact .inr (moved ▸ listed)
        · refine ih forest' (p := p) ?_ detached
          rw [mem_children_mergeChild forest child]
          split
          · rename_i here
            exact .inl ⟨here ▸ listed, merged⟩
          · exact ⟨moved, listed⟩

end MergeRun

section Merged

variable (below : ReflTransGen s.Lists n m) (merged : ¬ ReflTransGen s'.Lists n m)

include below merged

/-- A node that was merged had a parent. -/
theorem exists_lists_of_merged : ∃ p, ReflTransGen s.Lists n p ∧ m ∈ s.children p := by
  rcases ReflTransGen.cases_tail below with same | ⟨p, before, listed⟩
  · exact absurd (same ▸ .refl) merged
  · exact ⟨p, before, listed⟩

namespace MergeRun

variable (run : MergeRun (ReflTransGen s.Lists n) s s') (forest : s.IsForest)

include run forest

/-- A node that was merged has lost its parent. -/
theorem isRoot_of_merged : s'.IsRoot m := by
  have forest' := (run.regrouped forest).forest
  have outside := (run.closed_and_node?_eq forest (s.closed_below n)).2
  induction m using forest'.induction_up with
  | step m ih =>
      refine Option.eq_none_iff_forall_ne_some.2 fun p above => ?_
      have listed := forest'.mem_children_iff_parent?.2 above
      obtain ⟨q, belowQ, listedQ⟩ := exists_lists_of_merged below merged
      by_cases belowP : ReflTransGen s.Lists n p
      · -- The parent would have been merged itself, and then it has no children.
        have mergedP : ¬ ReflTransGen s'.Lists n p := fun way => merged (way.tail listed)
        obtain ⟨r, -, listedP⟩ := exists_lists_of_merged belowP mergedP
        have none := run.children_eq_nil forest listedP (ih p above belowP mergedP)
        rw [none] at listed
        cases listed
      · rw [children_of_node?_eq (outside p belowP)] at listed
        exact belowP (forest.eq_of_mem_of_mem listed listedQ ▸ belowQ)

/-- A node that was merged has no children any more. -/
theorem children_eq_nil_of_merged : s'.children m = [] := by
  obtain ⟨p, -, listed⟩ := exists_lists_of_merged below merged
  exact run.children_eq_nil forest listed (run.isRoot_of_merged below merged forest)

end MergeRun

end Merged

/-- The merges of a flattening are at nodes of the tree. -/
theorem mergeRun_flatten_below (forest : s.IsForest) (n : NodeId) :
    MergeRun (ReflTransGen s.Lists n) s (s.flatten n).2 :=
  (mergeRun_flatten s n).mono fun _ member =>
    forest.mem_preorder_tree.1 (Tree.mem_postorder.1 member)

/-- A flattening leaves the nodes outside the tree as they are. -/
theorem node?_flatten (forest : s.IsForest) (outside : ¬ ReflTransGen s.Lists n m) :
    (s.flatten n).2.node? m = s.node? m :=
  ((mergeRun_flatten_below forest n).closed_and_node?_eq forest (s.closed_below n)).2 m outside

/-! ## Which nodes stay in the tree -/

/-- The node has the operator of its parent. -/
def RepeatsParent (s : Store) (m : NodeId) : Prop :=
  ∃ p op, s.parent? m = some p ∧ s.operator? p = some op ∧ s.operator? m = some op

/-- A child repeats its parent just when it has the parent's operator. -/
theorem IsForest.repeatsParent_iff (forest : s.IsForest) (listed : c ∈ s.children n) :
    s.RepeatsParent c ↔ ∃ op, s.operator? n = some op ∧ s.operator? c = some op := by
  have above := forest.mem_children_iff_parent?.1 listed
  constructor
  · rintro ⟨p, op, above', outer, inner⟩
    rw [above] at above'
    cases above'
    exact ⟨op, outer, inner⟩
  · rintro ⟨op, outer, inner⟩
    exact ⟨n, op, above, outer, inner⟩

/-- Below the root of a flattened tree are the nodes of the tree that do not
repeat their parents. -/
theorem mem_preorder_children_flatten (forest : s.IsForest) :
    m ∈ ((s.tree n).flatten s.operator?).children.flatMap Tree.preorder ↔
      s.Above n m ∧ ¬ s.RepeatsParent m := by
  induction n using forest.induction generalizing m with
  | step n ih =>
      -- A child leaves itself, if it does not repeat `n`, and what is left below it.
      have left : ∀ c ∈ s.children n,
          (m = c ∧ ¬ (∃ op, s.operator? n = some op ∧ s.operator? c = some op) ∨
            m ∈ ((s.tree c).flatten s.operator?).children.flatMap Tree.preorder) ↔
          ReflTransGen s.Lists c m ∧ ¬ s.RepeatsParent m := by
        intro c listed
        rw [ih c listed, ← forest.repeatsParent_iff listed, reflTransGen_iff_eq_or_transGen,
          or_and_right]
        refine or_congr_left (and_congr_right fun same => ?_)
        rw [same]
      have below : s.Above n m ↔ ∃ c ∈ s.children n, ReflTransGen s.Lists c m :=
        TransGen.head'_iff
      rw [forest.tree_eq, Tree.flatten_node, Tree.children_node,
        Tree.mem_flatMap_preorder_mergeBelow, below, List.map_map]
      constructor
      · rintro ⟨t, among, kept⟩
        obtain ⟨c, listed, rfl⟩ := List.mem_map.1 among
        rw [Function.comp_apply, Tree.value_flatten, forest.value_tree] at kept
        obtain ⟨under, new⟩ := (left c listed).1 kept
        exact ⟨⟨c, listed, under⟩, new⟩
      · rintro ⟨⟨c, listed, under⟩, new⟩
        refine ⟨(s.tree c).flatten s.operator?, List.mem_map_of_mem listed, ?_⟩
        rw [Tree.value_flatten, forest.value_tree]
        exact (left c listed).2 ⟨under, new⟩

section Flatten

variable (forest : s.IsForest)

include forest

/-- **Which nodes stay.**  In the tree of `n` are, after it was flattened, `n` itself
and those below it that do not repeat their parents. -/
theorem below_flatten_iff :
    ReflTransGen (s.flatten n).2.Lists n m ↔ m = n ∨ s.Above n m ∧ ¬ s.RepeatsParent m := by
  have flattened := flattened_flatten forest n
  rw [← flattened.regrouped.forest.mem_preorder_tree, flattened.tree_eq,
    ← mem_preorder_children_flatten forest]
  have root : ((s.tree n).flatten s.operator?).value = n := by
    rw [Tree.value_flatten, forest.value_tree]
  generalize (s.tree n).flatten s.operator? = t at root ⊢
  cases t with
  | node a ts =>
      rw [Tree.value_node] at root
      rw [Tree.preorder_node, List.mem_cons, Tree.children_node, root]

/-- The parent of a node that is not below another, in particular of the root of
the tree, stays what it was. -/
theorem parent?_flatten (outside : ¬ s.Above n m) : (s.flatten n).2.parent? m = s.parent? m := by
  have run := mergeRun_flatten_below forest n
  have forest' := (run.regrouped forest).forest
  have same : ∀ p, m ∈ (s.flatten n).2.children p ↔ m ∈ s.children p := by
    intro p
    by_cases below : ReflTransGen s.Lists n p
    · refine iff_of_false (fun listed => outside ?_) (fun listed => outside ?_)
      · exact TransGen.trans_right below (run.above_of_lists forest listed)
      · exact TransGen.tail' below listed
    · rw [children_of_node?_eq (node?_flatten forest below)]
  apply Option.ext
  intro p
  rw [← forest'.mem_children_iff_parent?, same, forest.mem_children_iff_parent?]

section Merged

variable (below : ReflTransGen s.Lists n m) (merged : ¬ ReflTransGen (s.flatten n).2.Lists n m)

include below merged

theorem isRoot_of_merged : (s.flatten n).2.IsRoot m :=
  (mergeRun_flatten_below forest n).isRoot_of_merged below merged forest

theorem children_eq_nil_of_merged : (s.flatten n).2.children m = [] :=
  (mergeRun_flatten_below forest n).children_eq_nil_of_merged below merged forest

end Merged

end Flatten

end OperatorTree.Store
