/-
# OperatorTree.Proofs.Store.Confluence -- merges done early are merges saved

A merge leaves every node, but the merged one, a tree that flattens to the same as
before (`flatten_tree_mergeChild`).  So a run of merges anywhere in the tree of a
node keeps what that tree flattens to (`MergeRun.flatten_tree`), in whatever order
the merges are done and whether or not any node is done with.

A run of merges inside a tree is known by the tree that it leaves: what stays has
its content and the place that the tree gives it, and what was merged is alone
(`MergeRun.eq_of_tree_eq`).  Together the two say that a flattening absorbs all
merges inside the tree before it, to the last link (`MergeRun.flatten_eq`).

Of trees that have no node in common each is flattened by itself.  Nodes that are
equal in structure head such trees, and so do a node and its deep copy, so flattening
keeps them equal (`IsForest.equal_flatten_both`, `IsForest.equal_flatten_deepCopy`).
-/
import OperatorTree.Proofs.Store.Compare
import OperatorTree.Proofs.Store.Survivors

namespace OperatorTree.Store

set_option autoImplicit false

open Relation

variable {s s' r r' : Store} {A : NodeId → Prop} {c m n p t : NodeId}

/-! ## Merges keep the flattened tree -/

/-- A merge leaves every other node a tree that flattens to the same. -/
theorem flatten_tree_mergeChild {index : Nat} {op : Operator} (forest : s.IsForest)
    (child : s.child? n index = some c) (outer : s.operator? n = some op)
    (inner : s.operator? c = some op) (other : m ≠ c) :
    ((s.mergeChild n index c).tree m).flatten s.operator? =
      (s.tree m).flatten s.operator? := by
  have forest' := forest.mergeChild child
  induction m using forest'.induction with
  | step m ih =>
      -- No child that is left is the merged one, so each flattens as before.
      have each : ((s.mergeChild n index c).children m).map
          (Tree.flatten s.operator? ∘ (s.mergeChild n index c).tree) =
          ((s.mergeChild n index c).children m).map (Tree.flatten s.operator? ∘ s.tree) := by
        refine List.map_congr_left fun d listed => ih d listed ?_
        rintro rfl
        have detached : (s.mergeChild n index d).link? d = none := by
          rw [link?_mergeChild forest child, if_pos rfl]
        simp [forest'.mem_children_iff.1 listed] at detached
      rw [← List.map_map, ← List.map_map] at each
      rw [forest'.tree_eq, Tree.flatten_node_congr each, forest.tree_eq m]
      by_cases here : m = n
      · subst here
        obtain ⟨inside, rfl⟩ := List.getElem?_eq_some_iff.1 child
        have split : s.children m = (s.children m).take index ++
            (s.children m)[index] :: (s.children m).drop (index + 1) := by
          rw [List.getElem_cons_drop, List.take_append_drop]
        rw [children_mergeChild forest child, if_pos rfl]
        conv_rhs => rw [split]
        rw [List.map_append, List.map_append, List.map_append, List.map_cons,
          forest.tree_eq (s.children m)[index]]
        exact Tree.flatten_node_splice outer inner _ _ _
      · rw [children_mergeChild_of_ne forest child here other]

/-- A run of merges keeps what the tree of `t` flattens to, if none of them merges `t`. -/
theorem MergeRun.flatten_tree (run : MergeRun A s s') (forest : s.IsForest)
    (top : ∀ n, A n → ¬ s.Above n t) :
    (s'.tree t).flatten s.operator? = (s.tree t).flatten s.operator? := by
  induction run with
  | done => rfl
  | @merge s s' n c index op inside child outer inner _ ih =>
      have forest' := forest.mergeChild child
      have other : t ≠ c := by
        rintro rfl
        exact top n inside (.single (mem_children_of_child? child))
      have operators : (s.mergeChild n index c).operator? = s.operator? :=
        funext fun _ => operator?_mergeChild
      have rest := ih forest' fun m member above => top m member <|
        TransGen.closed (fun a b => above_of_lists_mergeChild forest child) _ _ above
      rw [operators] at rest
      exact rest.trans (flatten_tree_mergeChild forest child outer inner other)

/-! ## Runs in one tree -/

namespace MergeRun

/-- A node that no merge is above of has its link as before. -/
theorem link?_eq (run : MergeRun A s s') (forest : s.IsForest) (top : ∀ n, A n → ¬ s.Above n m) :
    s'.link? m = s.link? m := by
  induction run with
  | done => rfl
  | @merge s s' n c index op inside child outer inner _ ih =>
      have listed := mem_children_of_child? child
      have notChild : m ≠ c := by
        rintro rfl
        exact top n inside (.single listed)
      have notMoved : m ∉ s.children c := fun moved =>
        top n inside (.tail (.single listed) moved)
      have rest := ih (forest.mergeChild child) fun m member above => top m member <|
        TransGen.closed (fun a b => above_of_lists_mergeChild forest child) _ _ above
      rw [rest, link?_mergeChild forest child, if_neg notChild, if_neg notMoved]

/-- A link that leads to a live node does not come to dangle. -/
theorem live_of_link? (run : MergeRun A s s') (forest : s.IsForest)
    (leads : ∀ p, s.link? m = some p → s.Live p) : ∀ p, s'.link? m = some p → s'.Live p := by
  induction run with
  | done => exact leads
  | @merge s s' n c index op _ child _ _ _ ih =>
      refine ih (forest.mergeChild child) fun p linked => live_mergeChild.2 ?_
      rw [link?_mergeChild forest child] at linked
      by_cases merged : m = c
      · simp [merged] at linked
      · by_cases moved : m ∈ s.children c
        · rw [if_neg merged, if_pos moved] at linked
          cases linked
          exact live_of_mem_children (mem_children_of_child? child)
        · rw [if_neg merged, if_neg moved] at linked
          exact leads p linked

section OneTree

variable (run : MergeRun (ReflTransGen s.Lists t) s s') (forest : s.IsForest)

include run forest

theorem link?_root : s'.link? t = s.link? t :=
  run.link?_eq forest fun _ below above => forest.acyclic t (TransGen.trans_right below above)

/-- A node that was merged has no link any more. -/
theorem link?_eq_none_of_merged (below : ReflTransGen s.Lists t m)
    (merged : ¬ ReflTransGen s'.Lists t m) : s'.link? m = none := by
  obtain ⟨p, -, listed⟩ := exists_lists_of_merged below merged
  have linked := forest.mem_children_iff.1 listed
  have leads := run.live_of_link? forest (m := m) fun q linked' => by
    rw [linked.1] at linked'
    exact Option.some.inj linked' ▸ linked.2
  have root := run.isRoot_of_merged below merged forest
  refine Option.eq_none_iff_forall_ne_some.2 fun q linked' => ?_
  have above := parent?_eq_some_iff.2 ⟨linked', leads q linked'⟩
  rw [root] at above
  cases above

end OneTree

section TwoRuns

variable (run : MergeRun (ReflTransGen s.Lists t) s s') (forest : s.IsForest)
  (runR : MergeRun (ReflTransGen r.Lists t) r r') (forestR : r.IsForest)
  (same : ∀ m, ReflTransGen s.Lists t m → r.node? m = s.node? m) (tree : r'.tree t = s'.tree t)

include run forest runR forestR same tree

/-- Where two stores have the same nodes in a tree, runs of merges that leave the same
tree leave the same nodes. -/
theorem node?_eq_of_tree_eq (below : ReflTransGen s.Lists t m) : r'.node? m = s'.node? m := by
  have belowR : ReflTransGen r.Lists t m :=
    below_congr (fun k way => children_of_node?_eq (same k way)) below
  have regrouped := run.regrouped forest
  have regroupedR := runR.regrouped forestR
  have here := same m below
  have stays : ReflTransGen r'.Lists t m ↔ ReflTransGen s'.Lists t m := by
    rw [← regroupedR.forest.mem_preorder_tree, tree, regrouped.forest.mem_preorder_tree]
  refine node?_ext ?live ?content ?children ?link
  case live => rw [regroupedR.live_iff, regrouped.live_iff, live_of_node?_eq here]
  case content => rw [regroupedR.content_eq, regrouped.content_eq, content_of_node?_eq here]
  case children =>
    by_cases left : ReflTransGen s'.Lists t m
    · exact (children_eq_of_tree_eq regrouped.forest regroupedR.forest
        (tree_eq_of_below regrouped.forest regroupedR.forest tree left)).1
    · rw [run.children_eq_nil_of_merged below left forest,
        runR.children_eq_nil_of_merged belowR (mt stays.1 left) forestR]
  case link =>
    by_cases left : ReflTransGen s'.Lists t m
    · rcases ReflTransGen.cases_tail left with rfl | ⟨p, way, listed⟩
      · rw [run.link?_root forest, runR.link?_root forestR, link?_of_node?_eq here]
      · have above := tree_eq_of_below regrouped.forest regroupedR.forest tree way
        have lists := (children_eq_of_tree_eq regrouped.forest regroupedR.forest above).1
        have listedR : m ∈ r'.children p := lists ▸ listed
        rw [(regrouped.forest.mem_children_iff.1 listed).1,
          (regroupedR.forest.mem_children_iff.1 listedR).1]
    · rw [run.link?_eq_none_of_merged forest below left,
        runR.link?_eq_none_of_merged forestR belowR (mt stays.1 left)]

end TwoRuns

/-- **A run of merges inside a tree is known by the tree that it leaves.** -/
theorem eq_of_tree_eq {s'' : Store} (forest : s.IsForest)
    (first : MergeRun (ReflTransGen s.Lists t) s s')
    (second : MergeRun (ReflTransGen s.Lists t) s s'') (tree : s''.tree t = s'.tree t) :
    s'' = s' := by
  refine ext_node? ?_ fun m => ?_
  · rw [(second.regrouped forest).size_eq, (first.regrouped forest).size_eq]
  · by_cases below : ReflTransGen s.Lists t m
    · exact first.node?_eq_of_tree_eq forest second forest (fun _ _ => rfl) tree below
    · rw [(second.closed_and_node?_eq forest (s.closed_below t)).2 m below,
        (first.closed_and_node?_eq forest (s.closed_below t)).2 m below]

/-- What is below a node after a run of merges was below it before. -/
theorem below_of_below (run : MergeRun A s s') (forest : s.IsForest)
    (below : ReflTransGen s'.Lists t m) : ReflTransGen s.Lists t m := by
  induction below with
  | refl => exact .refl
  | tail _ listed ih => exact ih.trans (run.above_of_lists forest listed).to_reflTransGen

/-- **A flattening absorbs every run of merges inside the tree before it**: it leads to
the same store. -/
theorem flatten_eq (run : MergeRun (ReflTransGen s.Lists t) s s') (forest : s.IsForest) :
    (s'.flatten t).2 = (s.flatten t).2 := by
  have regrouped := run.regrouped forest
  have later := (mergeRun_flatten_below regrouped.forest t).mono fun _ way =>
    run.below_of_below forest way
  refine eq_of_tree_eq forest (mergeRun_flatten_below forest t) (run.trans later) ?_
  rw [(flattened_flatten regrouped.forest t).tree_eq, (flattened_flatten forest t).tree_eq,
    regrouped.operator?_funext]
  exact run.flatten_tree forest fun n below above =>
    forest.acyclic t (TransGen.trans_right below above)

end MergeRun

/-! ## Flattening nodes of a tree before the tree -/

/-- Flattens nodes one after the other, each if it is in the tree of `t` when its turn comes. -/
def flattenWithin (t : NodeId) : List NodeId → Store → Store
  | [], s => s
  | n :: ns, s => flattenWithin t ns (if n ∈ (s.tree t).preorder then (s.flatten n).2 else s)

theorem mergeRun_flatten_within (forest : s.IsForest) (within : n ∈ (s.tree t).preorder) :
    MergeRun (ReflTransGen s.Lists t) s (s.flatten n).2 :=
  (mergeRun_flatten_below forest n).mono fun _ way =>
    (forest.mem_preorder_tree.1 within).trans way

theorem mergeRun_flattenWithin (forest : s.IsForest) (t : NodeId) (ns : List NodeId) :
    MergeRun (ReflTransGen s.Lists t) s (flattenWithin t ns s) := by
  induction ns generalizing s with
  | nil => exact .done s
  | cons n ns ih =>
      unfold flattenWithin
      by_cases within : n ∈ (s.tree t).preorder
      · have first := mergeRun_flatten_within forest within
        rw [if_pos within]
        refine first.trans ((ih (first.regrouped forest).forest).mono fun _ way => ?_)
        exact first.below_of_below forest way
      · rw [if_neg within]
        exact ih forest

/-- Flattening nodes of a tree first, in any order, makes no difference to flattening the tree. -/
theorem flatten_flattenWithin (forest : s.IsForest) (t : NodeId) (ns : List NodeId) :
    ((flattenWithin t ns s).flatten t).2 = (s.flatten t).2 :=
  (mergeRun_flattenWithin forest t ns).flatten_eq forest

/-- A second flattening changes nothing. -/
theorem flatten_flatten (forest : s.IsForest) (t : NodeId) :
    ((s.flatten t).2.flatten t).2 = (s.flatten t).2 :=
  (mergeRun_flatten_below forest t).flatten_eq forest

/-! ## Trees apart -/

section Apart

variable (forest : s.IsForest)
  (apart : ∀ k, ReflTransGen s.Lists n k → ¬ ReflTransGen s.Lists m k)

include forest apart

/-- Flattening one tree leaves the expression of another as it was. -/
theorem expr_flatten_of_apart : (s.flatten n).2.expr m = s.expr m := by
  refine expr_congr forest (regrouped_flatten forest n).forest fun k below => ?_
  have same := node?_flatten forest fun way => apart k way below
  exact ⟨children_of_node?_eq same, content_of_node?_eq same⟩

theorem apart_flatten (k : NodeId) (below : ReflTransGen (s.flatten n).2.Lists m k) :
    ¬ ReflTransGen (s.flatten n).2.Lists n k := by
  intro way
  have run := mergeRun_flatten_below forest n
  exact apart k (run.below_of_below forest way) (run.below_of_below forest below)

/-- Of two trees apart, each is flattened as if it were alone. -/
theorem expr_flatten_both : ((s.flatten n).2.flatten m).2.expr n = (s.expr n).flatten ∧
    ((s.flatten n).2.flatten m).2.expr m = (s.expr m).flatten := by
  have forest' := (regrouped_flatten forest n).forest
  constructor
  · rw [expr_flatten_of_apart forest' (apart_flatten forest apart), expr_flatten forest]
  · rw [expr_flatten forest', expr_flatten_of_apart forest apart]

end Apart

/-- A node above another has more nodes in its tree. -/
theorem IsForest.length_preorder_lt (forest : s.IsForest) (above : s.Above n m) :
    (s.tree m).preorder.length < (s.tree n).preorder.length := by
  have child : ∀ p c, s.Lists p c →
      (s.tree c).preorder.length < (s.tree p).preorder.length := by
    intro p c listed
    have inside : (s.tree c).preorder ⊆ ((s.children p).map s.tree).flatMap Tree.preorder :=
      fun k below => List.mem_flatMap.2 ⟨s.tree c, List.mem_map_of_mem listed, below⟩
    rw [forest.tree_eq p, Tree.preorder_node, List.length_cons]
    exact Nat.lt_succ_of_le ((forest.nodup_preorder c).subperm inside).length_le
  induction above with
  | single listed => exact child _ _ listed
  | tail _ listed ih => exact Nat.lt_trans (child _ _ listed) ih

/-! ## Equal trees and copies -/

/-- Two nodes that make up one expression have no node of their trees in common. -/
theorem IsForest.apart_of_expr_eq (forest : s.IsForest) (same : s.expr m = s.expr n)
    (differ : m ≠ n) (k : NodeId) (below : ReflTransGen s.Lists n k) :
    ¬ ReflTransGen s.Lists m k := by
  intro below'
  have sizes : (s.tree m).preorder.length = (s.tree n).preorder.length := by
    have lists := congrArg (fun e => (Tree.preorder e).length) same
    simpa only [expr, Tree.preorder_map, List.length_map] using lists
  rcases forest.reflTransGen_total below below' with way | way
  · rcases reflTransGen_iff_eq_or_transGen.1 way with same | above
    · exact differ same
    · exact Nat.ne_of_lt (forest.length_preorder_lt above) sizes
  · rcases reflTransGen_iff_eq_or_transGen.1 way with same | above
    · exact differ same.symm
    · exact Nat.ne_of_gt (forest.length_preorder_lt above) sizes

/-- Nodes that are equal in structure are so when both have been flattened. -/
theorem IsForest.equal_flatten_both (forest : s.IsForest) (equal : s.equal n m = true) :
    ((s.flatten n).2.flatten m).2.equal n m = true := by
  have regrouped := regrouped_flatten forest n
  rw [(regrouped_flatten regrouped.forest m).forest.equal_iff]
  rw [forest.equal_iff] at equal
  by_cases differ : m = n
  · rw [differ]
  · obtain ⟨first, second⟩ :=
      expr_flatten_both forest (forest.apart_of_expr_eq equal.symm differ)
    rw [first, second, equal]

/-- Flattening a copy of a tree and copying the flattened tree give equal trees. -/
theorem IsForest.equal_flatten_deepCopy (forest : s.IsForest) (live : s.Live t) :
    let copied := (s.deepCopy t).2
    let both := ((copied.flatten (s.deepCopy t).1).2.flatten t).2
    (both.deepCopy t).2.equal (s.deepCopy t).1 (both.deepCopy t).1 = true := by
  intro copied both
  have planted := planted_deepCopy forest t
  have regrouped := (regrouped_flatten planted.forest (s.deepCopy t).1).trans
    (regrouped_flatten (regrouped_flatten planted.forest (s.deepCopy t).1).forest t)
  obtain ⟨exprCopy, expr⟩ := expr_flatten_both planted.forest fun k new below =>
    planted.not_below_of_below forest live below new
  have again := planted_deepCopy regrouped.forest t
  rw [again.forest.equal_iff, again.expr_eq,
    again.expr_old regrouped.forest ((regrouped.live_iff _).2 planted.live), exprCopy, expr,
    planted.expr_eq, planted.expr_old forest live]

end OperatorTree.Store
