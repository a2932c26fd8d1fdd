/-
# OperatorTree.Proofs.Store.Walks -- the bounded walks of a forest reach their ends

The walks up and down a store are cut off after as many steps as there are
slots.  In a forest no walk is that long: a way up names each node once, all of
them live (`IsForest.length_ancestors_lt`).  So the ancestors of a node are all
the nodes above it (`IsForest.mem_ancestors_iff`), the tree below a node has the
trees below its children right below the root (`IsForest.tree_eq`), and a
property may be shown of every node from the same property of its children
(`IsForest.induction`), or of its parent (`IsForest.induction_up`).

A node has one lister, so of two nodes above a third one is above the other.
Hence the trees below two siblings have no node in common
(`IsForest.siblings_apart`), and no tree names a node twice
(`IsForest.nodup_preorder`).
-/
import Mathlib.Data.List.Range
import Mathlib.Data.Finset.Card
import OperatorTree.Proofs.Store.Forest
import OperatorTree.Proofs.Tree.Flatten

namespace OperatorTree.Store

set_option autoImplicit false

open Relation

variable {s : Store} {c m n p q : NodeId}

/-! ## Up -/

theorem ancestorsFrom_of_root {steps : Nat} (root : s.parent? n = none) :
    s.ancestorsFrom steps n = [] := by
  cases steps with
  | zero => rfl
  | succ steps => simp [ancestorsFrom, root]

theorem ancestorsFrom_of_parent {steps : Nat} (above : s.parent? n = some p) :
    s.ancestorsFrom (steps + 1) n = p :: s.ancestorsFrom steps p := by
  simp [ancestorsFrom, above]

/-- A walk up that ends before its steps are used up ends at a root, and would be
the same with one step more. -/
theorem ancestorsFrom_succ {steps : Nat} (short : (s.ancestorsFrom steps n).length < steps) :
    s.ancestorsFrom (steps + 1) n = s.ancestorsFrom steps n := by
  induction steps generalizing n with
  | zero => simp at short
  | succ steps ih =>
      cases above : s.parent? n with
      | none => rw [ancestorsFrom_of_root above, ancestorsFrom_of_root above]
      | some p =>
          rw [ancestorsFrom_of_parent above, List.length_cons] at short
          rw [ancestorsFrom_of_parent above, ancestorsFrom_of_parent above, ih (by omega)]

namespace IsForest

theorem lists_iff (forest : s.IsForest) : s.Lists p c ↔ s.parent? c = some p :=
  forest.mem_children_iff_parent?

theorem above_of_mem_ancestorsFrom (forest : s.IsForest) {steps : Nat}
    (member : m ∈ s.ancestorsFrom steps n) : s.Above m n := by
  induction steps generalizing n with
  | zero => simp [ancestorsFrom] at member
  | succ steps ih =>
      cases above : s.parent? n with
      | none => simp [ancestorsFrom_of_root above] at member
      | some p =>
          rw [ancestorsFrom_of_parent above] at member
          have step : s.Lists p n := forest.lists_iff.2 above
          rcases List.mem_cons.1 member with rfl | later
          · exact .single step
          · exact (ih later).tail step

theorem live_of_above (forest : s.IsForest) (above : s.Above m n) : s.Live m ∧ s.Live n := by
  constructor
  · obtain ⟨c, listed, -⟩ := TransGen.head'_iff.1 above
    exact live_of_mem_children listed
  · obtain ⟨p, -, listed⟩ := TransGen.tail'_iff.1 above
    exact forest.live_of_mem listed

theorem live_of_below (forest : s.IsForest) (live : s.Live n)
    (below : ReflTransGen s.Lists n m) : s.Live m := by
  rcases ReflTransGen.cases_tail below with rfl | ⟨p, -, listed⟩
  · exact live
  · exact forest.live_of_mem listed

theorem nodup_ancestorsFrom (forest : s.IsForest) (steps : Nat) (n : NodeId) :
    (n :: s.ancestorsFrom steps n).Nodup := by
  have notOwn : ∀ steps n, n ∉ s.ancestorsFrom steps n := fun steps n member =>
    forest.acyclic n (forest.above_of_mem_ancestorsFrom member)
  induction steps generalizing n with
  | zero => simp [ancestorsFrom]
  | succ steps ih =>
      refine List.nodup_cons.2 ⟨notOwn _ n, ?_⟩
      cases above : s.parent? n with
      | none => simp [ancestorsFrom_of_root above]
      | some p =>
          rw [ancestorsFrom_of_parent above]
          exact ih p

/-- No way up is as long as the store: it names distinct live nodes besides its start. -/
theorem length_ancestorsFrom_lt (forest : s.IsForest) (steps : Nat) (live : s.Live n) :
    (s.ancestorsFrom steps n).length < s.slots.size := by
  have inside : ∀ m ∈ n :: s.ancestorsFrom steps n, m ∈ List.range s.slots.size := by
    intro m member
    rw [List.mem_range]
    rcases List.mem_cons.1 member with rfl | later
    · exact lt_size_of_live live
    · exact lt_size_of_live (forest.live_of_above (forest.above_of_mem_ancestorsFrom later)).1
  have := ((forest.nodup_ancestorsFrom steps n).subperm inside).length_le
  rw [List.length_cons, List.length_range] at this
  omega

theorem length_ancestors_lt (forest : s.IsForest) (live : s.Live n) :
    (s.ancestors n).length < s.slots.size :=
  forest.length_ancestorsFrom_lt _ live

/-- The ancestors of a node are its parent and the ancestors of that one. -/
theorem ancestors_eq_cons (forest : s.IsForest) (above : s.parent? n = some p) :
    s.ancestors n = p :: s.ancestors p := by
  have bound := forest.length_ancestors_lt (live_of_parent? above)
  unfold ancestors at bound ⊢
  cases size : s.slots.size with
  | zero => simp [size] at bound
  | succ steps =>
      rw [size, ancestorsFrom_of_parent above, List.length_cons] at bound
      rw [ancestorsFrom_of_parent above, ancestorsFrom_succ (by omega)]

/-- The ancestors of a node are the nodes above it. -/
theorem mem_ancestors_iff (forest : s.IsForest) : m ∈ s.ancestors n ↔ s.Above m n := by
  refine ⟨forest.above_of_mem_ancestorsFrom, ?_⟩
  intro above
  induction above with
  | single step =>
      rw [forest.ancestors_eq_cons (forest.lists_iff.1 step)]
      exact List.mem_cons_self
  | tail _ step ih =>
      rw [forest.ancestors_eq_cons (forest.lists_iff.1 step)]
      exact List.mem_cons_of_mem _ ih

theorem below_iff_mem_ancestors (forest : s.IsForest) :
    ReflTransGen s.Lists c p ↔ c = p ∨ c ∈ s.ancestors p := by
  rw [reflTransGen_iff_eq_or_transGen, forest.mem_ancestors_iff, eq_comm]
  rfl

/-- A property that a node inherits from its parent holds of every node. -/
theorem induction_up {P : NodeId → Prop} (forest : s.IsForest)
    (step : ∀ n, (∀ p, s.parent? n = some p → P p) → P n) (n : NodeId) : P n := by
  generalize height : (s.ancestors n).length = steps
  induction steps using Nat.strongRecOn generalizing n with
  | ind steps ih =>
      subst height
      apply step n
      intro p above
      refine ih _ ?_ p rfl
      rw [forest.ancestors_eq_cons above, List.length_cons]
      exact Nat.lt_succ_self _

/-! ## Down -/

/-- Below a node there are at most as many levels as nodes are left when those
above it are taken away. -/
theorem treeFrom_succ (forest : s.IsForest) {depth : Nat}
    (enough : s.slots.size ≤ depth + (s.ancestors n).length) :
    s.treeFrom (depth + 1) n = s.treeFrom depth n := by
  induction depth generalizing n with
  | zero =>
      have gone : ¬ s.Live n := fun live => by
        have := forest.length_ancestors_lt live
        omega
      simp [treeFrom, children_of_not_live gone]
  | succ depth ih =>
      rw [treeFrom, treeFrom]
      congr 1
      refine List.map_congr_left fun c member => ih ?_
      rw [forest.ancestors_eq_cons (forest.mem_children_iff_parent?.1 member), List.length_cons]
      omega

/-- The tree below a node has the trees below its children right below the root. -/
theorem tree_eq (forest : s.IsForest) (n : NodeId) :
    s.tree n = .node n ((s.children n).map s.tree) := by
  unfold tree
  rw [← forest.treeFrom_succ (Nat.le_add_right _ _), treeFrom]

@[simp] theorem value_tree (forest : s.IsForest) (n : NodeId) : (s.tree n).value = n := by
  rw [forest.tree_eq, Tree.value_node]

/-- A property that a node inherits from its children holds of every node. -/
theorem induction {P : NodeId → Prop} (forest : s.IsForest)
    (step : ∀ n, (∀ c ∈ s.children n, P c) → P n) (n : NodeId) : P n := by
  generalize below : s.tree n = t
  induction t using Tree.induction generalizing n with
  | step a cs ih =>
      apply step n
      intro c member
      rw [forest.tree_eq] at below
      injection below with _ subtrees
      exact ih (s.tree c) (subtrees ▸ List.mem_map_of_mem member) c rfl

/-- The expression of a node is its content over the expressions of its children. -/
theorem expr_eq (forest : s.IsForest) (n : NodeId) :
    s.expr n = .node (s.content n) ((s.children n).map s.expr) := by
  show (s.tree n).map s.content = _
  rw [forest.tree_eq, Tree.map_node, List.map_map]
  rfl

/-! ## The nodes below a node -/

theorem mem_preorder_tree (forest : s.IsForest) :
    m ∈ (s.tree n).preorder ↔ ReflTransGen s.Lists n m := by
  induction n using forest.induction with
  | step n ih =>
      rw [forest.tree_eq, Tree.preorder_node, List.mem_cons]
      constructor
      · rintro (rfl | below)
        · exact .refl
        · obtain ⟨t, member, below⟩ := List.mem_flatMap.1 below
          obtain ⟨c, listed, rfl⟩ := List.mem_map.1 member
          exact .head listed ((ih c listed).1 below)
      · intro below
        rcases ReflTransGen.cases_head below with same | ⟨c, listed, below⟩
        · exact .inl same.symm
        · refine .inr (List.mem_flatMap.2 ⟨s.tree c, List.mem_map_of_mem listed, ?_⟩)
          exact (ih c listed).2 below

/-- Each node of an expression is a node below the one that makes it up. -/
theorem all_expr_iff (forest : s.IsForest) {P : Content → List Expr → Prop} :
    (s.expr n).All P ↔
      ∀ m, ReflTransGen s.Lists n m → P (s.content m) ((s.children m).map s.expr) := by
  constructor
  · intro all m below
    induction below using ReflTransGen.head_induction_on with
    | refl =>
        rw [forest.expr_eq] at all
        exact all.here
    | head listed _ ih =>
        rw [forest.expr_eq] at all
        exact ih (all.of_mem _ (List.mem_map_of_mem listed))
  · intro each
    induction n using forest.induction with
    | step n ih =>
        rw [forest.expr_eq]
        refine .node (each n .refl) fun e member => ?_
        obtain ⟨c, listed, rfl⟩ := List.mem_map.1 member
        exact ih c listed fun m below => each m (.head listed below)

/-- Of two nodes above a third, one is above the other. -/
theorem reflTransGen_total (forest : s.IsForest) (first : ReflTransGen s.Lists p m)
    (second : ReflTransGen s.Lists q m) :
    ReflTransGen s.Lists p q ∨ ReflTransGen s.Lists q p := by
  induction first with
  | refl => exact .inr second
  | tail before listed ih =>
      rcases ReflTransGen.cases_tail second with same | ⟨r, before', listed'⟩
      · exact .inl (same ▸ before.tail listed)
      · exact ih (forest.eq_of_mem_of_mem listed listed' ▸ before')

/-- A node is not below its child. -/
theorem not_below_child (forest : s.IsForest) (listed : c ∈ s.children n) :
    ¬ ReflTransGen s.Lists c n := by
  intro below
  exact forest.acyclic n (TransGen.head' listed below)

/-- The trees below two siblings have no node in common. -/
theorem siblings_apart (forest : s.IsForest) (first : p ∈ s.children n) (second : q ∈ s.children n)
    (differ : p ≠ q) (below : ReflTransGen s.Lists p m) : ¬ ReflTransGen s.Lists q m := by
  have apart : ∀ {a b}, a ∈ s.children n → b ∈ s.children n → a ≠ b →
      ¬ ReflTransGen s.Lists a b := by
    intro a b above listed differ way
    rcases ReflTransGen.cases_tail way with same | ⟨r, before, listed'⟩
    · exact differ same.symm
    · exact forest.not_below_child above (forest.eq_of_mem_of_mem listed listed' ▸ before)
  intro below'
  rcases forest.reflTransGen_total below below' with way | way
  · exact apart first second differ way
  · exact apart second first differ.symm way

/-- The trees below the children of a node have no node in common. -/
theorem pairwise_children (forest : s.IsForest) (n : NodeId) :
    (s.children n).Pairwise fun c d =>
      ∀ m, ReflTransGen s.Lists c m → ¬ ReflTransGen s.Lists d m :=
  (forest.nodup_children n).pairwise_of_forall_ne fun _ first _ second differ _ below =>
    forest.siblings_apart first second differ below

/-- The tree below a node names no node twice. -/
theorem nodup_preorder (forest : s.IsForest) (n : NodeId) : (s.tree n).preorder.Nodup := by
  induction n using forest.induction with
  | step n ih =>
      rw [forest.tree_eq, Tree.preorder_node, List.flatMap_map, List.nodup_cons]
      constructor
      · intro below
        obtain ⟨c, listed, below⟩ := List.mem_flatMap.1 below
        exact forest.not_below_child listed (forest.mem_preorder_tree.1 below)
      · rw [List.nodup_flatMap]
        refine ⟨ih, (forest.pairwise_children n).imp fun apart m below below' => ?_⟩
        exact apart m (forest.mem_preorder_tree.1 below) (forest.mem_preorder_tree.1 below')

/-- A tree has no more nodes than the store has slots. -/
theorem length_preorder_le (forest : s.IsForest) (live : s.Live n) :
    (s.tree n).preorder.length ≤ s.slots.size := by
  have inside : (s.tree n).preorder ⊆ List.range s.slots.size := by
    intro m member
    rw [List.mem_range]
    rcases reflTransGen_iff_eq_or_transGen.1 (forest.mem_preorder_tree.1 member) with same | above
    · exact same ▸ lt_size_of_live live
    · exact lt_size_of_live (forest.live_of_above above).2
  have := ((forest.nodup_preorder n).subperm inside).length_le
  rwa [List.length_range] at this

end IsForest

/-! ## Stores that agree below a node -/

theorem below_congr {s s' : Store}
    (same : ∀ m, ReflTransGen s.Lists n m → s'.children m = s.children m)
    (below : ReflTransGen s.Lists n m) : ReflTransGen s'.Lists n m := by
  induction below with
  | refl => exact .refl
  | tail before step ih =>
      refine ih.tail ?_
      rw [Lists, same _ before]
      exact step

/-- The tree below a node depends on the child lists below it only. -/
theorem tree_congr {s s' : Store} (forest : s.IsForest) (forest' : s'.IsForest)
    (same : ∀ m, ReflTransGen s.Lists n m → s'.children m = s.children m) :
    s'.tree n = s.tree n := by
  induction n using forest.induction with
  | step n ih =>
      rw [forest'.tree_eq, forest.tree_eq, same n .refl]
      congr 1
      exact List.map_congr_left fun c member =>
        ih c member fun m below => same m (.head member below)

/-- The expression of a node depends on the nodes below it only. -/
theorem expr_congr {s s' : Store} (forest : s.IsForest) (forest' : s'.IsForest)
    (same : ∀ m, ReflTransGen s.Lists n m →
      s'.children m = s.children m ∧ s'.content m = s.content m) :
    s'.expr n = s.expr n := by
  induction n using forest.induction with
  | step n ih =>
      rw [forest'.expr_eq, forest.expr_eq, (same n .refl).1, (same n .refl).2]
      congr 1
      exact List.map_congr_left fun c member =>
        ih c member fun m below => same m (.head member below)

/-- A node whose tree is the same in two forests has the same children, and they have
the same trees. -/
theorem children_eq_of_tree_eq {s s' : Store} (forest : s.IsForest) (forest' : s'.IsForest)
    (same : s'.tree n = s.tree n) :
    s'.children n = s.children n ∧ ∀ c ∈ s.children n, s'.tree c = s.tree c := by
  rw [forest.tree_eq, forest'.tree_eq] at same
  injection same with _ subtrees
  have values := congrArg (List.map Tree.value) subtrees
  simp only [List.map_map, Function.comp_def, forest.value_tree, forest'.value_tree,
    List.map_id'] at values
  rw [values] at subtrees
  exact ⟨values, List.map_inj_left.1 subtrees⟩

theorem tree_eq_of_below {s s' : Store} (forest : s.IsForest) (forest' : s'.IsForest)
    (same : s'.tree n = s.tree n) (below : ReflTransGen s.Lists n m) : s'.tree m = s.tree m := by
  induction below with
  | refl => exact same
  | @tail p c _ listed ih => exact (children_eq_of_tree_eq forest forest' ih).2 c listed

end OperatorTree.Store
