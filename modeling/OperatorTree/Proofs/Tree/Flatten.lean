/-
# OperatorTree.Proofs.Tree.Flatten -- what a flattened tree is like

`Tree.All P` says that each node of a tree satisfies `P` together with the list
of its subtrees.  A tree is flat when no node has a child with its own operator
(`Flat`); flattening makes a tree flat (`flat_flatten`), and what it leaves is
nothing but values of the tree (`preorder_flatten_subset`).
-/
import Mathlib.Data.List.Perm.Basic
import OperatorTree.Tree.Flatten

namespace OperatorTree.Tree

set_option autoImplicit false

universe u v

variable {α : Type u}

/-- Each node of the tree satisfies `P`, given its subtrees. -/
inductive All (P : α → List (Tree α) → Prop) : Tree α → Prop where
  | node {a : α} {cs : List (Tree α)} : P a cs → (∀ c ∈ cs, All P c) → All P (.node a cs)

namespace All

variable {P : α → List (Tree α) → Prop} {a : α} {cs : List (Tree α)}

theorem here (all : (Tree.node a cs).All P) : P a cs := by
  cases all
  assumption

theorem of_mem (all : (Tree.node a cs).All P) : ∀ c ∈ cs, c.All P := by
  cases all
  assumption

theorem of_mem_children {t c : Tree α} (all : t.All P) (member : c ∈ t.children) : c.All P := by
  cases t
  exact all.of_mem c member

theorem mono {Q : α → List (Tree α) → Prop} {t : Tree α} (weaker : ∀ a cs, P a cs → Q a cs)
    (all : t.All P) : t.All Q := by
  induction all with
  | node here _ ih => exact .node (weaker _ _ here) ih

end All

theorem all_of_forall {P : α → List (Tree α) → Prop} (each : ∀ a cs, P a cs) (t : Tree α) :
    t.All P := by
  induction t using Tree.induction with
  | step a cs ih => exact .node (each a cs) ih

theorem value_mem_preorder (t : Tree α) : t.value ∈ t.preorder := by
  cases t
  simp

theorem preorder_map {β : Type v} (f : α → β) (t : Tree α) :
    (t.map f).preorder = t.preorder.map f := by
  induction t using Tree.induction with
  | step a cs ih =>
      rw [map_node, preorder_node, preorder_node, List.flatMap_map, List.map_cons, List.map_flatMap]
      exact congrArg (f a :: ·) (List.flatMap_congr ih)

/-- Both orders go through the same values. -/
theorem postorder_perm (t : Tree α) : t.postorder.Perm t.preorder := by
  induction t using Tree.induction with
  | step a cs ih =>
      rw [postorder_node, preorder_node]
      exact List.perm_append_comm.trans (.cons a (List.Perm.flatMap_left cs ih))

variable {op? : α → Option Operator} {op : Operator}

/-- No node has a child with its own operator. -/
def Flat (op? : α → Option Operator) : Tree α → Prop :=
  All fun a cs => ∀ op, op? a = some op → ∀ c ∈ cs, op? c.value ≠ some op

/-- The flattened tree of a node depends on the flattened trees of its children only. -/
theorem flatten_node_congr {a : α} {cs ds : List (Tree α)}
    (same : cs.map (flatten op?) = ds.map (flatten op?)) :
    (node a cs).flatten op? = (node a ds).flatten op? := by
  rw [flatten_node, flatten_node, same]

/-- Flattening looks at the operators of the values in the tree only. -/
theorem flatten_congr {op?' : α → Option Operator} {t : Tree α}
    (same : ∀ a ∈ t.preorder, op?' a = op? a) : t.flatten op?' = t.flatten op? := by
  induction t using Tree.induction with
  | step a cs ih =>
      rw [preorder_node] at same
      have below : ∀ c ∈ cs, ∀ b ∈ c.preorder, op?' b = op? b := fun c member b inside =>
        same b (List.mem_cons_of_mem a (List.mem_flatMap.2 ⟨c, member, inside⟩))
      have flattened : cs.map (flatten op?') = cs.map (flatten op?) :=
        List.map_congr_left fun c member => ih c member (below c member)
      rw [flatten_node, flatten_node, flattened, mergeBelow, mergeBelow, same a List.mem_cons_self]
      cases op? a with
      | none => rfl
      | some op =>
          refine congrArg (node a) (List.flatMap_congr fun d member => ?_)
          obtain ⟨c, inside, rfl⟩ := List.mem_map.1 member
          rw [merge, merge, value_flatten, below c inside c.value (value_mem_preorder c)]

theorem flatten_node_of_operator {a : α} (own : op? a = some op) (cs : List (Tree α)) :
    (node a cs).flatten op? = node a (cs.flatMap fun c => merge op? op (c.flatten op?)) := by
  simp only [flatten_node, mergeBelow, own, List.flatMap_map]

/-- A child with the operator of its parent flattens to the same as its children in its place. -/
theorem flatten_node_splice {a b : α} (outer : op? a = some op) (inner : op? b = some op)
    (before cs after : List (Tree α)) :
    (node a (before ++ cs ++ after)).flatten op? =
      (node a (before ++ node b cs :: after)).flatten op? := by
  have merged : merge op? op ((node b cs).flatten op?) =
      cs.flatMap fun c => merge op? op (c.flatten op?) := by
    rw [flatten_node_of_operator inner, merge, value_node, if_pos inner, children_node]
  rw [flatten_node_of_operator outer, flatten_node_of_operator outer, List.flatMap_append,
    List.flatMap_append, List.flatMap_append, List.flatMap_cons, merged, List.append_assoc]

theorem mem_mergeBelow {a : α} {cs : List (Tree α)} {t : Tree α}
    (member : t ∈ mergeBelow op? a cs) :
    t ∈ cs ∨ ∃ c ∈ cs, op? a = op? c.value ∧ t ∈ c.children := by
  unfold mergeBelow at member
  cases own : op? a with
  | none =>
      simp only [own] at member
      exact .inl member
  | some op =>
      simp only [own] at member
      obtain ⟨c, among, member⟩ := List.mem_flatMap.1 member
      unfold merge at member
      by_cases same : op? c.value = some op
      · rw [if_pos same] at member
        exact .inr ⟨c, among, same.symm, member⟩
      · rw [if_neg same, List.mem_singleton] at member
        exact .inl (member ▸ among)

/-- What a merge leaves of a tree: its root, unless that has the operator, and all below it. -/
theorem mem_flatMap_preorder_merge {c : Tree α} {x : α} :
    x ∈ (merge op? op c).flatMap preorder ↔
      (x = c.value ∧ op? c.value ≠ some op) ∨ x ∈ c.children.flatMap preorder := by
  cases c with
  | node b ds =>
      unfold merge
      rw [value_node, children_node]
      by_cases same : op? b = some op
      · simp [same]
      · simp [same]

/-- The values below a node after a round of merges: those below its children, and
the values of the children that have another operator than the node. -/
theorem mem_flatMap_preorder_mergeBelow {a : α} {cs : List (Tree α)} {x : α} :
    x ∈ (mergeBelow op? a cs).flatMap preorder ↔ ∃ c ∈ cs,
      (x = c.value ∧ ¬ ∃ op, op? a = some op ∧ op? c.value = some op) ∨
        x ∈ c.children.flatMap preorder := by
  unfold mergeBelow
  cases own : op? a with
  | none =>
      simp only [List.mem_flatMap]
      refine exists_congr fun c => and_congr_right fun _ => ?_
      cases c
      simp [List.mem_flatMap]
  | some op =>
      simp only [List.flatMap_assoc, List.mem_flatMap (b := x) (l := cs),
        mem_flatMap_preorder_merge, Option.some.injEq, exists_eq_left', ne_eq]

/-- What stays below an operator has another operator, if its own children did already. -/
theorem value_ne_of_mem_mergeBelow {a : α} {cs : List (Tree α)} {t : Tree α}
    (flat : ∀ c ∈ cs, c.Flat op?) (own : op? a = some op) (member : t ∈ mergeBelow op? a cs) :
    op? t.value ≠ some op := by
  simp only [mergeBelow, own] at member
  obtain ⟨c, among, member⟩ := List.mem_flatMap.1 member
  unfold merge at member
  by_cases same : op? c.value = some op
  · rw [if_pos same] at member
    have below := flat c among
    cases c with
    | node b ds => exact below.here op same t member
  · rw [if_neg same, List.mem_singleton] at member
    exact member ▸ same

/-- A property of each node is a property of each node of the flattened tree, if a node gets
it from its children when these have been flattened and merged. -/
theorem All.flatten {P Q : α → List (Tree α) → Prop} {t : Tree α} (all : t.All P)
    (step : ∀ a cs, P a cs → (∀ c ∈ cs, (c.flatten op?).All Q) →
      Q a (mergeBelow op? a (cs.map (Tree.flatten op?)))) : (t.flatten op?).All Q := by
  induction t using Tree.induction with
  | step a cs ih =>
      have each : ∀ c ∈ cs, (c.flatten op?).All Q := fun c member =>
        ih c member (all.of_mem c member)
      rw [flatten_node]
      refine .node (step a cs all.here each) fun t kept => ?_
      rcases mem_mergeBelow kept with among | ⟨d, among, -, below⟩
      · obtain ⟨c, member, rfl⟩ := List.mem_map.1 among
        exact each c member
      · obtain ⟨c, member, rfl⟩ := List.mem_map.1 among
        exact (each c member).of_mem_children below

theorem mergeBelow_of_none {a : α} (own : op? a = none) (cs : List (Tree α)) :
    mergeBelow op? a cs = cs := by
  simp only [mergeBelow, own]

theorem flat_flatten (op? : α → Option Operator) (t : Tree α) : (t.flatten op?).Flat op? := by
  refine (all_of_forall (P := fun _ _ => True) (fun _ _ => trivial) t).flatten ?_
  intro a cs _ flat op own t member
  refine value_ne_of_mem_mergeBelow (fun c among => ?_) own member
  obtain ⟨d, below, rfl⟩ := List.mem_map.1 among
  exact flat d below

theorem preorder_flatten_subset (op? : α → Option Operator) (t : Tree α) :
    (t.flatten op?).preorder ⊆ t.preorder := by
  induction t using Tree.induction with
  | step a cs ih =>
      rw [flatten_node, preorder_node, preorder_node]
      -- Whatever is left of a child, or of a child of a child, is in the child.
      have inside : ∀ c ∈ cs, ∀ t, t = c.flatten op? ∨ t ∈ (c.flatten op?).children →
          t.preorder ⊆ c.preorder := by
        intro c member t part b below
        refine ih c member ?_
        rcases part with rfl | child
        · exact below
        · cases whole : c.flatten op? with
          | node d ds =>
              rw [whole] at child
              rw [preorder_node]
              exact List.mem_cons_of_mem d (List.mem_flatMap.2 ⟨t, child, below⟩)
      apply List.cons_subset_cons a
      intro b below
      obtain ⟨t, kept, below⟩ := List.mem_flatMap.1 below
      rcases mem_mergeBelow kept with among | ⟨d, among, -, child⟩
      · obtain ⟨c, member, rfl⟩ := List.mem_map.1 among
        exact List.mem_flatMap.2 ⟨c, member, inside c member _ (.inl rfl) below⟩
      · obtain ⟨c, member, rfl⟩ := List.mem_map.1 among
        exact List.mem_flatMap.2 ⟨c, member, inside c member _ (.inr child) below⟩

/-! ## What is not an operator -/

theorem filter_preorder_merge (op : Operator) (c : Tree α) :
    ((merge op? op c).flatMap preorder).filter (op? · = none) =
      c.preorder.filter (op? · = none) := by
  cases c with
  | node a cs =>
      unfold merge
      by_cases same : op? a = some op
      · simp [same]
      · simp [same]

/-- **The other values stay in their order** when operators are merged. -/
theorem filter_preorder_flatten (op? : α → Option Operator) (t : Tree α) :
    (t.flatten op?).preorder.filter (op? · = none) = t.preorder.filter (op? · = none) := by
  induction t using Tree.induction with
  | step a cs ih =>
      have merged : ((mergeBelow op? a (cs.map (flatten op?))).flatMap preorder).filter
          (op? · = none) = ((cs.map (flatten op?)).flatMap preorder).filter (op? · = none) := by
        unfold mergeBelow
        cases op? a with
        | none => rfl
        | some op =>
            simp only [List.flatMap_assoc, List.filter_flatMap]
            refine List.flatMap_congr fun c _ => ?_
            rw [← List.filter_flatMap, filter_preorder_merge]
      have below : ((cs.map (flatten op?)).flatMap preorder).filter (op? · = none) =
          (cs.flatMap preorder).filter (op? · = none) := by
        rw [List.flatMap_map, List.filter_flatMap, List.filter_flatMap]
        exact List.flatMap_congr ih
      rw [flatten_node, preorder_node, preorder_node, List.filter_cons, List.filter_cons, merged,
        below]

end OperatorTree.Tree
