/-
# OperatorTree.Proofs.Store.Flatten -- flattening in place is flattening the tree

The loop along a child list has passed some children and has others before it
(`children_absorbFrom`).  When the trees of the children are flat already, each
child that is merged brings in children that are passed, so the list comes out
as one round of `Tree.merge` gives it, and the steps that the loop may take are
enough: it visits no node twice.

A flattening goes through a tree from the leaves upwards.  After the children of
a node are done, one after the other and each in a tree of its own, their trees
are flat and the loop finishes the node.  So the tree of the node becomes the
flattened tree, and the nodes outside keep their children (`Flattened`).
-/
import OperatorTree.Proofs.Store.Merge
import OperatorTree.Proofs.Store.Walks
import OperatorTree.Proofs.Tree.Flatten

namespace OperatorTree.Store

set_option autoImplicit false

open Relation

variable {s s' : Store} {c m n p : NodeId} {op : Operator}

/-! ## The loop along a child list -/

/-- What stands for the child `c` after it has been visited. -/
def expand (s : Store) (op : Operator) (c : NodeId) : List NodeId :=
  if s.operator? c = some op then s.children c else [c]

/-- The nodes that the loop looks at for the child `c`: itself, and what it brings in. -/
def visited (s : Store) (op : Operator) (c : NodeId) : List NodeId :=
  c :: if s.operator? c = some op then s.children c else []

/-- The children of `c` have another operator than `op` if `c` has it. -/
def FlatAt (s : Store) (op : Operator) (c : NodeId) : Prop :=
  s.operator? c = some op → ∀ g ∈ s.children c, s.operator? g ≠ some op

theorem expand_of_ne (other : s.operator? c ≠ some op) : s.expand op c = [c] :=
  if_neg other

theorem visited_of_ne (other : s.operator? c ≠ some op) : s.visited op c = [c] := by
  rw [visited, if_neg other]

theorem flatMap_eq_self {f : NodeId → List NodeId} {cs : List NodeId}
    (alone : ∀ c ∈ cs, f c = [c]) : cs.flatMap f = cs :=
  (List.flatMap_congr alone).trans (List.flatMap_singleton' cs)

section MergeChild

variable {index : Nat} (forest : s.IsForest) (child : s.child? n index = some c)

include forest child

theorem children_mergeChild_of_ne (notOuter : m ≠ n) (notInner : m ≠ c) :
    (s.mergeChild n index c).children m = s.children m := by
  rw [children_mergeChild forest child, if_neg notOuter, if_neg notInner]

theorem expand_mergeChild_of_ne (notOuter : m ≠ n) (notInner : m ≠ c) :
    (s.mergeChild n index c).expand op m = s.expand op m := by
  unfold expand
  rw [operator?_mergeChild, children_mergeChild_of_ne forest child notOuter notInner]

theorem visited_mergeChild_of_ne (notOuter : m ≠ n) (notInner : m ≠ c) :
    (s.mergeChild n index c).visited op m = s.visited op m := by
  unfold visited
  rw [operator?_mergeChild, children_mergeChild_of_ne forest child notOuter notInner]

theorem FlatAt.mergeChild (flat : s.FlatAt op m) (notOuter : m ≠ n) (notInner : m ≠ c) :
    (s.mergeChild n index c).FlatAt op m := by
  intro same g listed
  rw [children_mergeChild_of_ne forest child notOuter notInner] at listed
  rw [operator?_mergeChild] at same ⊢
  exact flat same g listed

end MergeChild

/-- The loop at `n` has passed some children, and the others are still to be visited. -/
structure Looping (s : Store) (n : NodeId) (op : Operator) (passed todo : List NodeId) : Prop where
  forest : s.IsForest
  list : s.children n = passed ++ todo
  flat : ∀ c ∈ todo, s.FlatAt op c

/-- The children that a node has in the end. -/
def absorbed (s : Store) (n : NodeId) (op : Operator) (passed todo : List NodeId) (m : NodeId) :
    List NodeId :=
  if m = n then passed ++ todo.flatMap (s.expand op)
  else if m ∈ todo ∧ s.operator? m = some op then []
  else s.children m

section Looping

variable {passed todo : List NodeId}

theorem Looping.absorbed_nil (looping : s.Looping n op passed []) (m : NodeId) :
    s.absorbed n op passed [] m = s.children m := by
  unfold absorbed
  by_cases here : m = n
  · simp [here, looping.list]
  · simp [here]

theorem Looping.child?_eq_none (looping : s.Looping n op passed []) :
    s.child? n passed.length = none := by
  simp [child?, looping.list]

theorem Looping.child?_eq_some (looping : s.Looping n op passed (c :: todo)) :
    s.child? n passed.length = some c := by
  simp [child?, looping.list]

theorem Looping.ne_of_mem (looping : s.Looping n op passed (c :: todo)) (later : m ∈ todo) :
    m ≠ n ∧ m ≠ c := by
  have distinct := looping.forest.nodup_children n
  rw [looping.list, List.nodup_append, List.nodup_cons] at distinct
  have listed : m ∈ s.children n := by
    rw [looping.list]
    exact List.mem_append_right _ (List.mem_cons_of_mem c later)
  exact ⟨looping.forest.ne_of_mem listed, fun same => distinct.2.1.1 (same ▸ later)⟩

theorem Looping.pass (looping : s.Looping n op passed (c :: todo)) :
    s.Looping n op (passed ++ [c]) todo where
  forest := looping.forest
  list := by rw [looping.list, List.append_assoc, List.singleton_append]
  flat d later := looping.flat d (List.mem_cons_of_mem c later)

theorem absorbed_pass (other : s.operator? c ≠ some op) (m : NodeId) :
    s.absorbed n op (passed ++ [c]) todo m = s.absorbed n op passed (c :: todo) m := by
  unfold absorbed
  rw [List.flatMap_cons, expand_of_ne other, List.append_assoc]
  by_cases same : m = c
  · subst same
    simp [other]
  · simp [same]

section Merge

variable (looping : s.Looping n op passed (c :: todo)) (inner : s.operator? c = some op)

include looping inner

theorem Looping.merge :
    (s.mergeChild n passed.length c).Looping n op passed (s.children c ++ todo) where
  forest := looping.forest.mergeChild looping.child?_eq_some
  list := by
    rw [children_mergeChild looping.forest looping.child?_eq_some, if_pos rfl, looping.list]
    simp
  flat d among := by
    rcases List.mem_append.1 among with new | later
    · intro same
      rw [operator?_mergeChild] at same
      exact absurd same (looping.flat c List.mem_cons_self inner d new)
    · obtain ⟨notOuter, notInner⟩ := looping.ne_of_mem later
      exact (looping.flat d (List.mem_cons_of_mem c later)).mergeChild looping.forest
        looping.child?_eq_some notOuter notInner

/-- The children that come in have another operator. -/
theorem Looping.operator?_ne (d : NodeId) (new : d ∈ s.children c) :
    (s.mergeChild n passed.length c).operator? d ≠ some op := by
  rw [operator?_mergeChild]
  exact looping.flat c List.mem_cons_self inner d new

theorem Looping.flatMap_expand_merge :
    (s.children c ++ todo).flatMap ((s.mergeChild n passed.length c).expand op) =
      (c :: todo).flatMap (s.expand op) := by
  have rest : todo.flatMap ((s.mergeChild n passed.length c).expand op) =
      todo.flatMap (s.expand op) := by
    apply List.flatMap_congr
    intro d later
    obtain ⟨notOuter, notInner⟩ := looping.ne_of_mem later
    exact expand_mergeChild_of_ne looping.forest looping.child?_eq_some notOuter notInner
  rw [List.flatMap_append, List.flatMap_cons, rest, expand, if_pos inner,
    flatMap_eq_self fun d new => expand_of_ne (looping.operator?_ne inner d new)]

theorem Looping.length_visited_merge :
    ((s.children c ++ todo).flatMap ((s.mergeChild n passed.length c).visited op)).length + 1 =
      ((c :: todo).flatMap (s.visited op)).length := by
  have rest : todo.flatMap ((s.mergeChild n passed.length c).visited op) =
      todo.flatMap (s.visited op) := by
    apply List.flatMap_congr
    intro d later
    obtain ⟨notOuter, notInner⟩ := looping.ne_of_mem later
    exact visited_mergeChild_of_ne looping.forest looping.child?_eq_some notOuter notInner
  rw [List.flatMap_append, List.flatMap_cons, rest, visited, if_pos inner,
    flatMap_eq_self fun d new => visited_of_ne (looping.operator?_ne inner d new)]
  simp only [List.length_append, List.length_cons]
  omega

theorem Looping.absorbed_merge (m : NodeId) :
    (s.mergeChild n passed.length c).absorbed n op passed (s.children c ++ todo) m =
      s.absorbed n op passed (c :: todo) m := by
  unfold absorbed
  rw [looping.flatMap_expand_merge inner, operator?_mergeChild]
  by_cases here : m = n
  · rw [if_pos here, if_pos here]
  · rw [if_neg here, if_neg here, children_mergeChild looping.forest looping.child?_eq_some,
      if_neg here]
    by_cases merged : m = c
    · subst merged
      simp [inner]
    · have notNew : s.operator? m = some op → m ∉ s.children c := fun same listed =>
        looping.flat c List.mem_cons_self inner m listed same
      simp only [List.mem_append, List.mem_cons, merged, false_or]
      by_cases same : s.operator? m = some op
      · simp [same, notNew same]
      · simp [same]

end Merge

/-- The children that were passed stay as they are; those that follow are
expanded, and the ones that are merged lose their own. -/
theorem children_absorbFrom {steps : Nat} (looping : s.Looping n op passed todo)
    (enough : (todo.flatMap (s.visited op)).length ≤ steps) (m : NodeId) :
    (absorbFrom n op steps passed.length s).2.children m = s.absorbed n op passed todo m := by
  induction steps generalizing s passed todo with
  | zero =>
      cases todo with
      | nil => exact (looping.absorbed_nil m).symm
      | cons c todo =>
          rw [List.flatMap_cons, visited, List.length_append, List.length_cons] at enough
          omega
  | succ steps ih =>
      cases todo with
      | nil =>
          rw [absorbFrom_end looping.child?_eq_none]
          exact (looping.absorbed_nil m).symm
      | cons c todo =>
          by_cases inner : s.operator? c = some op
          · have fewer := looping.length_visited_merge inner
            rw [absorbFrom_merge looping.child?_eq_some inner, ih (looping.merge inner) (by omega),
              looping.absorbed_merge inner]
          · rw [List.flatMap_cons, visited_of_ne inner, List.length_append, List.length_singleton]
              at enough
            have step := ih looping.pass (by omega)
            rw [List.length_append, List.length_singleton] at step
            rw [absorbFrom_pass looping.child?_eq_some inner, step, absorbed_pass inner]

end Looping

/-! ## One node -/

theorem length_flatMap_le {f g : NodeId → List NodeId} {cs : List NodeId}
    (each : ∀ c ∈ cs, (f c).length ≤ (g c).length) :
    (cs.flatMap f).length ≤ (cs.flatMap g).length := by
  induction cs with
  | nil => exact Nat.le_refl _
  | cons c cs ih =>
      have first := each c List.mem_cons_self
      have others := ih fun d later => each d (List.mem_cons_of_mem c later)
      simp only [List.flatMap_cons, List.length_append]
      omega

theorem length_visited_le (forest : s.IsForest) (op : Operator) (c : NodeId) :
    (s.visited op c).length ≤ (s.tree c).preorder.length := by
  have below : (s.children c).length ≤
      ((s.children c).flatMap fun g => (s.tree g).preorder).length := by
    refine Nat.le_trans (Nat.le_of_eq ?_) (length_flatMap_le (f := fun g => [g]) fun g _ => ?_)
    · rw [List.flatMap_singleton']
    · rw [forest.tree_eq, Tree.preorder_node, List.length_cons]
      exact Nat.succ_le_succ (Nat.zero_le _)
  rw [forest.tree_eq, Tree.preorder_node, List.flatMap_map]
  unfold visited
  by_cases same : s.operator? c = some op
  · rw [if_pos same]
    exact Nat.succ_le_succ below
  · rw [if_neg same]
    exact Nat.succ_le_succ (Nat.zero_le _)

/-- The loop has as many steps as it needs. -/
theorem length_flatMap_visited_le (forest : s.IsForest) (op : Operator) (n : NodeId) :
    ((s.children n).flatMap (s.visited op)).length ≤ s.slots.size := by
  by_cases live : s.Live n
  · have whole := forest.length_preorder_le live
    rw [forest.tree_eq, Tree.preorder_node, List.flatMap_map, List.length_cons] at whole
    have each : ((s.children n).flatMap (s.visited op)).length ≤
        ((s.children n).flatMap fun c => (s.tree c).preorder).length :=
      length_flatMap_le fun c _ => length_visited_le forest op c
    omega
  · simp [children_of_not_live live]

theorem flatAt_of_flat (forest : s.IsForest) (flat : (s.tree c).Flat s.operator?) (op : Operator) :
    s.FlatAt op c := by
  intro own g listed
  rw [forest.tree_eq] at flat
  have differ := flat.here op own _ (List.mem_map_of_mem listed)
  rwa [forest.value_tree] at differ

theorem children_absorb_of_none (other : s.operator? n = none) : (s.absorb n).2 = s := by
  simp [absorb, other]

/-- Over flat trees the loop begins with every child still to be looked at. -/
theorem looping_absorb (forest : s.IsForest)
    (flat : ∀ c ∈ s.children n, (s.tree c).Flat s.operator?) (op : Operator) :
    s.Looping n op [] (s.children n) :=
  ⟨forest, rfl, fun c listed => flatAt_of_flat forest (flat c listed) op⟩

theorem children_absorb (forest : s.IsForest) (own : s.operator? n = some op)
    (flat : ∀ c ∈ s.children n, (s.tree c).Flat s.operator?) (m : NodeId) :
    (s.absorb n).2.children m = s.absorbed n op [] (s.children n) m := by
  have loop := children_absorbFrom (looping_absorb forest flat op)
    (length_flatMap_visited_le forest op n) m
  simp only [absorb, own]
  exact loop

/-- Only a node and its children have got other children when the node has
absorbed those of its own operator. -/
theorem children_absorb_of_ne (forest : s.IsForest)
    (flat : ∀ c ∈ s.children n, (s.tree c).Flat s.operator?) (notSelf : m ≠ n)
    (notChild : m ∉ s.children n) : (s.absorb n).2.children m = s.children m := by
  cases own : s.operator? n with
  | none => rw [children_absorb_of_none own]
  | some op =>
      rw [children_absorb forest own flat]
      simp [absorbed, notSelf, notChild]

/-- The trees that stand for a child are those of what it expands to. -/
theorem merge_tree (forest : s.IsForest) (op : Operator) (c : NodeId) :
    Tree.merge s.operator? op (s.tree c) = (s.expand op c).map s.tree := by
  unfold Tree.merge expand
  rw [forest.value_tree]
  by_cases same : s.operator? c = some op
  · rw [if_pos same, if_pos same, forest.tree_eq, Tree.children_node]
  · rw [if_neg same, if_neg same, List.map_singleton]

/-- What stays of the children keeps its tree. -/
theorem tree_absorb_of_mem_expand (forest : s.IsForest) (own : s.operator? n = some op)
    (flat : ∀ c ∈ s.children n, (s.tree c).Flat s.operator?) (listed : c ∈ s.children n)
    (kept : m ∈ s.expand op c) : (s.absorb n).2.tree m = s.tree m := by
  have below : ReflTransGen s.Lists c m := by
    unfold expand at kept
    by_cases same : s.operator? c = some op
    · rw [if_pos same] at kept
      exact .single kept
    · rw [if_neg same, List.mem_singleton] at kept
      exact kept ▸ .refl
  have other : m ∈ s.children n → s.operator? m ≠ some op := by
    intro listedM
    unfold expand at kept
    by_cases same : s.operator? c = some op
    · rw [if_pos same] at kept
      exact absurd (forest.eq_of_mem_of_mem kept listedM) (forest.ne_of_mem listed)
    · rw [if_neg same, List.mem_singleton] at kept
      exact kept ▸ same
  apply tree_congr forest (regrouped_absorb forest n).forest
  intro x way
  have whole := below.trans way
  have notSelf : x ≠ n := fun same => forest.not_below_child listed (same ▸ whole)
  have notMerged : ¬ (x ∈ s.children n ∧ s.operator? x = some op) := by
    rintro ⟨listedX, same⟩
    -- A child of `n` below `m` is `m` itself, for what is above it is `n` and above.
    rcases ReflTransGen.cases_tail way with rfl | ⟨p, before, listedX'⟩
    · exact other listedX same
    · have here := forest.eq_of_mem_of_mem listedX' listedX
      exact forest.not_below_child listed (here ▸ below.trans before)
  rw [children_absorb forest own flat, absorbed, if_neg notSelf, if_neg notMerged]

/-- A node over flat trees gets its flattened tree when it has absorbed its children. -/
theorem tree_absorb (forest : s.IsForest)
    (flat : ∀ c ∈ s.children n, (s.tree c).Flat s.operator?) :
    (s.absorb n).2.tree n =
      .node n (Tree.mergeBelow s.operator? n ((s.children n).map s.tree)) := by
  cases own : s.operator? n with
  | none =>
      rw [children_absorb_of_none own, forest.tree_eq]
      simp [Tree.mergeBelow, own]
  | some op =>
      rw [(regrouped_absorb forest n).forest.tree_eq, children_absorb forest own flat, absorbed,
        if_pos rfl, List.nil_append, List.map_flatMap]
      simp only [Tree.mergeBelow, own, List.flatMap_map]
      congr 1
      apply List.flatMap_congr
      intro c listed
      rw [merge_tree forest]
      exact List.map_congr_left fun m kept =>
        tree_absorb_of_mem_expand forest own flat listed kept

/-! ## A whole tree -/

theorem absorbAll_append (ms ns : List NodeId) (s : Store) :
    (absorbAll (ms ++ ns) s).2 = (absorbAll ns (absorbAll ms s).2).2 := by
  induction ms generalizing s with
  | nil => rfl
  | cons m ms ih => exact ih (s.absorb m).2

/-- The tree of `n` is flattened in `s'`, and the nodes outside have their children. -/
structure Flattened (s : Store) (n : NodeId) (s' : Store) : Prop where
  regrouped : Regrouped s s'
  tree_eq : s'.tree n = (s.tree n).flatten s.operator?
  outside : ∀ m, ¬ ReflTransGen s.Lists n m → s'.children m = s.children m

/-- The trees of all `cs` are flattened in `s'`, and the nodes outside have their children. -/
structure FlattenedEach (s : Store) (cs : List NodeId) (s' : Store) : Prop where
  regrouped : Regrouped s s'
  tree_eq : ∀ c ∈ cs, s'.tree c = (s.tree c).flatten s.operator?
  outside : ∀ m, (∀ c ∈ cs, ¬ ReflTransGen s.Lists c m) → s'.children m = s.children m

theorem Regrouped.operator?_funext (regrouped : Regrouped s s') : s'.operator? = s.operator? :=
  funext regrouped.operator?_eq

section Apart

variable {s₁ : Store} {d : NodeId} (forest : s.IsForest) (first : Flattened s c s₁)
  (apart : ∀ m, ReflTransGen s.Lists c m → ¬ ReflTransGen s.Lists d m)

include forest first

theorem Flattened.below_of_below (below : ReflTransGen s₁.Lists c m) :
    ReflTransGen s.Lists c m := by
  rw [← first.regrouped.forest.mem_preorder_tree, first.tree_eq] at below
  exact forest.mem_preorder_tree.1 (Tree.preorder_flatten_subset _ _ below)

include apart

theorem Flattened.tree_eq_of_apart : s₁.tree d = s.tree d := by
  apply tree_congr forest first.regrouped.forest
  intro m below
  apply first.outside m
  intro above
  exact apart m above below

theorem Flattened.below_iff_of_apart : ReflTransGen s₁.Lists d m ↔ ReflTransGen s.Lists d m := by
  rw [← first.regrouped.forest.mem_preorder_tree, first.tree_eq_of_apart forest apart,
    forest.mem_preorder_tree]

end Apart

section Rest

variable {s₁ : Store} {cs : List NodeId} (forest : s.IsForest) (first : Flattened s c s₁)
  (apart : ∀ d ∈ cs, ∀ m, ReflTransGen s.Lists c m → ¬ ReflTransGen s.Lists d m)

include forest first apart

/-- Trees that have no node in common with the flattened one, nor with each other, stay so. -/
theorem Flattened.pairwise_of_apart
    (pairwise : cs.Pairwise fun d e => ∀ m, ReflTransGen s.Lists d m → ¬ ReflTransGen s.Lists e m) :
    cs.Pairwise fun d e => ∀ m, ReflTransGen s₁.Lists d m → ¬ ReflTransGen s₁.Lists e m := by
  refine pairwise.imp_of_mem fun {d e} memD memE notBoth m below below' => ?_
  exact notBoth m ((first.below_iff_of_apart forest (apart d memD)).1 below)
    ((first.below_iff_of_apart forest (apart e memE)).1 below')

theorem Flattened.flatMap_postorder_eq :
    (cs.flatMap fun d => (s₁.tree d).postorder) = cs.flatMap fun d => (s.tree d).postorder :=
  List.flatMap_congr fun d member => by rw [first.tree_eq_of_apart forest (apart d member)]

end Rest

theorem flattenedEach_nil (forest : s.IsForest) : FlattenedEach s [] s where
  regrouped := .refl forest
  tree_eq _ none := by cases none
  outside _ _ := rfl

/-- One tree flattened, and then others that have no node in common with it. -/
theorem FlattenedEach.cons {s₁ : Store} {cs : List NodeId} (forest : s.IsForest)
    (apart : ∀ d ∈ cs, ∀ m, ReflTransGen s.Lists c m → ¬ ReflTransGen s.Lists d m)
    (first : Flattened s c s₁) (rest : FlattenedEach s₁ cs s') : FlattenedEach s (c :: cs) s' where
  regrouped := first.regrouped.trans rest.regrouped
  tree_eq d member := by
    rcases List.mem_cons.1 member with rfl | later
    · rw [← first.tree_eq]
      apply tree_congr first.regrouped.forest rest.regrouped.forest
      intro m below
      apply rest.outside m
      intro e among above
      exact apart e among m (first.below_of_below forest below)
        ((first.below_iff_of_apart forest (apart e among)).1 above)
    · rw [rest.tree_eq d later, first.tree_eq_of_apart forest (apart d later),
        first.regrouped.operator?_funext]
  outside m outside := by
    rw [rest.outside, first.outside m (outside c List.mem_cons_self)]
    intro d later below
    exact outside d (List.mem_cons_of_mem c later)
      ((first.below_iff_of_apart forest (apart d later)).1 below)

/-- Trees without common nodes are flattened one after the other if each is. -/
theorem flattenedEach_absorbAll {cs : List NodeId} (forest : s.IsForest)
    (apart : cs.Pairwise fun c d => ∀ m, ReflTransGen s.Lists c m → ¬ ReflTransGen s.Lists d m)
    (one : ∀ c ∈ cs, ∀ s₁ : Store, s₁.IsForest → s₁.tree c = s.tree c →
      Flattened s₁ c (absorbAll (s.tree c).postorder s₁).2) :
    FlattenedEach s cs (absorbAll (cs.flatMap fun c => (s.tree c).postorder) s).2 := by
  induction cs generalizing s with
  | nil => exact flattenedEach_nil forest
  | cons c cs ih =>
      obtain ⟨apartFirst, apartRest⟩ := List.pairwise_cons.1 apart
      have first := one c List.mem_cons_self s forest rfl
      rw [List.flatMap_cons, absorbAll_append]
      generalize (absorbAll (s.tree c).postorder s).2 = s₁ at first ⊢
      rw [← first.flatMap_postorder_eq forest apartFirst]
      refine .cons forest apartFirst first
        (ih first.regrouped.forest (first.pairwise_of_apart forest apartFirst apartRest) ?_)
      intro d later s₂ forest₂ unchanged
      have whole := first.tree_eq_of_apart forest (apartFirst d later)
      rw [whole] at unchanged ⊢
      exact one d (List.mem_cons_of_mem c later) s₂ forest₂ unchanged

theorem FlattenedEach.children_eq {s₁ : Store} (forest : s.IsForest)
    (each : FlattenedEach s (s.children n) s₁) : s₁.children n = s.children n :=
  each.outside n fun _ listed => forest.not_below_child listed

theorem FlattenedEach.flat {s₁ : Store} (forest : s.IsForest)
    (each : FlattenedEach s (s.children n) s₁) :
    ∀ c ∈ s₁.children n, (s₁.tree c).Flat s₁.operator? := by
  intro c listed
  rw [each.children_eq forest] at listed
  rw [each.tree_eq c listed, each.regrouped.operator?_funext]
  exact Tree.flat_flatten _ _

/-- The node itself, when the trees of its children are flattened. -/
theorem Flattened.absorb {s₁ : Store} (forest : s.IsForest)
    (each : FlattenedEach s (s.children n) s₁) : Flattened s n (s₁.absorb n).2 := by
  have forest₁ := each.regrouped.forest
  have children := each.children_eq forest
  have operators := each.regrouped.operator?_funext
  have flat := each.flat forest
  constructor
  case regrouped => exact each.regrouped.trans (regrouped_absorb forest₁ n)
  case tree_eq =>
    rw [tree_absorb forest₁ flat, children, operators, forest.tree_eq n, Tree.flatten_node,
      List.map_map]
    congr 2
    exact List.map_congr_left each.tree_eq
  case outside =>
    intro m outside
    have notSelf : m ≠ n := fun same => outside (same ▸ .refl)
    have notChild : m ∉ s₁.children n := by
      rw [children]
      exact fun listed => outside (.single listed)
    rw [children_absorb_of_ne forest₁ flat notSelf notChild]
    exact each.outside m fun c listed below => outside (.head listed below)

theorem flattened_postorder (t : Tree NodeId) : ∀ {s : Store} {n : NodeId}, s.IsForest →
    s.tree n = t → Flattened s n (absorbAll t.postorder s).2 := by
  induction t using Tree.induction with
  | step a ts ih =>
      intro s n forest whole
      rw [forest.tree_eq] at whole
      injection whole with root subtrees
      subst root subtrees
      rw [Tree.postorder_node, absorbAll_append, List.flatMap_map]
      have each := flattenedEach_absorbAll forest (forest.pairwise_children n)
        fun c listed s₁ forest₁ same => ih (s.tree c) (List.mem_map_of_mem listed) forest₁ same
      exact .absorb forest each

/-- **Flattening in place flattens the tree.**  The tree below the node becomes
the flattened tree, of the same nodes with the same contents, and nothing
changes outside. -/
theorem flattened_flatten (forest : s.IsForest) (n : NodeId) : Flattened s n (s.flatten n).2 :=
  flattened_postorder _ forest rfl

theorem IsForest.flat_of_below (forest : s.IsForest) (flat : (s.tree n).Flat s.operator?)
    (below : ReflTransGen s.Lists n m) : (s.tree m).Flat s.operator? := by
  induction below with
  | refl => exact flat
  | @tail p c _ listed ih =>
      rw [forest.tree_eq] at ih
      exact ih.of_mem _ (List.mem_map_of_mem listed)

/-- After a flattening no operator node of the tree has a child of its own operator. -/
theorem operator?_ne_of_below_flatten (forest : s.IsForest)
    (below : ReflTransGen (s.flatten n).2.Lists n m) (listed : c ∈ (s.flatten n).2.children m)
    (own : (s.flatten n).2.operator? m = some op) : (s.flatten n).2.operator? c ≠ some op := by
  have flattened := flattened_flatten forest n
  have forest' := flattened.regrouped.forest
  have flat : ((s.flatten n).2.tree n).Flat (s.flatten n).2.operator? := by
    rw [flattened.tree_eq, flattened.regrouped.operator?_funext]
    exact Tree.flat_flatten _ _
  exact flatAt_of_flat forest' (forest'.flat_of_below flat below) op own c listed

/-- The expression that a node makes up is flattened with the node. -/
theorem expr_flatten (forest : s.IsForest) (n : NodeId) :
    (s.flatten n).2.expr n = (s.expr n).flatten := by
  have flattened := flattened_flatten forest n
  have contents : (s.flatten n).2.content = s.content := funext flattened.regrouped.content_eq
  show ((s.flatten n).2.tree n).map (s.flatten n).2.content = Expr.flatten (s.expr n)
  rw [flattened.tree_eq, contents]
  exact Tree.map_flatten Content.operator? s.content (s.tree n)

end OperatorTree.Store
