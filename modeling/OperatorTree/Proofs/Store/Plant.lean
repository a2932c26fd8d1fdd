/-
# OperatorTree.Proofs.Store.Plant -- planting an expression makes a tree of new nodes

Planting changes no node that was there, and adds a root of which the rest of
the new nodes are descendants; the expression that the new tree makes up is the
one that was planted (`Planted`).  The tree grows by attaching one planted child
after the other, so the proof goes along the children with the same statement
for the children planted so far (`PlantedBelow`).
-/
import OperatorTree.Proofs.Store.Walks
import OperatorTree.Store.Copy

namespace OperatorTree.Store

set_option autoImplicit false

open Relation

variable {s s' : Store} {c m n p : NodeId}

/-! ## Roots -/

/-- Nothing but a root itself is at or above a root. -/
theorem IsForest.eq_of_reflTransGen_isRoot (forest : s.IsForest) (root : s.IsRoot n)
    (below : ReflTransGen s.Lists m n) : m = n := by
  rcases ReflTransGen.cases_tail below with same | ⟨p, -, listed⟩
  · exact same.symm
  · exact absurd listed (forest.not_mem_of_isRoot root)

theorem node?_attach_of_ne (notPar : m ≠ p) (notChild : m ≠ c) :
    (s.attach p c).node? m = s.node? m := by
  simp only [attach, setChildren, setParent, node?_modify, if_neg (Ne.symm notPar),
    if_neg (Ne.symm notChild)]

theorem isRoot_of_link?_eq_none (unlinked : s.link? n = none) : s.IsRoot n := by
  rw [IsRoot, Option.eq_none_iff_forall_ne_some]
  intro p above
  rw [parent?_eq_some_iff, unlinked] at above
  simp at above

/-! ## What planting does -/

/-- The root of what is planted takes the next number. -/
theorem plant_fst (s : Store) (e : Expr) : (s.plant e).1 = s.slots.size := by
  cases e
  rfl

/-- The node `n` and the nodes below it are new in `s'`, and make up `e`. -/
structure Planted (s : Store) (e : Expr) (n : NodeId) (s' : Store) : Prop where
  forest : s'.IsForest
  new : n = s.slots.size
  live : s'.Live n
  unlinked : s'.link? n = none
  size_lt : s.slots.size < s'.slots.size
  /-- The nodes that were there are as they were. -/
  old : ∀ m, m < s.slots.size → s'.node? m = s.node? m
  /-- The others are the tree of `n`. -/
  below : ∀ m, s.slots.size ≤ m → s'.Live m → ReflTransGen s'.Lists n m
  expr_eq : s'.expr n = e

/-- The node `n` has got new children `cs` in `s'`, which make up the expressions `es`. -/
structure PlantedBelow (s : Store) (n : NodeId) (es : List Expr) (cs : List NodeId) (s' : Store) :
    Prop where
  forest : s'.IsForest
  size_le : s.slots.size ≤ s'.slots.size
  old : ∀ m, m < s.slots.size → m ≠ n → s'.node? m = s.node? m
  live : s'.Live n
  content_eq : s'.content n = s.content n
  link?_eq : s'.link? n = s.link? n
  children_eq : s'.children n = s.children n ++ cs
  below : ∀ m, s.slots.size ≤ m → s'.Live m → ∃ c ∈ cs, ReflTransGen s'.Lists c m
  expr_eq : cs.map s'.expr = es

theorem plantedBelow_nil (forest : s.IsForest) (live : s.Live n) : PlantedBelow s n [] [] s where
  forest := forest
  size_le := Nat.le_refl _
  old _ _ _ := rfl
  live := live
  content_eq := rfl
  link?_eq := rfl
  children_eq := by simp
  below m beyond live := absurd (lt_size_of_live live) (Nat.not_lt.2 beyond)
  expr_eq := rfl

section Cons

variable {s₁ : Store} {e : Expr} {es : List Expr} {cs : List NodeId}

theorem Planted.ne_of_lt (first : Planted s e c s₁) (before : m < s.slots.size) : m ≠ c :=
  first.new ▸ Nat.ne_of_lt before

/-- What was planted below nothing can be attached to any node that was there. -/
theorem Planted.isForest_attach (first : Planted s e c s₁) (live : s.Live n)
    (unlinked : s.link? n = none) : (s₁.attach n c).IsForest := by
  have same := first.old n (lt_size_of_live live)
  have root : s₁.IsRoot n := isRoot_of_link?_eq_none (link?_of_node?_eq same ▸ unlinked)
  refine first.forest.attach ((live_of_node?_eq same).2 live) first.live
    (isRoot_of_link?_eq_none first.unlinked) fun below => ?_
  exact first.ne_of_lt (lt_size_of_live live)
    (first.forest.eq_of_reflTransGen_isRoot root below).symm

/-- A child planted and attached, and then the others. -/
theorem PlantedBelow.cons (live : s.Live n) (unlinked : s.link? n = none)
    (first : Planted s e c s₁) (rest : PlantedBelow (s₁.attach n c) n es cs s') :
    PlantedBelow s n (e :: es) (c :: cs) s' := by
  have inside := lt_size_of_live live
  have notNew : n ≠ c := first.ne_of_lt inside
  have same := first.old n inside
  have live₁ : s₁.Live n := (live_of_node?_eq same).2 live
  have root : s₁.IsRoot n := isRoot_of_link?_eq_none (link?_of_node?_eq same ▸ unlinked)
  -- Attaching `c` and planting the others leaves the tree of `c` alone.
  have kept : ∀ m, ReflTransGen s₁.Lists c m →
      s'.children m = s₁.children m ∧ s'.content m = s₁.content m := by
    intro m below
    have notPar : m ≠ n := by
      rintro rfl
      exact notNew (first.forest.eq_of_reflTransGen_isRoot root below).symm
    have liveM : s₁.Live m := first.forest.live_of_below first.live below
    have later := rest.old m (by simpa using lt_size_of_live liveM) notPar
    rw [children_of_node?_eq later, content_of_node?_eq later, children_attach live₁, if_neg notPar,
      content_attach]
    exact ⟨rfl, rfl⟩
  have exprFirst : s'.expr c = e := by
    rw [expr_congr first.forest rest.forest kept, first.expr_eq]
  constructor
  case forest => exact rest.forest
  case size_le =>
    have := rest.size_le
    rw [size_attach] at this
    have := first.size_lt
    omega
  case old =>
    intro m before notPar
    have early : m < (s₁.attach n c).slots.size := by
      rw [size_attach]
      exact Nat.lt_trans before first.size_lt
    rw [rest.old m early notPar, node?_attach_of_ne notPar (first.ne_of_lt before),
      first.old m before]
  case live => exact rest.live
  case content_eq => rw [rest.content_eq, content_attach, content_of_node?_eq same]
  case link?_eq =>
    rw [rest.link?_eq, link?_attach first.live, if_neg notNew, link?_of_node?_eq same]
  case children_eq =>
    rw [rest.children_eq, children_attach live₁, if_pos rfl, children_of_node?_eq same]
    simp
  case below =>
    intro m beyond liveM
    by_cases early : m < s₁.slots.size
    · have notPar : m ≠ n := Nat.ne_of_gt (Nat.lt_of_lt_of_le inside beyond)
      have later := rest.old m (by simpa using early) notPar
      have liveM₁ : s₁.Live m := by simpa [live_of_node?_eq later] using liveM
      exact ⟨c, List.mem_cons_self,
        below_congr (fun x below => (kept x below).1) (first.below m beyond liveM₁)⟩
    · obtain ⟨d, member, below⟩ := rest.below m (by simpa using Nat.not_lt.1 early) liveM
      exact ⟨d, List.mem_cons_of_mem c member, below⟩
  case expr_eq => rw [List.map_cons, exprFirst, rest.expr_eq]

end Cons

/-- A new node, and its children planted below it. -/
theorem PlantedBelow.planted {content : Content} {es : List Expr} {cs : List NodeId}
    (rest : PlantedBelow (s.alloc content).2 s.slots.size es cs s') :
    Planted s (.node content es) s.slots.size s' := by
  have children : s'.children s.slots.size = cs := by
    rw [rest.children_eq, children_alloc_new, List.nil_append]
  have size := rest.size_le
  rw [size_alloc] at size
  constructor
  case forest => exact rest.forest
  case new => rfl
  case live => exact rest.live
  case unlinked => rw [rest.link?_eq, link?_alloc_new]
  case size_lt => omega
  case old =>
    intro m before
    have notNew : m ≠ s.slots.size := Nat.ne_of_lt before
    rw [rest.old m (by rw [size_alloc]; omega) notNew, node?_alloc, alloc_fst, if_neg notNew]
  case below =>
    intro m beyond live
    by_cases new : m = s.slots.size
    · rw [new]
    · have later : (s.alloc content).2.slots.size ≤ m := by
        rw [size_alloc]
        exact Nat.lt_of_le_of_ne beyond (Ne.symm new)
      obtain ⟨c, member, below⟩ := rest.below m later live
      exact .head (by rwa [Lists, children]) below
  case expr_eq =>
    rw [rest.forest.expr_eq, children, rest.expr_eq, rest.content_eq, content_alloc_new]

mutual

theorem planted_plant : ∀ {s : Store} (e : Expr), s.IsForest →
    Planted s e (s.plant e).1 (s.plant e).2
  | s, .node content es, forest => by
      obtain ⟨cs, planted⟩ :=
        plantedBelow_plantBelow es (forest.alloc content) live_alloc_new link?_alloc_new
      exact planted.planted

theorem plantedBelow_plantBelow : ∀ {s : Store} {n : NodeId} (es : List Expr), s.IsForest →
    s.Live n → s.link? n = none → ∃ cs, PlantedBelow s n es cs (plantBelow n s es)
  | s, n, [], forest, live, _ => ⟨[], plantedBelow_nil forest live⟩
  | s, n, e :: es, forest, live, unlinked => by
      have first := planted_plant e forest
      have same := first.old n (lt_size_of_live live)
      have notNew : n ≠ (s.plant e).1 := first.ne_of_lt (lt_size_of_live live)
      have live₂ : ((s.plant e).2.attach n (s.plant e).1).Live n := by
        simpa [live_of_node?_eq same] using live
      have unlinked₂ : ((s.plant e).2.attach n (s.plant e).1).link? n = none := by
        rw [link?_attach first.live, if_neg notNew, link?_of_node?_eq same, unlinked]
      obtain ⟨cs, rest⟩ :=
        plantedBelow_plantBelow es (first.isForest_attach live unlinked) live₂ unlinked₂
      exact ⟨_, .cons live unlinked first rest⟩

end

/-! ## New trees -/

namespace Planted

variable {e : Expr}

/-- New nodes list new nodes: a child that was there has the parent that it had. -/
theorem size_le_of_listed (planted : Planted s e n s') (forest : s.IsForest)
    (new : s.slots.size ≤ p) (listed : c ∈ s'.children p) : s.slots.size ≤ c := by
  by_contra old
  have linked : s.link? c = some p := by
    rw [← link?_of_node?_eq (planted.old c (Nat.not_le.1 old))]
    exact (planted.forest.mem_children_iff.1 listed).1
  exact Nat.not_lt.2 new (forest.link_lt linked)

/-- The tree that was planted shares no node with what was there. -/
theorem size_le_of_mem_tree (planted : Planted s e n s') (forest : s.IsForest)
    (member : m ∈ (s'.tree n).preorder) : s.slots.size ≤ m := by
  rw [planted.forest.mem_preorder_tree] at member
  induction member with
  | refl => exact Nat.le_of_eq planted.new.symm
  | tail _ listed ih => exact planted.size_le_of_listed forest ih listed

section Old

variable (planted : Planted s e n s') (forest : s.IsForest) (live : s.Live m)

include planted forest live

theorem node?_eq_of_below (below : ReflTransGen s.Lists m c) : s'.node? c = s.node? c :=
  planted.old c (lt_size_of_live (forest.live_of_below live below))

/-- What was there has the tree that it had. -/
theorem tree_old : s'.tree m = s.tree m :=
  tree_congr forest planted.forest fun _ below =>
    children_of_node?_eq (planted.node?_eq_of_below forest live below)

/-- What was there makes up what it made up. -/
theorem expr_old : s'.expr m = s.expr m :=
  expr_congr forest planted.forest fun _ below =>
    have same := planted.node?_eq_of_below forest live below
    ⟨children_of_node?_eq same, content_of_node?_eq same⟩

/-- A new tree has no node in common with the tree of a node that was there. -/
theorem not_below_of_below (below : ReflTransGen s'.Lists m c) : ¬ ReflTransGen s'.Lists n c := by
  intro new
  rw [← planted.forest.mem_preorder_tree, planted.tree_old forest live,
    forest.mem_preorder_tree] at below
  have old := lt_size_of_live (forest.live_of_below live below)
  rw [← planted.forest.mem_preorder_tree] at new
  exact Nat.not_lt.2 (planted.size_le_of_mem_tree forest new) old

end Old

end Planted

end OperatorTree.Store
