/-
# OperatorTree.Proofs.Store.Footprint -- what an edit can reach

A set of nodes is owned when it has the children of its members and every number
that is not in use yet, and when no other node lists two of its members
(`Owned`).  The tree of a node with all numbers to come is such a set: the one
member that a node outside may list is the node itself, below its parent.

An edit of members leaves every other node as it is and the set closed
(`Confined`), so the set is owned afterwards too.  There is one lemma for each
edit.  Exchanging siblings is why the set must be single: where the parent of the
two is outside, they are one node, and the child list stays as it was.
-/
import OperatorTree.Proofs.Store.Shape
import OperatorTree.Proofs.Store.Survivors

namespace OperatorTree.Store

set_option autoImplicit false

open Relation

variable {s s' s'' : Store} {A : NodeId → Prop} {c m n p : NodeId}

/-- A set of nodes that can be edited by itself. -/
structure Owned (s : Store) (A : NodeId → Prop) : Prop where
  closed : s.Closed A
  new : ∀ n, s.slots.size ≤ n → A n
  /-- A node outside lists one member at most. -/
  single : ∀ p, ¬ A p → ∀ a ∈ s.children p, ∀ b ∈ s.children p, A a → A b → a = b

/-- From `s` to `s'` nothing but members changed, and the members list only members. -/
structure Confined (A : NodeId → Prop) (s s' : Store) : Prop where
  outside : ∀ n, ¬ A n → s'.node? n = s.node? n
  size_le : s.slots.size ≤ s'.slots.size
  closed : s'.Closed A

/-- The nodes of the tree of `n`, and the numbers that are not in use yet. -/
def TreeAndNew (s : Store) (n m : NodeId) : Prop :=
  m ∈ (s.tree n).preorder ∨ s.slots.size ≤ m

theorem IsForest.owned (forest : s.IsForest) (n : NodeId) : s.Owned (s.TreeAndNew n) where
  closed p c inside listed := by
    rcases inside with below | beyond
    · rw [forest.mem_preorder_tree] at below
      exact .inl (forest.mem_preorder_tree.2 (below.tail listed))
    · exact absurd (lt_size_of_live (live_of_mem_children listed)) (Nat.not_lt.2 beyond)
  new _ beyond := .inr beyond
  single p outside := by
    have top : ∀ a ∈ s.children p, s.TreeAndNew n a → a = n := by
      rintro a listed (below | beyond)
      · rw [forest.mem_preorder_tree] at below
        rcases ReflTransGen.cases_tail below with same | ⟨q, belowQ, listedQ⟩
        · exact same
        · have parent : p = q := forest.eq_of_mem_of_mem listed listedQ
          exact absurd (.inl (forest.mem_preorder_tree.2 (parent ▸ belowQ))) outside
      · exact absurd (lt_size_of_live (forest.live_of_mem listed)) (Nat.not_lt.2 beyond)
    intro a listedA b listedB insideA insideB
    rw [top a listedA insideA, top b listedB insideB]

/-- The numbers that are not in use yet are owned by themselves: no node lists them. -/
theorem IsForest.owned_new (forest : s.IsForest) : s.Owned (s.slots.size ≤ ·) where
  closed _ _ beyond listed :=
    absurd (lt_size_of_live (live_of_mem_children listed)) (Nat.not_lt.2 beyond)
  new _ beyond := beyond
  single _ _ _ listed _ _ beyond _ :=
    absurd (lt_size_of_live (forest.live_of_mem listed)) (Nat.not_lt.2 beyond)

/-- The node is still there, with its content, its children and its parent. -/
structure Kept (s s' : Store) (n : NodeId) : Prop where
  live : s'.Live n
  content_eq : s'.content n = s.content n
  children_eq : s'.children n = s.children n
  parent?_eq : s'.parent? n = s.parent? n

namespace Confined

theorem refl (closed : s.Closed A) : Confined A s s :=
  ⟨fun _ _ => rfl, Nat.le_refl _, closed⟩

theorem trans (first : Confined A s s') (second : Confined A s' s'') : Confined A s s'' where
  outside n out := (second.outside n out).trans (first.outside n out)
  size_le := Nat.le_trans first.size_le second.size_le
  closed := second.closed

theorem wider {B : NodeId → Prop} (confined : Confined A s s') (more : ∀ n, A n → B n)
    (closed : s.Closed B) : Confined B s s' where
  outside n out := confined.outside n (out ∘ more n)
  size_le := confined.size_le
  closed p c inside listed := by
    by_cases member : A p
    · exact more c (confined.closed p c member listed)
    · rw [children_of_node?_eq (confined.outside p member)] at listed
      exact closed p c inside listed

theorem owned (confined : Confined A s s') (owned : s.Owned A) : s'.Owned A where
  closed := confined.closed
  new n beyond := owned.new n (Nat.le_trans confined.size_le beyond)
  single p out := by
    rw [children_of_node?_eq (confined.outside p out)]
    exact owned.single p out

/-- A node outside keeps its parent: no member lists it, before or after. -/
theorem parent?_eq (confined : Confined A s s') (closed : s.Closed A) (forest : s.IsForest)
    (forest' : s'.IsForest) (out : ¬ A n) : s'.parent? n = s.parent? n := by
  ext p
  rw [← forest'.mem_children_iff_parent?, ← forest.mem_children_iff_parent?]
  by_cases inside : A p
  · have before : n ∉ s.children p := fun listed => out (closed p n inside listed)
    have after : n ∉ s'.children p := fun listed => out (confined.closed p n inside listed)
    simp only [before, after]
  · rw [children_of_node?_eq (confined.outside p inside)]

theorem kept (confined : Confined A s s') (closed : s.Closed A) (forest : s.IsForest)
    (forest' : s'.IsForest) (live : s.Live n) (out : ¬ A n) : s.Kept s' n where
  live := (live_of_node?_eq (confined.outside n out)).2 live
  content_eq := content_of_node?_eq (confined.outside n out)
  children_eq := children_of_node?_eq (confined.outside n out)
  parent?_eq := confined.parent?_eq closed forest forest' out

end Confined

namespace Owned

/-! ## Single changes -/

theorem alloc (owned : s.Owned A) (content : Content) : Confined A s (s.alloc content).2 where
  outside n out := by
    rw [node?_alloc, alloc_fst, if_neg]
    rintro rfl
    exact out (owned.new _ (Nat.le_refl _))
  size_le := by simp
  closed p c inside listed := by
    rw [children_alloc] at listed
    exact owned.closed p c inside listed

theorem setContent (owned : s.Owned A) (inside : A n) (content : Content) :
    Confined A s (s.setContent n content) where
  outside m out := node?_setContent_of_ne content fun same => out (same ▸ inside)
  size_le := by simp
  closed p c insideP listed := by
    rw [children_setContent] at listed
    exact owned.closed p c insideP listed

theorem attach (owned : s.Owned A) (live : s.Live p) (insideP : A p) (insideC : A c) :
    Confined A s (s.attach p c) where
  outside m out :=
    node?_attach_of_ne (fun same => out (same ▸ insideP)) fun same => out (same ▸ insideC)
  size_le := by simp
  closed q d insideQ listed := by
    rw [children_attach live] at listed
    by_cases here : q = p
    · rw [if_pos here, List.mem_append, List.mem_singleton] at listed
      rcases listed with before | rfl
      · exact owned.closed p d insideP before
      · exact insideC
    · rw [if_neg here] at listed
      exact owned.closed q d insideQ listed

/-! ## Edits -/

theorem addChild (owned : s.Owned A) (live : s.Live p) (insideP : A p) (insideC : A c) :
    Confined A s (s.addChild p c).2 := by
  unfold Store.addChild
  cases s.refusal? p c with
  | some e => exact .refl owned.closed
  | none => exact owned.attach live insideP insideC

theorem operator (owned : s.Owned A) (op : Operator) {left right : NodeId} (insideL : A left)
    (insideR : A right) : Confined A s (s.operator op left right).2 := by
  have new := owned.alloc (.operator op)
  rcases s.operator_cases op left right with ⟨e, result⟩ | ⟨e, result⟩ | ⟨-, -, -, result⟩
  · rw [result]
    exact .refl owned.closed
  · rw [result]
    exact new
  · rw [result]
    have live : (s.alloc (.operator op)).2.Live s.slots.size := live_alloc_new
    have insideNew : A s.slots.size := owned.new _ (Nat.le_refl _)
    have first := (new.owned owned).attach live insideNew insideL
    have second := (first.owned (new.owned owned)).attach (live_attach.2 live) insideNew insideR
    exact new.trans (first.trans second)

theorem parenthetical (owned : s.Owned A) (label : String) {inner : NodeId} (inside : A inner) :
    Confined A s (s.parenthetical label inner).2 := by
  have new := owned.alloc (.parenthetical label)
  rcases s.parenthetical_cases label inner with ⟨e, result⟩ | ⟨-, result⟩
  · rw [result]
    exact new
  · rw [result]
    exact new.trans ((new.owned owned).attach live_alloc_new (owned.new _ (Nat.le_refl _)) inside)

theorem setLabel (owned : s.Owned A) (inside : A n) (label : String) :
    Confined A s (s.setLabel n label).2 := by
  rcases s.setLabel_cases n label with ⟨e, result⟩ | ⟨content, -, result⟩
  · rw [result]
    exact .refl owned.closed
  · rw [result]
    exact owned.setContent inside content

theorem setChildren_perm (owned : s.Owned A) (live : s.Live p) (inside : A p) {cs : List NodeId}
    (permuted : cs.Perm (s.children p)) : Confined A s (s.setChildren p cs) where
  outside m out := node?_setChildren_of_ne cs fun same => out (same ▸ inside)
  size_le := by simp
  closed q d insideQ listed := by
    rw [children_setChildren cs live] at listed
    by_cases here : q = p
    · rw [if_pos here] at listed
      exact owned.closed p d inside (permuted.mem_iff.1 listed)
    · rw [if_neg here] at listed
      exact owned.closed q d insideQ listed

theorem swap (owned : s.Owned A) {a b : NodeId} (insideA : A a) (insideB : A b) :
    Confined A s (s.swap a b).2 := by
  rcases s.swap_cases a b with ⟨e, result⟩ | ⟨p, i, j, parentA, -, first, second, result⟩
  · rw [result]
    exact .refl owned.closed
  · rw [result]
    by_cases inside : A p
    · exact owned.setChildren_perm (parent?_eq_some_iff.1 parentA).2 inside
        (set_set_perm_of_idxOf? first second)
    · obtain ⟨insideI, rfl⟩ := exists_getElem_of_idxOf? first
      obtain ⟨insideJ, rfl⟩ := exists_getElem_of_idxOf? second
      have one := owned.single p inside _ (List.getElem_mem insideI) _ (List.getElem_mem insideJ)
        insideA insideB
      have kept : (((s.children p).set i (s.children p)[j]).set j (s.children p)[i]) =
          s.children p := by
        rw [← one, List.set_getElem_self, one, List.set_getElem_self]
      show Confined A s (s.setChildren p _)
      rw [kept]
      have same (m : NodeId) : (s.setChildren p (s.children p)).node? m = s.node? m :=
        node?_setChildren_self
      refine ⟨fun m _ => same m, by simp, fun q d insideQ listed => ?_⟩
      rw [children_of_node?_eq (same q)] at listed
      exact owned.closed q d insideQ listed

/-! ## Whole trees -/

theorem flatten (owned : s.Owned A) (forest : s.IsForest) (inside : A n) :
    Confined A s (s.flatten n).2 := by
  have below : ∀ m, ReflTransGen s.Lists n m → A m := by
    intro m way
    induction way with
    | refl => exact inside
    | tail _ listed ih => exact owned.closed _ _ ih listed
  have run := (mergeRun_flatten_below forest n).mono below
  obtain ⟨closed, same⟩ := run.closed_and_node?_eq forest owned.closed
  exact ⟨fun m out => same m out, Nat.le_of_eq (regrouped_flatten forest n).size_eq.symm, closed⟩

theorem planted (owned : s.Owned A) (forest : s.IsForest) {e : Expr} (planted : Planted s e n s') :
    Confined A s s' where
  outside m out := by
    apply planted.old m
    by_contra beyond
    exact out (owned.new m (Nat.not_lt.1 beyond))
  size_le := Nat.le_of_lt planted.size_lt
  closed p c inside listed := by
    by_cases old : p < s.slots.size
    · rw [children_of_node?_eq (planted.old p old)] at listed
      exact owned.closed p c inside listed
    · exact owned.new c (planted.size_le_of_listed forest (Nat.not_lt.1 old) listed)

end Owned

/-- Planting leaves every node that was there as it was. -/
theorem Planted.kept {e : Expr} (planted : Planted s e n s') (forest : s.IsForest)
    (live : s.Live m) : s.Kept s' m :=
  (forest.owned_new.planted forest planted).kept forest.owned_new.closed forest planted.forest live
    (Nat.not_le.2 (lt_size_of_live live))

end OperatorTree.Store
