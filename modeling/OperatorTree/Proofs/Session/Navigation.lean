/-
# OperatorTree.Proofs.Session.Navigation -- the way up agrees with the child lists

Links lead up from a node and child lists lead down to it.  The two are stored apart, and
what holds a node alive are the lists alone.  In a reachable session they agree all the same,
so the links from a node lead through the nodes that have it in their trees, nearest first,
and end at the only root that does (`Reachable.navigation_agrees`).
-/
import OperatorTree.Proofs.Session.Reachable
import OperatorTree.Proofs.Store.Roots

namespace OperatorTree.Session

set_option autoImplicit false

variable {s : Session} {n : NodeId}

/-- **Going up is the inverse of containment.**  From a live node the links lead through its
ancestors one by one, and then to nothing.  The node is not among them, and none of them
comes twice; each lists the one before it, the first the node itself, exactly once.  The last
of them is a root, and it is the root of the node; a node without any is a root, and its own.
This root is live, and it is the one root whose tree contains the node.  Two live nodes have
the same root just when the tree of some live node contains both. -/
theorem Reachable.navigation_agrees (reachable : s.Reachable) (live : s.store.Live n) :
    let up := s.store.ancestors n
    let root := s.store.root n
    (∀ k, (fun m : Option NodeId => m.bind s.store.parent?)^[k + 1] (some n) = up[k]?) ∧
    (n :: up).Nodup ∧
    ((n :: up).IsChain fun c p => (s.store.children p).count c = 1) ∧
    (∀ r, up.getLast? = some r → s.store.IsRoot r ∧ root = r) ∧
    (up = [] → s.store.IsRoot n ∧ root = n) ∧
    s.store.Live root ∧
    (∀ r, s.store.IsRoot r ∧ n ∈ (s.store.tree r).preorder ↔ r = root) ∧
    ∀ m, s.store.Live m → (s.store.root m = root ↔
      ∃ t, s.store.Live t ∧ m ∈ (s.store.tree t).preorder ∧ n ∈ (s.store.tree t).preorder) := by
  intro up root
  have forest := reachable.sound.store.forest
  have last : ∀ r, up.getLast? = some r → root = r := fun r last => by
    show s.store.root n = r
    rw [Store.root, last, Option.getD_some]
  have alone : up = [] → root = n := fun none => by
    show s.store.root n = n
    rw [Store.root, show s.store.ancestors n = [] from none]
    rfl
  refine ⟨forest.iterate_parent? n, forest.nodup_ancestorsFrom _ n, ?chain, fun r top => ?_,
    fun none => ?_, forest.live_root live, fun r => ?_, fun m _ => ?_⟩
  case chain =>
    refine (forest.isChain_ancestors n).imp fun c p above => ?_
    exact List.count_eq_one_of_mem (forest.nodup_children p) (forest.lists_iff.2 above)
  · exact ⟨last r top ▸ forest.isRoot_root n, last r top⟩
  · exact ⟨alone none ▸ forest.isRoot_root n, alone none⟩
  · rw [forest.mem_preorder_tree]
    exact forest.eq_root_iff.symm
  · simp only [forest.mem_preorder_tree]
    constructor
    · intro same
      exact ⟨root, forest.live_root live, same ▸ forest.root_below m, forest.root_below n⟩
    · rintro ⟨t, -, below, below'⟩
      exact forest.root_eq_root_iff.2 ⟨t, below, below'⟩

/-- The operand `b` in `a + (b * c)`, and a literal beside this sum. -/
theorem navigation_agrees_in_group :
    let s := (((((((empty.perform (.literal "a" "a")).session.perform
      (.literal "b" "b")).session.perform (.literal "c" "c")).session.perform
      (.operator "product" .mul "b" "c")).session.perform
      (.parenthetical "group" "(b*c)" "product")).session.perform
      (.operator "sum" .add "a" "group")).session.perform (.literal "d" "d")).session
    s.Reachable ∧ s.store.Live 1 ∧ s.store.Live 0 ∧ s.store.Live 6 ∧
      s.store.ancestors 1 = [3, 4, 5] ∧ s.store.root 1 = 5 ∧ s.store.IsRoot 5 ∧
      ([1, 3, 4, 5].IsChain fun c p => (s.store.children p).count c = 1) ∧
      (∃ t, s.store.Live t ∧ 0 ∈ (s.store.tree t).preorder ∧ 1 ∈ (s.store.tree t).preorder) ∧
      ¬ ∃ t, s.store.Live t ∧ 6 ∈ (s.store.tree t).preorder ∧ 1 ∈ (s.store.tree t).preorder := by
  intro s
  have reachable : s.Reachable :=
    ((((((Reachable.empty.perform _ (by decide)).perform _ (by decide)).perform _
      (by decide)).perform _ (by decide)).perform _ (by decide)).perform _
      (by decide)).perform _ (by decide)
  have live : s.store.Live 1 := by decide
  have live' : s.store.Live 0 := by decide
  have live'' : s.store.Live 6 := by decide
  have ancestors : s.store.ancestors 1 = [3, 4, 5] := by decide
  obtain ⟨-, -, chain, last, -, -, -, together⟩ := reachable.navigation_agrees live
  obtain ⟨top, root⟩ := last 5 (by rw [ancestors]; rfl)
  rw [ancestors] at chain
  refine ⟨reachable, live, live', live'', ancestors, root, top, chain, ?_, ?_⟩
  · exact (together 0 live').1 (by decide)
  · exact fun tree => absurd ((together 6 live'').2 tree) (by decide)

end OperatorTree.Session
