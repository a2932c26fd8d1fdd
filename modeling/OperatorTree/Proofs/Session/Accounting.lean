/-
# OperatorTree.Proofs.Session.Accounting -- the events of a flattening tell what it did

The recursion that flattens works on a tree that changes under its hands: when it
comes to a node, the subtrees of its children have been regrouped already.  The
events can still be read off the tree as it was at the start.  There is one for
each pair of a parent and a child with one operator, it takes one node out of the
tree, and what stands at the position after it, as far as its count goes, is not
looked at with any effect.
-/
import OperatorTree.Proofs.Session.Reachable
import OperatorTree.Proofs.Store.MergeEvents

namespace OperatorTree.Session

set_option autoImplicit false

open Store

variable {s : Session} {n : NodeId} {name : String}

theorem events_run_flatten (named : s.node? name = some n) :
    (s.run (.change (.flatten name))).events = (s.store.flatten n).1.map mergeEvent := by
  simp [Session.run, Session.perform, withNode, named]

/-- **The merge events of a flattening account for it exactly.**  They are the pairs
of a parent and a child in the tree of `n` that had the same operator before, each
pair once; so there are as many as there are pairs, and the tree loses one node for
each.  The events of a node come after those of the nodes below it.  Of two events
of one node the later one lies behind all that the earlier one brought in; so no
node that was brought in is merged into that node again, and the loop that steps
over the nodes brought in reports and leaves the same. -/
theorem Reachable.merges_account (reachable : s.Reachable) (n : NodeId) :
    let merges := (s.store.flatten n).1
    let after := (s.store.flatten n).2
    let pairs := s.store.repeatedPairs n
    (pairs.Nodup ∧ ∀ p c, (p, c) ∈ pairs ↔ p ∈ (s.store.tree n).preorder ∧
      c ∈ s.store.children p ∧ ∃ op, s.store.operator? p = some op ∧
        s.store.operator? c = some op) ∧
    (merges.map fun e => (e.parent, e.child)).Perm pairs ∧
    merges.length = pairs.length ∧
    (after.tree n).preorder.length + merges.length = (s.store.tree n).preorder.length ∧
    (merges.Pairwise fun e f => ¬ s.store.Above e.parent f.parent) ∧
    (merges.Pairwise fun e f => e.parent = f.parent → e.index + e.count ≤ f.index) ∧
    (∀ e ∈ merges, ∀ f ∈ merges, e.parent = f.parent → ¬ s.store.Above e.child f.child) ∧
    s.store.flattenSkipping n = s.store.flatten n ∧
    ∀ name, s.node? name = some n →
      (s.run (.change (.flatten name))).events = merges.map mergeEvent := by
  intro merges after pairs
  have forest := reachable.sound.store.forest
  have permuted : (merges.map fun e => (e.parent, e.child)).Perm pairs :=
    perm_map_fst_flatten forest n
  refine ⟨⟨forest.nodup_repeatedPairs n, fun _ _ => mem_repeatedPairs⟩, permuted, ?count, ?lost,
    pairwise_parent_flatten forest n, pairwise_index_flatten forest n,
    fun e first f second => not_above_of_mem_flatten forest n first second,
    flattenSkipping_eq forest n, fun name named => events_run_flatten named⟩
  case count => rw [← permuted.length_eq, List.length_map]
  case lost =>
    have tree : after.tree n = (s.store.tree n).flatten s.store.operator? :=
      (flattened_flatten forest n).tree_eq
    rw [tree, Nat.add_comm]
    exact length_fst_flatten_add forest n

/-- The sum `(a + (b + c)) + (d + e)` without any parentheses: the inner sum on the
left goes first, and of the two events of the sum as a whole the first brings in three
nodes and the second lies behind them. -/
theorem merges_account_of_nested_sums :
    let s := (((((((((empty.perform (.literal "a" "a")).session.perform
      (.literal "b" "b")).session.perform (.literal "c" "c")).session.perform
      (.literal "d" "d")).session.perform (.literal "e" "e")).session.perform
      (.operator "bc" .add "b" "c")).session.perform
      (.operator "abc" .add "a" "bc")).session.perform
      (.operator "de" .add "d" "e")).session.perform
      (.operator "all" .add "abc" "de")).session
    s.Reachable ∧
      (s.store.flatten 8).1 = [⟨6, 5, 1, 2⟩, ⟨8, 6, 0, 3⟩, ⟨8, 7, 3, 2⟩] ∧
      s.store.repeatedPairs 8 = [(8, 6), (8, 7), (6, 5)] ∧
      ((s.store.flatten 8).2.tree 8).preorder.length + 3 = (s.store.tree 8).preorder.length ∧
      s.store.flattenSkipping 8 = s.store.flatten 8 ∧
      (s.run (.change (.flatten "all"))).events = [.merged 1 2, .merged 0 3, .merged 3 2] := by
  intro s
  have reachable : s.Reachable :=
    ((((((((Reachable.empty.perform _ (by decide)).perform _ (by decide)).perform _
      (by decide)).perform _ (by decide)).perform _ (by decide)).perform _
      (by decide)).perform _ (by decide)).perform _ (by decide)).perform _
      (by decide)
  have merges : (s.store.flatten 8).1 = [⟨6, 5, 1, 2⟩, ⟨8, 6, 0, 3⟩, ⟨8, 7, 3, 2⟩] := by
    decide
  have named : s.node? "all" = some 8 := by decide
  obtain ⟨-, -, -, lost, -, -, -, skipping, events⟩ := reachable.merges_account 8
  rw [merges] at lost events
  exact ⟨reachable, merges, by decide, lost, skipping, events "all" named⟩

end OperatorTree.Session
