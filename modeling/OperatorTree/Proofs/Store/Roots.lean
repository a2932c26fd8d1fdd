/-
# OperatorTree.Proofs.Store.Roots -- the way up ends at the root of the tree

Going up from a node, from each one to its parent, gives its ancestors one after the other
and then nothing more (`IsForest.iterate_parent?`).  Where the way ends there is a root, and
the node is in the tree of it (`IsForest.isRoot_root`, `IsForest.root_below`).  Of two nodes
above a third one is above the other, and nothing is above a root; so no other root has the
node in its tree (`IsForest.eq_root_iff`), and two nodes have one root just when some tree
has both (`IsForest.root_eq_root_iff`).
-/
import OperatorTree.Proofs.Store.Plant

namespace OperatorTree.Store

set_option autoImplicit false

open Relation

variable {s : Store} {m n p r : NodeId}

theorem ancestors_of_isRoot (root : s.IsRoot n) : s.ancestors n = [] :=
  ancestorsFrom_of_root root

theorem root_of_isRoot (root : s.IsRoot n) : s.root n = n := by
  rw [Store.root, ancestors_of_isRoot root]
  rfl

namespace IsForest

/-! ## Step by step -/

/-- The nodes that are reached by one step up, by two and so on are the ancestors in their
order, and there is none after the last. -/
theorem iterate_parent? (forest : s.IsForest) (n : NodeId) (k : Nat) :
    (fun m : Option NodeId => m.bind s.parent?)^[k + 1] (some n) = (s.ancestors n)[k]? := by
  induction k generalizing n with
  | zero =>
      cases above : s.parent? n with
      | none => rw [ancestors_of_isRoot above]; exact above
      | some p => rw [forest.ancestors_eq_cons above]; exact above
  | succ k ih =>
      rw [Function.iterate_succ_apply, Option.bind_some]
      cases above : s.parent? n with
      | none =>
          rw [ancestors_of_isRoot above]
          exact Function.iterate_fixed rfl (k + 1)
      | some p =>
          rw [forest.ancestors_eq_cons above, List.getElem?_cons_succ]
          exact ih p

/-- Each ancestor has the one before it for a child. -/
theorem isChain_ancestors (forest : s.IsForest) (n : NodeId) :
    (n :: s.ancestors n).IsChain fun c p => s.parent? c = some p := by
  induction n using forest.induction_up with
  | step n ih =>
      cases above : s.parent? n with
      | none =>
          rw [ancestors_of_isRoot above]
          exact .singleton n
      | some p =>
          rw [forest.ancestors_eq_cons above]
          exact .cons_cons above (ih p above)

/-! ## The root -/

theorem root_eq_of_parent? (forest : s.IsForest) (above : s.parent? n = some p) :
    s.root n = s.root p := by
  rw [Store.root, Store.root, forest.ancestors_eq_cons above, List.getLast?_cons]
  rfl

theorem isRoot_root (forest : s.IsForest) (n : NodeId) : s.IsRoot (s.root n) := by
  induction n using forest.induction_up with
  | step n ih =>
      cases above : s.parent? n with
      | none => rwa [root_of_isRoot above]
      | some p =>
          rw [forest.root_eq_of_parent? above]
          exact ih p above

/-- A node is in the tree of its root. -/
theorem root_below (forest : s.IsForest) (n : NodeId) : ReflTransGen s.Lists (s.root n) n := by
  induction n using forest.induction_up with
  | step n ih =>
      cases above : s.parent? n with
      | none => rw [root_of_isRoot above]
      | some p =>
          rw [forest.root_eq_of_parent? above]
          exact (ih p above).tail (forest.lists_iff.2 above)

theorem live_root (forest : s.IsForest) (live : s.Live n) : s.Live (s.root n) := by
  rcases reflTransGen_iff_eq_or_transGen.1 (forest.root_below n) with same | above
  · exact same ▸ live
  · exact (forest.live_of_above above).1

/-- The root of a node is the only root that the node is below. -/
theorem eq_root_iff (forest : s.IsForest) :
    r = s.root n ↔ s.IsRoot r ∧ ReflTransGen s.Lists r n := by
  constructor
  · rintro rfl
    exact ⟨forest.isRoot_root n, forest.root_below n⟩
  · rintro ⟨root, below⟩
    rcases forest.reflTransGen_total below (forest.root_below n) with way | way
    · exact forest.eq_of_reflTransGen_isRoot (forest.isRoot_root n) way
    · exact (forest.eq_of_reflTransGen_isRoot root way).symm

/-- A node has the root of every node that it is below. -/
theorem root_eq_of_below (forest : s.IsForest) (below : ReflTransGen s.Lists m n) :
    s.root n = s.root m :=
  (forest.eq_root_iff.2 ⟨forest.isRoot_root m, (forest.root_below m).trans below⟩).symm

/-- Two nodes have the same root just when both are below one node. -/
theorem root_eq_root_iff (forest : s.IsForest) :
    s.root m = s.root n ↔ ∃ t, ReflTransGen s.Lists t m ∧ ReflTransGen s.Lists t n := by
  constructor
  · intro same
    exact ⟨s.root n, same ▸ forest.root_below m, forest.root_below n⟩
  · rintro ⟨t, below, below'⟩
    rw [forest.root_eq_of_below below, forest.root_eq_of_below below']

end IsForest

end OperatorTree.Store
