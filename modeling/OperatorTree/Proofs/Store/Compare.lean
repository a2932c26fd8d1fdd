/-
# OperatorTree.Proofs.Store.Compare -- equality in structure

The comparison of two nodes walks both trees and stops where they meet.  In a
forest a node has one tree, so nothing is missed there, and two nodes are equal
in structure exactly when they make up the same expression (`equal_iff`).  A deep
copy is planted from the expression of what it copies, so it is equal to it.
-/
import OperatorTree.Proofs.Store.Plant
import OperatorTree.Store.Compare

namespace OperatorTree.Store

set_option autoImplicit false

open Relation

variable {s : Store} {m n : NodeId}

theorem equalForests_iff {cs ds : List NodeId}
    (each : ∀ c ∈ cs, ∀ d, s.equal c d = true ↔ s.expr c = s.expr d) :
    s.equalForests (cs.map s.tree) (ds.map s.tree) = true ↔ cs.map s.expr = ds.map s.expr := by
  induction cs generalizing ds with
  | nil => cases ds <;> simp [equalForests]
  | cons c cs ih =>
      cases ds with
      | nil => simp [equalForests]
      | cons d ds =>
          have first : s.equalTrees (s.tree c) (s.tree d) = true ↔ s.expr c = s.expr d :=
            each c List.mem_cons_self d
          have others : s.equalForests (cs.map s.tree) (ds.map s.tree) = true ↔
              cs.map s.expr = ds.map s.expr :=
            ih fun x member => each x (List.mem_cons_of_mem c member)
          simp only [List.map_cons, equalForests, Bool.and_eq_true, first, others, List.cons.injEq]

theorem IsForest.equal_iff (forest : s.IsForest) (m n : NodeId) :
    s.equal m n = true ↔ s.expr m = s.expr n := by
  induction m using forest.induction generalizing n with
  | step m ih =>
      by_cases same : m = n
      · subst same
        unfold equal
        rw [forest.tree_eq]
        simp [equalTrees]
      · have below : s.equalForests ((s.children m).map s.tree) ((s.children n).map s.tree) = true ↔
            (s.children m).map s.expr = (s.children n).map s.expr := equalForests_iff ih
        unfold equal
        rw [forest.tree_eq, forest.tree_eq n, forest.expr_eq, forest.expr_eq n]
        simp only [equalTrees, beq_eq_false_iff_ne.2 same, Bool.false_or, Bool.and_eq_true,
          beq_iff_eq, below, Tree.node.injEq]

/-! ## Deep copies -/

theorem planted_deepCopy (forest : s.IsForest) (n : NodeId) :
    Planted s (s.expr n) (s.deepCopy n).1 (s.deepCopy n).2 :=
  planted_plant (s.expr n) forest

theorem equal_deepCopy (forest : s.IsForest) (live : s.Live n) :
    (s.deepCopy n).2.equal (s.deepCopy n).1 n = true := by
  have planted := planted_deepCopy forest n
  rw [planted.forest.equal_iff, planted.expr_eq, planted.expr_old forest live]

end OperatorTree.Store
