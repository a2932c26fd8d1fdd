/-
# OperatorTree.Proofs.Expr.Spelling -- flattening keeps the text

An operator is written between its operands.  If a merged child was written with
the same operator between its own operands, the text is the same whether or not
the child is there.

This is not about texts.  Whatever is computed of the nodes of an expression from
the leaves upwards, flattening keeps it if operators join what was computed of
their operands: joining groups must be joining what the groups are joined from
(`Joins.flatten`).  That needs a group to have a member, so the operators of the
tree must be filled.  Flattening keeps them filled, and it keeps what is computed
(`Filled.fold_flatten`).  The text is one such thing (`Filled.spelling_flatten`).
-/
import OperatorTree.Expr.Text
import OperatorTree.Proofs.Expr.Shape

namespace OperatorTree

set_option autoImplicit false

universe u

/-! ## Joining -/

/-- A join of lists: one member alone is its own join, and the join of two lists one behind
the other is the combination of both joins. -/
structure Joins {β : Type u} (join : List β → β) (combine : β → β → β) : Prop where
  singleton : ∀ b, join [b] = b
  append : ∀ xs ys, xs ≠ [] → ys ≠ [] → join (xs ++ ys) = combine (join xs) (join ys)

/-- Joined groups may be joined from their members at once. -/
theorem Joins.flatten {β : Type u} {join : List β → β} {combine : β → β → β}
    (joins : Joins join combine) {groups : List (List β)} (filled : ∀ group ∈ groups, group ≠ []) :
    join groups.flatten = join (groups.map join) := by
  induction groups with
  | nil => rfl
  | cons group groups ih =>
      have first := filled group List.mem_cons_self
      have others : ∀ g ∈ groups, g ≠ [] := fun g later =>
        filled g (List.mem_cons_of_mem group later)
      cases groups with
      | nil => simp [joins.singleton]
      | cons next groups =>
          have rest : (next :: groups).flatten ≠ [] := by
            rw [List.flatten_cons]
            exact List.append_ne_nil_of_left_ne_nil (others next List.mem_cons_self) _
          calc join (group :: next :: groups).flatten
              = combine (join group) (join (next :: groups).flatten) := joins.append _ _ first rest
            _ = combine (join [join group]) (join ((next :: groups).map join)) := by
              rw [joins.singleton, ih others]
            _ = join ((group :: next :: groups).map join) :=
              (joins.append _ _ (by simp) (by simp)).symm

theorem intercalate_append_of_ne_nil {α : Type u} {sep : List α} {xs ys : List (List α)}
    (left : xs ≠ []) (right : ys ≠ []) :
    sep.intercalate (xs ++ ys) = sep.intercalate xs ++ sep ++ sep.intercalate ys := by
  induction xs with
  | nil => exact absurd rfl left
  | cons x xs ih =>
      rw [List.cons_append, List.intercalate_cons_of_ne_nil (by simp [right])]
      by_cases last : xs = []
      · rw [last, List.nil_append, List.intercalate_singleton]
      · rw [ih last, List.intercalate_cons_of_ne_nil last]
        simp only [List.append_assoc]

theorem joins_intercalate {α : Type u} (sep : List α) :
    Joins sep.intercalate fun xs ys => xs ++ sep ++ ys where
  singleton _ := List.intercalate_singleton
  append _ _ := intercalate_append_of_ne_nil

namespace Expr

/-! ## What flattening keeps -/

section Fold

variable {β : Type u} {compute : Content → List β → β} {combine : Operator → β → β → β}
  (joins : ∀ op, Joins (compute (.operator op)) (combine op))

include joins

/-- A merged child comes to the same as what takes its place. -/
theorem join_fold_merge (op : Operator) (e : Expr) :
    compute (.operator op) ((Tree.merge Content.operator? op e).map (Tree.fold compute)) =
      Tree.fold compute e := by
  cases e with
  | node content operands =>
      unfold Tree.merge
      by_cases same : content.operator? = some op
      · rw [Tree.value_node, if_pos same, Tree.children_node, Tree.fold_node,
          Content.operator?_eq_some_iff.1 same]
      · rw [Tree.value_node, if_neg same, List.map_singleton, (joins op).singleton]

/-- **Flattening keeps what is computed by joining**, if operators have operands. -/
theorem Filled.fold_flatten {e : Expr} (filled : e.Filled) :
    Tree.fold compute e.flatten = Tree.fold compute e := by
  induction e using Tree.induction with
  | step content operands ih =>
      have each : ∀ e ∈ operands.map Expr.flatten, e.Filled := by
        intro e member
        obtain ⟨d, among, rfl⟩ := List.mem_map.1 member
        exact Filled.flatten (filled.of_mem d among)
      have same : (operands.map Expr.flatten).map (Tree.fold compute) =
          operands.map (Tree.fold compute) := by
        rw [List.map_map]
        exact List.map_congr_left fun e among => ih e among (filled.of_mem e among)
      rw [flatten_node, Tree.fold_node, Tree.fold_node, ← same]
      cases content with
      | literal label => rfl
      | parenthetical label => rfl
      | operator op =>
          simp only [Tree.mergeBelow, Content.operator?, List.map_flatMap]
          rw [List.flatMap_def, (joins op).flatten, List.map_map]
          · congr 1
            exact List.map_congr_left fun e _ => join_fold_merge joins op e
          · intro group member
            obtain ⟨e, among, rfl⟩ := List.mem_map.1 member
            simpa using Filled.merge_ne_nil (each e among) op

end Fold

/-- **Flattening keeps the text** of an expression whose operators have operands. -/
theorem Filled.spelling_flatten {e : Expr} (filled : e.Filled) :
    spelling e.flatten = spelling e :=
  filled.fold_flatten fun op => joins_intercalate [op.symbol]

end Expr

end OperatorTree
