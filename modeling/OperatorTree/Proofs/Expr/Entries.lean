/-
# OperatorTree.Proofs.Expr.Entries -- the list of nodes says everything

The preorder list of depths, kinds and labels determines the expression
(`entries_injective`).  The nodes below a node are the entries behind its own up to the
next one that is not deeper, so each subtree ends where the depth falls back: an
expression can be told from what follows it as soon as that starts no deeper than the
expression itself (`eq_of_entriesFrom_append`).
-/
import OperatorTree.Expr.Entries
import OperatorTree.Proofs.Text.Delimited

namespace OperatorTree.Expr

set_option autoImplicit false

/-- The list ends, or goes on with an entry of at most this depth. -/
def StartsBy (depth : Nat) (rest : List Entry) : Prop :=
  ∀ entry ∈ rest.head?, entry.depth ≤ depth

theorem startsBy_nil (depth : Nat) : StartsBy depth [] :=
  fun _ none => nomatch none

theorem StartsBy.mono {low high : Nat} {rest : List Entry} (starts : StartsBy low rest)
    (le : low ≤ high) : StartsBy high rest :=
  fun entry first => Nat.le_trans (starts entry first) le

theorem startsBy_entriesFrom_append {depth low : Nat} {e : Expr} {rest : List Entry} :
    StartsBy low (entriesFrom depth e ++ rest) ↔ depth ≤ low := by
  cases e
  simp [StartsBy]

/-- An expression can be told from entries that are not below it. -/
theorem eq_of_entriesFrom_append {depth : Nat} {a b : Expr} {x y : List Entry}
    (startX : StartsBy depth x) (startY : StartsBy depth y)
    (same : entriesFrom depth a ++ x = entriesFrom depth b ++ y) : a = b ∧ x = y := by
  induction a using Tree.induction generalizing depth b x y with
  | step content operands ih =>
      cases b with
      | node other others =>
          simp only [entriesFrom_node, List.cons_append, List.cons.injEq, Entry.mk.injEq,
            true_and] at same
          obtain ⟨⟨kinds, labels⟩, rest⟩ := same
          obtain rfl := Content.eq_of_kind_of_label kinds labels
          -- The operands are the entries of depth `depth + 1` and below, up to the next node
          -- of depth `depth`.
          obtain ⟨rfl, rfl⟩ := eq_of_flatMap_append (entriesFrom (depth + 1))
            (StartsBy (depth + 1)) (StartsBy depth)
            (fun _ _ => startsBy_entriesFrom_append.2 (Nat.le_refl _))
            (fun _ starts => starts.mono depth.le_succ)
            (fun _ _ starts => depth.not_succ_le_self (startsBy_entriesFrom_append.1 starts))
            (fun operand member _ _ _ _ startsU startsV => ih operand member startsU startsV)
            startX startY rest
          exact ⟨rfl, rfl⟩

/-- **The list of nodes determines the expression.** -/
theorem entries_injective : Function.Injective entries := by
  intro a b same
  exact (eq_of_entriesFrom_append (startsBy_nil 0) (startsBy_nil 0) (congrArg (· ++ []) same)).1

end OperatorTree.Expr
