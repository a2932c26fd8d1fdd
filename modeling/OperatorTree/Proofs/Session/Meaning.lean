/-
# OperatorTree.Proofs.Session.Meaning -- a flattening changes no meaning

What a tree of nodes means is what is written for it and what it comes to when its
literals have values and its operators are carried out.  Flattening changes neither,
as long as each operator in the tree has an operand.  An operator without one is
written as nothing, and what is written around it changes when it is merged.

The literals and the parentheses are the same nodes before and after, in the same
order; only operators are merged, and no operand changes its place.
-/
import OperatorTree.Proofs.Expr.Meaning
import OperatorTree.Proofs.Session.Flattening
import OperatorTree.Proofs.Session.Parsing

namespace OperatorTree.Session

set_option autoImplicit false

universe u

variable {s : Session} {n : NodeId}

/-- **Flattening preserves meaning.**  Let each operator in the tree of `n` have a child.
Then the tree is written as before when it has been flattened, its literals and its pairs
of parentheses are the same nodes with the same contents in the same order, and it has
the same value under every interpretation with associative operations.  All this is so of
what the command leaves when it has removed what nothing holds. -/
theorem Reachable.meaning_of_flatten (reachable : s.Reachable) (live : s.store.Live n)
    (filled : ∀ m ∈ (s.store.tree n).preorder, ∀ op, s.store.content m = .operator op →
      s.store.children m ≠ []) :
    let after := (s.store.flatten n).2
    Expr.text (after.expr n) = Expr.text (s.store.expr n) ∧
    (after.tree n).preorder.filter (after.operator? · = none) =
      (s.store.tree n).preorder.filter (s.store.operator? · = none) ∧
    (∀ m, after.content m = s.store.content m) ∧
    (∀ (α : Type u) (I : Interpretation α), I.Associative →
      ∃ v, I.value? (s.store.expr n) = some v ∧ I.value? (after.expr n) = some v) ∧
    ∀ name, s.node? name = some n →
      let outcome := s.run (.change (.flatten name))
      outcome.answer = .ok .done ∧ outcome.session.node? name = some n ∧
      outcome.session.store.tree n = after.tree n ∧
      outcome.session.store.expr n = after.expr n ∧
      (outcome.session.run (.question (.text name))).answer =
        (s.run (.question (.text name))).answer := by
  intro after
  have sound := reachable.sound
  have forest := sound.store.forest
  have flattened := Store.flattened_flatten forest n
  have expr : after.expr n = (s.store.expr n).flatten := Store.expr_flatten forest n
  simp only [forest.mem_preorder_tree] at filled
  have filledExpr : (s.store.expr n).Filled := (Store.filled_expr_iff forest).2 filled
  have text : Expr.text (after.expr n) = Expr.text (s.store.expr n) := by
    rw [expr, Expr.text, filledExpr.spelling_flatten, Expr.text]
  refine ⟨text, ?nodes, flattened.regrouped.content_eq, ?value, ?command⟩
  case nodes =>
    rw [flattened.tree_eq, flattened.regrouped.operator?_funext]
    exact Tree.filter_preorder_flatten s.store.operator? (s.store.tree n)
  case value =>
    intro α I associative
    obtain ⟨v, value⟩ := I.exists_value? (sound.store.shaped_expr live) filledExpr
    refine ⟨v, value, ?_⟩
    rw [expr, associative.value?_flatten filledExpr, value]
  case command =>
    intro name named outcome
    have named' : outcome.session.node? name = some n := node?_run_flatten_self named
    have same : outcome.session.store.expr n = after.expr n :=
      (sound.expr_run_flatten named).trans expr.symm
    refine ⟨answer_run_flatten named, named', sound.tree_run_flatten named, same, ?_⟩
    rw [answer_run_text named', answer_run_text named, same, text]

/-- The sum `a + (b + c * d)` without any parentheses, where texts stand for themselves and are
put one behind the other. -/
theorem meaning_of_flattened_sum :
    let s := (((((((empty.perform (.literal "a" "a")).session.perform
      (.literal "b" "b")).session.perform (.literal "c" "c")).session.perform
      (.literal "d" "d")).session.perform (.operator "product" .mul "c" "d")).session.perform
      (.operator "inner" .add "b" "product")).session.perform
      (.operator "sum" .add "a" "inner")).session
    let after := (s.store.flatten 6).2
    let texts : Interpretation String := ⟨id, fun _ left right => left ++ right⟩
    s.Reachable ∧ after.children 6 = [0, 1, 4] ∧ Expr.text (after.expr 6) = "a+b+c*d" ∧
      (after.tree 6).preorder.filter (after.operator? · = none) = [0, 1, 2, 3] ∧
      texts.value? (after.expr 6) = some "abcd" ∧
      ((s.run (.change (.flatten "sum"))).session.run (.question (.text "sum"))).answer =
        .ok (.text "a+b+c*d") := by
  intro s after texts
  have reachable : s.Reachable :=
    ((((((Reachable.empty.perform _ (by decide)).perform _ (by decide)).perform _
      (by decide)).perform _ (by decide)).perform _ (by decide)).perform _
      (by decide)).perform _ (by decide)
  have live : s.store.Live 6 := by decide
  have named : s.node? "sum" = some 6 := by decide
  have operands : ∀ m ∈ (s.store.tree 6).preorder,
      s.store.operator? m = none ∨ s.store.children m ≠ [] := by
    decide
  have filled : ∀ m ∈ (s.store.tree 6).preorder, ∀ op, s.store.content m = .operator op →
      s.store.children m ≠ [] := by
    intro m below op own
    refine (operands m below).resolve_left ?_
    simp [Store.operator?, own, Content.operator?]
  have associative : texts.Associative := fun _ _ _ _ => String.append_assoc ..
  have written : Expr.text (s.store.expr 6) = "a+b+c*d" := by decide
  have before : texts.value? (s.store.expr 6) = some "abcd" := by decide
  obtain ⟨text, nodes, -, value, command⟩ := reachable.meaning_of_flatten live filled
  obtain ⟨v, first, second⟩ := value String texts associative
  obtain ⟨-, -, -, -, answer⟩ := command "sum" named
  refine ⟨reachable, by decide, text.trans written,
    nodes.trans (by decide), ?_, ?_⟩
  · rw [second, ← first, before]
  · rw [answer, answer_run_text named, written]

end OperatorTree.Session
