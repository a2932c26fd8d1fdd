/-
# OperatorTree.Proofs.Session.Parentheses -- parentheses isolate their contents

What stands in parentheses is read as it is read alone.  A text in parentheses becomes one
pair of parentheses around the tree that the text becomes; and each pair of parentheses in
the tree of a text has a label that becomes, read by itself, a tree equal in structure to
the one below it.

Reading makes new nodes and edits none, so what was read before can be compared with what
is read after it (`Reachable.expr_run_of_edits_eq_nil`).
-/
import OperatorTree.Proofs.Grammar.Groups
import OperatorTree.Proofs.Session.Absorption

namespace OperatorTree.Session

set_option autoImplicit false

variable {s : Session} {settings : Grammar.Settings} {text dst other : String} {e : Expr}
  {m n : NodeId}

/-- A text that reads as what a node below a register makes up becomes a node that is equal to
it in structure. -/
theorem Reachable.exists_equal_of_parse (reachable : s.Reachable)
    (parsed : Grammar.parse settings text = .ok (s.store.expr m)) (named : s.node? dst = some n)
    (below : m ∈ (s.store.tree n).preorder) (differ : other ≠ dst) :
    let after := (s.run (.change (.parse other settings text))).session
    ∃ k, after.node? other = some k ∧ after.store.expr k = s.store.expr m ∧
      after.store.equal k m = true := by
  intro after
  have forest := (reachable.step (.change (.parse other settings text))).sound.store.forest
  obtain ⟨k, set, expr⟩ := reachable.sound.exists_node?_parse parsed other
  have kept : after.store.expr m = s.store.expr m :=
    reachable.expr_run_of_edits_eq_nil rfl (by simpa [Change.target?] using differ) named
      (reachable.sound.store.forest.mem_preorder_tree.1 below)
  exact ⟨k, set, expr, (forest.equal_iff k m).2 (expr.trans kept.symm)⟩

/-- **Parentheses isolate their contents.**  Let a text read as `e`, with either setting.  Then
the text in parentheses reads as one pair of parentheses around `e`, labelled by itself
without the spaces; and each pair of parentheses in `e` is what its label reads as.

In a session the text becomes a tree of nodes that make up `e`.  When the text is read once
more, in parentheses, it becomes a pair of parentheses whose only child is equal in structure
to that tree; and when the label of a pair of parentheses in the tree is read, it becomes a
tree that is equal in structure to the one below the pair. -/
theorem Reachable.parentheses_isolate (reachable : s.Reachable)
    (parsed : Grammar.parse settings text = .ok e) :
    Grammar.parse settings ("(" ++ text ++ ")") =
      .ok (.parenthetical ("(" ++ String.ofList (Grammar.strip text) ++ ")") e) ∧
    (e.All fun content operands => ∀ label, content = .parenthetical label →
      Grammar.parse settings label = .ok (.node content operands)) ∧
    ∀ dst other, other ≠ dst →
      let first := (s.run (.change (.parse dst settings text))).session
      ∃ n, first.node? dst = some n ∧ first.store.expr n = e ∧
        (let outcome := first.run (.change (.parse other settings ("(" ++ text ++ ")")))
         let store := outcome.session.store
         outcome.answer = .ok .done ∧
          ∃ g c, outcome.session.node? other = some g ∧
            store.content g =
              .parenthetical ("(" ++ String.ofList (Grammar.strip text) ++ ")") ∧
            store.children g = [c] ∧ store.equal c n = true) ∧
        ∀ m ∈ (first.store.tree n).preorder, ∀ label,
          first.store.content m = .parenthetical label →
            let outcome := first.run (.change (.parse other settings label))
            outcome.answer = .ok .done ∧
              ∃ k, outcome.session.node? other = some k ∧
                outcome.session.store.equal k m = true := by
  have whole := Grammar.parse_parenthesized parsed
  have groups := Grammar.all_groups_of_parse parsed
  refine ⟨whole, groups, ?_⟩
  intro dst other differ first
  have reachable₁ : first.Reachable := reachable.step _
  have forest₁ := reachable₁.sound.store.forest
  obtain ⟨n, named, expr⟩ := reachable.sound.exists_node?_parse parsed dst
  refine ⟨n, named, expr, ?again, ?inside⟩
  case again =>
    intro outcome store
    refine ⟨answer_run_parse whole, ?_⟩
    have forest : store.IsForest := (reachable₁.step _).sound.store.forest
    obtain ⟨g, set, made⟩ := reachable₁.sound.exists_node?_parse whole other
    have kept : store.expr n = e :=
      (reachable₁.expr_run_of_edits_eq_nil rfl (by simpa [Change.target?] using differ) named
        .refl).trans expr
    -- The node is a pair of parentheses because that is what it makes up.
    rw [forest.expr_eq, Tree.node.injEq, List.map_eq_singleton_iff] at made
    obtain ⟨content, c, children, inner⟩ := made
    exact ⟨g, c, set, content, children, (forest.equal_iff c n).2 (inner.trans kept.symm)⟩
  case inside =>
    intro m below label own outcome
    have all := forest₁.all_expr_iff.1 (expr.symm ▸ groups) m (forest₁.mem_preorder_tree.1 below)
    have read : Grammar.parse settings label = .ok (first.store.expr m) := by
      rw [forest₁.expr_eq]
      exact all label own
    obtain ⟨k, set, -, equal⟩ := reachable₁.exists_equal_of_parse read named below differ
    exact ⟨answer_run_parse read, k, set, equal⟩

/-- The sum `b + c` in parentheses, and in two pairs of them. -/
theorem parentheses_isolate_sum :
    let e : Expr := .parenthetical "(b+c)" (.operator .add [.literal "b", .literal "c"])
    let first := (empty.run (.change (.parse "x" {} "(b + c)"))).session
    let outcome := first.run (.change (.parse "y" {} "((b + c))"))
    empty.Reachable ∧ Grammar.parse {} "(b + c)" = .ok e ∧
      Grammar.parse {} "((b + c))" = .ok (.parenthetical "((b+c))" e) ∧
      Grammar.parse {} "(b+c)" = .ok e ∧ outcome.answer = .ok .done ∧
      ∃ n g c, first.node? "x" = some n ∧ outcome.session.node? "y" = some g ∧
        outcome.session.store.content g = .parenthetical "((b+c))" ∧
        outcome.session.store.children g = [c] ∧ outcome.session.store.equal c n = true := by
  intro e first outcome
  let letter (x : Char) (allowed : Allowed x) : Grammar.Factor :=
    .literal [x] (isLiteral_singleton.2 allowed)
  let inner : Grammar.Level :=
    .cons (letter 'b' (by decide)) .add (.single (letter 'c' (by decide)))
  have sum : inner.tree .additive = .operator .add [.literal "b", .literal "c"] := by
    rw [Grammar.Level.tree_additive_pair, Grammar.Level.tree_literal, Grammar.Level.tree_literal]
  have parsed : Grammar.parse {} "(b + c)" = .ok e := by
    rw [Grammar.parse_group inner (by decide), Grammar.Level.read, sum]
    rfl
  obtain ⟨whole, groups, session⟩ := Reachable.empty.parentheses_isolate parsed
  obtain ⟨n, named, -, ⟨done, g, c, set, content, children, equal⟩, -⟩ :=
    session "x" "y" (by decide)
  exact ⟨.empty, parsed, whole, groups.here _ rfl, done, n, g, c, named, set, content, children,
    equal⟩

end OperatorTree.Session
