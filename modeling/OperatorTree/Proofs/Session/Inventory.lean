/-
# OperatorTree.Proofs.Session.Inventory -- the result of reading is complete and well formed

A text that reads becomes a root of linked nodes in which every piece of the text is found
again: the runs between operators and parentheses as literals, each opening parenthesis as
a pair of parentheses labelled by what stands up to the one that closes it, and each
operator character between two operands.  This is so with merging and without; merging
only brings operands of several nodes together in one.
-/
import OperatorTree.Proofs.Grammar.Inventory
import OperatorTree.Proofs.Session.Parsing

namespace OperatorTree.Session

set_option autoImplicit false

variable {s : Session} {settings : Grammar.Settings} {text : String} {e : Expr}

/-- **A text that reads is read completely.**  Let a text read as `e`, and let `u` be the text
without its spaces.  In any session the text becomes a root, with child lists and parent
links that agree below it, which makes up `e`.  In `e`, the labels of the literals are
literals, and they are the runs of `u` between operators and parentheses, from left to
right.  The pairs of parentheses are, in order, those that open in `u`: each is labelled by
what stands from there to the parenthesis that closes it, and this is its text.  Without
merging, each operator has two operands and there is an operator for each operator character
of `u`; with merging, each has two operands or more, and the operands beyond the first ones
are as many as the operator characters of `u`. -/
theorem Reachable.read_completely (reachable : s.Reachable)
    (parsed : Grammar.parse settings text = .ok e) :
    let u := Grammar.strip text
    (∀ dst,
      let outcome := s.run (.change (.parse dst settings text))
      outcome.answer = .ok .done ∧ ∃ n, outcome.session.node? dst = some n ∧
        outcome.session.store.IsRoot n ∧ outcome.session.store.Linked n ∧
        outcome.session.store.expr n = e) ∧
    (e.All fun content _ => ∀ label, content = .literal label → IsLiteral label.toList) ∧
    e.literals.map String.toList = Text.runs u ∧
    List.Forall₂ (fun label opened => label.toList <+: opened ∧ Text.Enclosed label.toList)
      e.groups (Text.openings u) ∧
    (e.All fun content operands => ∀ label, content = .parenthetical label →
      Expr.text (.node content operands) = label) ∧
    (settings.flatten = false →
      (e.All fun content operands => ∀ op, content = .operator op → operands.length = 2) ∧
        e.arities.length = Text.symbols u) ∧
    (settings.flatten = true →
      (e.All fun content operands => ∀ op, content = .operator op → 2 ≤ operands.length) ∧
        (e.arities.map fun node => node.2 - 1).sum = Text.symbols u) := by
  intro u
  have joints := Grammar.joints_of_parse parsed
  refine ⟨?made, ?valid, Grammar.literals_of_parse parsed, Grammar.groups_of_parse parsed,
    ?labels, ?kept, fun _ => ⟨Grammar.wide_of_parse parsed, joints⟩⟩
  case made =>
    intro dst outcome
    have forest := (reachable.step (.change (.parse dst settings text))).sound.store.forest
    obtain ⟨n, named, expr⟩ := reachable.sound.exists_node?_parse parsed dst
    exact ⟨answer_run_parse parsed, n, named, reachable.sound.isRoot_run_parse parsed named,
      fun m _ c listed => forest.mem_children_iff_parent?.1 listed, expr⟩
  case valid =>
    exact (Grammar.lettered_of_parse parsed).mono fun _ _ lettered label own =>
      (lettered label own).1
  case labels =>
    exact (Grammar.grouped_of_parse parsed).mono fun _ _ grouped label own =>
      (grouped label own).1
  case kept =>
    intro keep
    have pairs := Grammar.pairs_of_parse keep parsed
    exact ⟨pairs, (Expr.joints_eq_length_arities pairs).symm.trans joints⟩

/-- The text `(b + é)`, whose second literal takes two bytes. -/
theorem read_completely_of_sum :
    let e : Expr := .parenthetical "(b+é)" (.operator .add [.literal "b", .literal "é"])
    let u := Grammar.strip "(b + é)"
    let outcome := empty.run (.change (.parse "x" {} "(b + é)"))
    empty.Reachable ∧ Grammar.parse {} "(b + é)" = .ok e ∧
      (∃ n, outcome.session.node? "x" = some n ∧ outcome.session.store.IsRoot n ∧
        outcome.session.store.Linked n ∧ outcome.session.store.expr n = e) ∧
      Text.runs u = [['b'], ['é']] ∧ e.groups = ["(b+é)"] ∧
      List.Forall₂ (fun label opened => label.toList <+: opened ∧ Text.Enclosed label.toList)
        e.groups (Text.openings u) ∧
      e.arities = [(.add, 2)] ∧ Text.symbols u = 1 := by
  intro e u outcome
  let letter (x : Char) (allowed : Allowed x) : Grammar.Factor :=
    .literal [x] (isLiteral_singleton.2 allowed)
  let inner : Grammar.Level :=
    .cons (letter 'b' (by decide)) .add (.single (letter 'é' (by decide)))
  have sum : inner.tree .additive = .operator .add [.literal "b", .literal "é"] := by
    rw [Grammar.Level.tree_additive_pair, Grammar.Level.tree_literal, Grammar.Level.tree_literal]
  have parsed : Grammar.parse {} "(b + é)" = .ok e := by
    rw [Grammar.parse_group inner (by decide), Grammar.Level.read, sum]
    rfl
  obtain ⟨made, -, literals, groups, -, -, merged⟩ := Reachable.empty.read_completely parsed
  obtain ⟨-, n, named, root, linked, expr⟩ := made "x"
  exact ⟨.empty, parsed, ⟨n, named, root, linked, expr⟩, literals.symm.trans (by decide),
    by decide, groups, by decide, (merged rfl).2.symm.trans (by decide)⟩

end OperatorTree.Session
