/-
# OperatorTree.Proofs.Session.Parsing -- the nodes that are made of a text

Reading a text makes the nodes of what the search finds and flattens them in
place, if that is asked for; the tree that comes about is the expression that
`Grammar.parse` gives (`expr_plantFor`), and it is still there when the session
has been settled.  So what is known of the expression, that it is written as it
was read and reads as it is written, holds of the nodes as well
(`parse_round_trip`).

Nodes that were made and edited in other ways make up expressions that no text
reads as.  They are written as texts that read nevertheless (`Reachable.reread`).
-/
import OperatorTree.Proofs.Grammar.Rereading
import OperatorTree.Proofs.Session.Lifetimes
import OperatorTree.Proofs.Store.Survivors

namespace OperatorTree.Session

set_option autoImplicit false

variable {s : Session} {settings : Grammar.Settings} {dst text : String} {n : NodeId}

theorem expr_plantFor {store : Store} (forest : store.IsForest) (settings : Grammar.Settings)
    (e : Expr) :
    (plantFor settings e store).2.expr (plantFor settings e store).1 =
      if settings.flatten then Expr.flatten e else e := by
  have planted := Store.planted_plant e forest
  by_cases merge : settings.flatten = true
  · rw [plantFor_of_flatten merge, if_pos merge, Store.expr_flatten planted.forest, planted.expr_eq]
  · rw [plantFor_of_not_flatten merge, if_neg merge, planted.expr_eq]

/-- **A text that is an expression becomes a tree of nodes that make it up.** -/
theorem Sound.exists_node?_parse (sound : s.Sound) {e : Expr}
    (parsed : Grammar.parse settings text = .ok e) (dst : String) :
    ∃ n, (s.run (.change (.parse dst settings text))).session.node? dst = some n ∧
      (s.run (.change (.parse dst settings text))).session.store.expr n = e := by
  obtain ⟨raw, found, rfl⟩ := Grammar.parse_eq_ok_iff.1 parsed
  have after : (s.perform (.parse dst settings text)).session =
      { s with store := (plantFor settings raw s.store).2 }.assign dst
        (plantFor settings raw s.store).1 :=
    session_parseInto_of_found found
  have named : (s.perform (.parse dst settings text)).session.node? dst =
      some (plantFor settings raw s.store).1 := by
    rw [after, node?_assign]
  obtain ⟨set, expr⟩ := sound.named_run named
  refine ⟨_, set, expr.trans ?_⟩
  rw [after]
  exact expr_plantFor sound.store.forest settings raw

theorem isRoot_plantFor {store : Store} (forest : store.IsForest) (settings : Grammar.Settings)
    (e : Expr) : (plantFor settings e store).2.IsRoot (plantFor settings e store).1 := by
  have planted := Store.planted_plant e forest
  have root := Store.isRoot_of_link?_eq_none planted.unlinked
  by_cases merge : settings.flatten = true
  · rw [plantFor_of_flatten merge]
    exact (Store.parent?_flatten planted.forest (planted.forest.acyclic _)).trans root
  · rw [plantFor_of_not_flatten merge]
    exact root

/-- The tree that a text becomes is no part of another one. -/
theorem Sound.isRoot_run_parse (sound : s.Sound) {e : Expr}
    (parsed : Grammar.parse settings text = .ok e)
    (named : (s.run (.change (.parse dst settings text))).session.node? dst = some n) :
    (s.run (.change (.parse dst settings text))).session.store.IsRoot n := by
  obtain ⟨raw, found, -⟩ := Grammar.parse_eq_ok_iff.1 parsed
  have after : (s.perform (.parse dst settings text)).session =
      { s with store := (plantFor settings raw s.store).2 }.assign dst
        (plantFor settings raw s.store).1 :=
    session_parseInto_of_found found
  have set : (s.perform (.parse dst settings text)).session.node? dst = some n :=
    (node?_settle _ dst).symm.trans named
  have root : (s.perform (.parse dst settings text)).session.store.IsRoot n := by
    rw [after, node?_assign, Option.some.injEq] at set
    rw [after, ← set]
    exact isRoot_plantFor sound.store.forest settings raw
  exact (sound.perform _).isRoot_settle (reaches_of_node? set) root

/-- **Reading and writing are inverse to each other.**  Whatever the settings, an
expression is written as the text it was read from without the spaces, and what
is written reads as the same expression; two texts read as the same expression
exactly when they agree without their spaces.  In any session, the nodes that
are made of the text, and flattened in place, make up this expression. -/
theorem parse_round_trip (settings : Grammar.Settings) :
    (∀ text e, Grammar.parse settings text = .ok e →
      Expr.text e = String.ofList (Grammar.strip text) ∧
      Grammar.parse settings (Expr.text e) = .ok e ∧
      ∀ (s : Session) (dst : String), s.Reachable →
        ∃ n, (s.run (.change (.parse dst settings text))).session.node? dst = some n ∧
          (s.run (.change (.parse dst settings text))).session.store.expr n = e) ∧
    (∀ text text' e e', Grammar.parse settings text = .ok e →
      Grammar.parse settings text' = .ok e' →
      (e = e' ↔ Grammar.strip text = Grammar.strip text')) := by
  constructor
  · intro text e parsed
    refine ⟨Grammar.text_of_parse parsed, Grammar.parse_text parsed, ?_⟩
    intro s dst reachable
    exact reachable.sound.exists_node?_parse parsed dst
  · intro text text' e e' parsed parsed'
    exact Grammar.eq_iff_strip_eq parsed parsed'

theorem parse_round_trip_of_sum :
    let e : Expr := .operator .add [.literal "a", .literal "b"]
    Grammar.parse {} "a + b" = .ok e ∧ Expr.text e = "a+b" ∧
      Grammar.parse {} "a+b" = .ok e ∧ Grammar.strip "a + b" = Grammar.strip "a+b" ∧
      ∃ n, (empty.run (.change (.parse "x" {} "a + b"))).session.node? "x" = some n ∧
        (empty.run (.change (.parse "x" {} "a + b"))).session.store.expr n = e := by
  intro e
  have validA : IsLiteral ['a'] := by simp [IsLiteral, Allowed, disallowed]
  have validB : IsLiteral ['b'] := by simp [IsLiteral, Allowed, disallowed]
  let l : Grammar.Level := .cons (.literal ['a'] validA) .add (.single (.literal ['b'] validB))
  have tree : l.tree .additive = e := by
    rw [Grammar.Level.tree_additive_pair, Grammar.Level.tree_literal, Grammar.Level.tree_literal]
  have parsed : Grammar.parse {} "a + b" = .ok e := by
    rw [Grammar.parse_of_spelling_eq l rfl, tree]
    rfl
  obtain ⟨single, pair⟩ := parse_round_trip {}
  obtain ⟨written, reread, made⟩ := single "a + b" e parsed
  have text : Expr.text e = "a+b" := written.trans (by decide)
  rw [text] at reread
  exact ⟨parsed, text, reread, (pair _ _ e e parsed reread).1 rfl, made empty "x" .empty⟩

/-! ## Texts of nodes, however they were made -/

theorem answer_run_parse {e : Expr} (parsed : Grammar.parse settings text = .ok e) :
    (s.run (.change (.parse dst settings text))).answer = .ok .done := by
  obtain ⟨raw, found, -⟩ := Grammar.parse_eq_ok_iff.1 parsed
  simp [Session.run, perform, parseInto, found]

theorem answer_run_text (named : s.node? dst = some n) :
    (s.run (.question (.text dst))).answer = .ok (.text (Expr.text (s.store.expr n))) := by
  simp [Session.run, ask, resolve, named, bind, Except.bind, pure, Except.pure]

theorem answer_run_record (named : s.node? dst = some n) :
    (s.run (.question (.record dst))).answer = .ok (.text (Expr.record (s.store.expr n))) := by
  simp [Session.run, ask, resolve, named, bind, Except.bind, pure, Except.pure]

theorem answer_run_equal {other : String} {m : NodeId} (first : s.node? dst = some m)
    (second : s.node? other = some n) :
    (s.run (.question (.equal dst other))).answer = .ok (.truth (s.store.equal m n)) := by
  simp [Session.run, ask, resolve, first, second, bind, Except.bind, pure, Except.pure]

/-- **Every tree is written as a text that reads, and reads as a tree that is written
the same.**  The nodes may have been made and edited in any way, as long as each
literal in the tree has a literal without spaces for its label and each
operator has an operand.  This is so whatever the settings, and a session that reads
the text answers a question for the text of what it has read with that same text. -/
theorem Reachable.reread (reachable : s.Reachable) (live : s.store.Live n)
    (lettered : ∀ m ∈ (s.store.tree n).preorder, ∀ label, s.store.content m = .literal label →
      IsLiteral label.toList ∧ ' ' ∉ label.toList)
    (filled : ∀ m ∈ (s.store.tree n).preorder, ∀ op, s.store.content m = .operator op →
      s.store.children m ≠ [])
    (settings : Grammar.Settings) :
    let text := Expr.text (s.store.expr n)
    ∃ e, Grammar.parse settings text = .ok e ∧ Expr.text e = text ∧
      ∀ dst,
        let outcome := s.run (.change (.parse dst settings text))
        outcome.answer = .ok .done ∧
          (outcome.session.run (.question (.text dst))).answer = .ok (.text text) := by
  intro text
  have sound := reachable.sound
  have forest := sound.store.forest
  simp only [forest.mem_preorder_tree] at lettered filled
  have letteredExpr : (s.store.expr n).Lettered := forest.all_expr_iff.2 lettered
  have filledExpr : (s.store.expr n).Filled :=
    forest.all_expr_iff.2 fun m below op own => by simpa using filled m below op own
  obtain ⟨e, parsed, written⟩ := Grammar.exists_parse_text (sound.store.shaped_expr live)
    filledExpr letteredExpr settings
  refine ⟨e, parsed, written, fun dst => ⟨answer_run_parse parsed, ?_⟩⟩
  obtain ⟨m, named, made⟩ := sound.exists_node?_parse parsed dst
  rw [answer_run_text named, made, written]

/-- The product of a sum, which is not in parentheses, and of a literal. -/
theorem reread_of_product_of_sum :
    let s := (((((empty.perform (.literal "a" "a")).session.perform
      (.literal "b" "b")).session.perform (.literal "c" "c")).session.perform
      (.operator "sum" .add "a" "b")).session.perform
      (.operator "product" .mul "sum" "c")).session
    s.Reachable ∧ s.store.Live 4 ∧ Expr.text (s.store.expr 4) = "a+b*c" ∧
      ∃ e, Grammar.parse {} "a+b*c" = .ok e ∧ Expr.text e = "a+b*c" := by
  intro s
  have reachable : s.Reachable :=
    ((((Reachable.empty.perform _ (by decide)).perform _ (by decide)).perform _
      (by decide)).perform _ (by decide)).perform _ (by decide)
  have live : s.store.Live 4 := by decide
  have written : Expr.text (s.store.expr 4) = "a+b*c" := by decide
  have contents : ∀ m ∈ (s.store.tree 4).preorder, s.store.content m ∈
      [.operator .mul, .operator .add, .literal "a", .literal "b", .literal "c"] := by
    decide
  have operands : ∀ m ∈ (s.store.tree 4).preorder,
      s.store.operator? m = none ∨ s.store.children m ≠ [] := by
    decide
  have lettered : ∀ m ∈ (s.store.tree 4).preorder, ∀ label, s.store.content m = .literal label →
      IsLiteral label.toList ∧ ' ' ∉ label.toList := by
    intro m below label own
    have among := contents m below
    rw [own] at among
    obtain rfl | rfl | rfl : label = "a" ∨ label = "b" ∨ label = "c" := by simpa using among
    all_goals simp [IsLiteral, Allowed, disallowed]
  have filled : ∀ m ∈ (s.store.tree 4).preorder, ∀ op, s.store.content m = .operator op →
      s.store.children m ≠ [] := by
    intro m below op own
    refine (operands m below).resolve_left ?_
    simp [Store.operator?, own, Content.operator?]
  obtain ⟨e, parsed, same, -⟩ := reachable.reread live lettered filled {}
  rw [written] at parsed same
  exact ⟨reachable, live, written, e, parsed, same⟩

end OperatorTree.Session
