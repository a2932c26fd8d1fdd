/-
# OperatorTree.Proofs.Session.Outline -- the outline of what was read

The labels in what a text reads as show what they are labels of: a symbol of an operator, a
text in parentheses of a group, and a literal of a literal.  If there is no tab and no line
feed in the text, there is none in the labels.  So the outline says everything about the
expression, and the outlines of what two texts read as are the same just when the
expressions are, and that is when the texts agree without their spaces.
-/
import OperatorTree.Proofs.Expr.Outline
import OperatorTree.Proofs.Grammar.Groups
import OperatorTree.Proofs.Session.Parsing
import OperatorTree.Proofs.Store.Compare

namespace OperatorTree

set_option autoImplicit false

/-! ## Labels show kinds -/

theorem Kind.ofLabel_symbol (op : Operator) : Kind.ofLabel op.label = .operator op := by
  simp [ofLabel, Operator.ofLabel?_eq_some_iff.2 rfl]

/-- A label that does not begin like an operator is none. -/
theorem ofLabel?_eq_none {label : String}
    (other : ∀ op : Operator, label.toList.head? ≠ some op.symbol) :
    Operator.ofLabel? label = none := by
  refine Option.eq_none_iff_forall_ne_some.2 fun op named => other op ?_
  rw [Operator.ofLabel?_eq_some_iff.1 named, Operator.toList_label]
  rfl

theorem Kind.ofLabel_literal {text : List Char} (valid : IsLiteral text) :
    Kind.ofLabel (String.ofList text) = .literal := by
  have first : ∀ c ∈ text.head?, Allowed c := fun c here => valid.2 c (List.mem_of_head? here)
  have noSymbol : Operator.ofLabel? (String.ofList text) = none :=
    ofLabel?_eq_none fun op here =>
      Grammar.not_allowed_symbol op (first _ (by simpa using here))
  have noParenthesis : text.head? ≠ some '(' := fun here => absurd (first _ here) (by decide)
  simp [ofLabel, noSymbol, noParenthesis]

theorem Kind.ofLabel_groupLabel (inner : List Char) :
    Kind.ofLabel (Grammar.groupLabel inner) = .parenthetical := by
  have head : (Grammar.groupLabel inner).toList.head? = some '(' := by simp [Grammar.groupLabel]
  have noSymbol : Operator.ofLabel? (Grammar.groupLabel inner) = none :=
    ofLabel?_eq_none fun op => by
      rw [head]
      cases op <;> decide
  simp only [ofLabel, noSymbol, head, if_true]

namespace Grammar

variable {settings : Settings} {text : String} {e : Expr}

/-- What a text without tabs and line feeds reads as can be told from its outline. -/
theorem legible_of_parse (parsed : parse settings text = .ok e) (noTab : '\t' ∉ text.toList)
    (noLineFeed : '\n' ∉ text.toList) : e.Legible := by
  have part : ∀ {c : Char} {part : List Char}, c ∉ text.toList → part ⊆ strip text → c ∉ part :=
    fun absent inside here => absent (List.mem_of_mem_filter (inside here))
  refine all_parts_of_parse parsed (fun op operands => ?_) (fun text valid inside => ?_)
    fun inner inside => ?_
  · refine ⟨?_, ?_, (Kind.ofLabel_symbol op).symm⟩ <;> cases op <;> decide
  · refine ⟨?_, ?_, (Kind.ofLabel_literal valid).symm⟩
    · simpa [Content.label] using part noTab inside
    · simpa [Content.label] using part noLineFeed inside
  · refine ⟨?_, ?_, (Kind.ofLabel_groupLabel inner.spelling).symm⟩
    · simpa [Content.label, groupLabel] using part noTab inside
    · simpa [Content.label, groupLabel] using part noLineFeed inside

end Grammar

namespace Session

theorem answer_run_outline {s : Session} {name : String} {n : NodeId}
    (named : s.node? name = some n) :
    (s.run (.question (.outline name))).answer = .ok (.text (s.store.expr n).outline) := by
  simp [Session.run, ask, resolve, named, bind, Except.bind, pure, Except.pure]

/-- **The outline is faithful to what was read.**  It is written at the end of a text, which
it leaves as it is: for each node in preorder one line, of tabs for the indent and for the
depth of the node, its label and a line feed.  If two texts have no tabs and no line feeds
and read as expressions, then from any indent, after any text, their outlines are the same
just when the expressions are, and just when the texts agree without their spaces.

Nodes that make up these expressions, as do those that are made of the texts in any sessions,
are equal in structure just when their outlines are the same. -/
theorem outline_faithful :
    (∀ out indent (e : Expr),
      (e.appendOutline out indent).toList = out.toList ++ e.entries.flatMap fun entry =>
        List.replicate (indent + entry.depth) '\t' ++ entry.label.toList ++ ['\n']) ∧
    (∀ e : Expr, e.entries.map Expr.Entry.label = e.preorder.map Content.label ∧
      e.outline = e.appendOutline "" 0) ∧
    ∀ settings text text' e e', '\t' ∉ text.toList → '\n' ∉ text.toList →
      '\t' ∉ text'.toList → '\n' ∉ text'.toList →
      Grammar.parse settings text = .ok e → Grammar.parse settings text' = .ok e' →
      (∀ out indent, e.appendOutline out indent = e'.appendOutline out indent ↔ e = e') ∧
      (e = e' ↔ Grammar.strip text = Grammar.strip text') ∧
      (∀ s : Session, s.Reachable → ∀ m n, s.store.expr m = e → s.store.expr n = e' →
        (s.store.equal m n = true ↔ e.outline = e'.outline)) ∧
      ∀ s s' : Session, s.Reachable → s'.Reachable → ∀ dst dst',
        let read := (s.run (.change (.parse dst settings text))).session
        let read' := (s'.run (.change (.parse dst' settings text'))).session
        (∃ n n', read.node? dst = some n ∧ read'.node? dst' = some n' ∧
          read.store.expr n = e ∧ read'.store.expr n' = e') ∧
        ((read.run (.question (.outline dst))).answer =
            (read'.run (.question (.outline dst'))).answer ↔
          Grammar.strip text = Grammar.strip text') := by
  refine ⟨fun out indent e => Expr.toList_appendOutline out indent e,
    fun e => ⟨Expr.map_label_entriesFrom 0 e, rfl⟩, ?texts⟩
  case texts =>
    intro settings text text' e e' noTab noLineFeed noTab' noLineFeed' parsed parsed'
    have legible := Grammar.legible_of_parse parsed noTab noLineFeed
    have legible' := Grammar.legible_of_parse parsed' noTab' noLineFeed'
    have outlines : e.outline = e'.outline ↔ e = e' := legible.appendOutline_inj legible' "" 0
    have texts := Grammar.eq_iff_strip_eq parsed parsed'
    refine ⟨legible.appendOutline_inj legible', texts, ?nodes, ?read⟩
    case nodes =>
      rintro s reachable m n rfl rfl
      rw [outlines]
      exact reachable.sound.store.forest.equal_iff m n
    case read =>
      intro s s' reachable reachable' dst dst' read read'
      obtain ⟨n, named, made⟩ := reachable.sound.exists_node?_parse parsed dst
      obtain ⟨n', named', made'⟩ := reachable'.sound.exists_node?_parse parsed' dst'
      refine ⟨⟨n, n', named, named', made, made'⟩, ?_⟩
      rw [answer_run_outline named, answer_run_outline named', made, made', ← texts, ← outlines]
      simp only [Except.ok.injEq, Answer.text.injEq]

/-- The text `(a) + b`, with spaces and without, and the text `a+(b)`. -/
theorem outline_faithful_of_pairs :
    let e : Expr := .operator .add [.parenthetical "(a)" (.literal "a"), .literal "b"]
    let e' : Expr := .operator .add [.literal "a", .parenthetical "(b)" (.literal "b")]
    (e.appendOutline "root\n" 1).toList =
        "root\n\t+\n\t\t(a)\n\t\t\ta\n\t\tb\n".toList ∧
      Grammar.parse {} "(a) + b" = .ok e ∧ Grammar.parse {} "(a)+b" = .ok e ∧
      Grammar.parse {} "a+(b)" = .ok e' ∧
      ((empty.run (.change (.parse "x" {} "(a) + b"))).session.run
          (.question (.outline "x"))).answer =
        ((empty.run (.change (.parse "y" {} "(a)+b"))).session.run
          (.question (.outline "y"))).answer ∧
      e.outline ≠ e'.outline := by
  intro e e'
  have validA : IsLiteral ['a'] := by decide
  have validB : IsLiteral ['b'] := by decide
  let l : Grammar.Level :=
    .cons (.group (.single (.literal ['a'] validA))) .add (.single (.literal ['b'] validB))
  let l' : Grammar.Level :=
    .cons (.literal ['a'] validA) .add (.single (.group (.single (.literal ['b'] validB))))
  have tree : l.tree .additive = e := by
    rw [Grammar.Level.tree_additive_pair, Grammar.Level.tree_group,
      Grammar.Level.tree_additive_single, Grammar.Level.tree_literal, Grammar.Level.tree_literal]
    rfl
  have tree' : l'.tree .additive = e' := by
    rw [Grammar.Level.tree_additive_pair, Grammar.Level.tree_group,
      Grammar.Level.tree_additive_single, Grammar.Level.tree_literal, Grammar.Level.tree_literal]
    rfl
  have spaced : Grammar.parse {} "(a) + b" = .ok e := by
    rw [Grammar.parse_of_spelling_eq l rfl, tree]
    rfl
  have plain : Grammar.parse {} "(a)+b" = .ok e := by
    rw [Grammar.parse_of_spelling_eq l rfl, tree]
    rfl
  have other : Grammar.parse {} "a+(b)" = .ok e' := by
    rw [Grammar.parse_of_spelling_eq l' rfl, tree']
    rfl
  obtain ⟨written, -, texts⟩ := outline_faithful
  obtain ⟨-, -, -, asked⟩ := texts {} "(a) + b" "(a)+b" e e (by decide) (by decide) (by decide)
    (by decide) spaced plain
  obtain ⟨differ, -, -, -⟩ := texts {} "(a) + b" "a+(b)" e e' (by decide) (by decide) (by decide)
    (by decide) spaced other
  refine ⟨(written "root\n" 1 e).trans (by decide), spaced, plain, other,
    (asked empty empty .empty .empty "x" "y").2.2 (by decide), ?_⟩
  exact fun same => absurd ((differ "" 0).1 same) (by decide)

end Session

end OperatorTree
