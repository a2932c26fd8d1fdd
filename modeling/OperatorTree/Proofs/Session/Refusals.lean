/-
# OperatorTree.Proofs.Session.Refusals -- exactly when an edit is refused, and why

In a reachable session the store is sound, so it can be said of the trees alone, for
each edit and each pair of nodes, whether the edit is made and what it is refused for
otherwise.  The commands pass on what the edits answer (`answer_edited`).

A child that is taken is named by a register, as its new parent is.  So neither goes
when the session is settled, and the child is still the last one of its parent then
(`Sound.run_addChild`).
-/
import OperatorTree.Proofs.Session.Lifetimes
import OperatorTree.Proofs.Store.Refusals

namespace OperatorTree.Session

set_option autoImplicit false

variable {s : Session} {a b c m n p : NodeId} {name other : String}

/-! ## Answers -/

/-- What a command answers that makes an edit. -/
def answerOf {α : Type} : Except NodeError α → Except Refusal Answer
  | .error e => .error (.node e)
  | .ok _ => .ok .done

theorem answer_edited {α : Type} {edit : Except NodeError α × Store} {next : α → Session → Outcome}
    (later : ∀ a s', (next a s').answer = .ok .done) :
    (s.edited edit next).answer = answerOf edit.1 :=
  of_edited (P := (·.answer = answerOf edit.1)) (fun e refused => by rw [refused]; rfl)
    fun a made => by rw [later, made]; rfl

theorem answer_run_addChild (namedP : s.node? name = some p) (namedC : s.node? other = some c) :
    (s.run (.change (.addChild name other))).answer = answerOf (s.store.addChild p c).1 := by
  simp only [Session.run, Session.perform, withNode, namedP, namedC]
  exact answer_edited fun _ _ => rfl

theorem answer_run_operator (dst : String) (op : Operator) (namedL : s.node? name = some m)
    (namedR : s.node? other = some n) :
    (s.run (.change (.operator dst op name other))).answer =
      answerOf (s.store.operator op m n).1 := by
  simp only [Session.run, Session.perform, withNode, namedL, namedR]
  exact answer_edited fun _ _ => rfl

theorem answer_run_parenthetical (dst label : String) (named : s.node? name = some n) :
    (s.run (.change (.parenthetical dst label name))).answer =
      answerOf (s.store.parenthetical label n).1 := by
  simp only [Session.run, Session.perform, withNode, named]
  exact answer_edited fun _ _ => rfl

theorem answer_run_swap (namedA : s.node? name = some a) (namedB : s.node? other = some b) :
    (s.run (.change (.swap name other))).answer = answerOf (s.store.swap a b).1 := by
  simp only [Session.run, Session.perform, withNode, namedA, namedB]
  exact answer_edited fun _ _ => rfl

/-! ## A child that is taken -/

theorem Sound.run_addChild (sound : s.Sound) (namedP : s.node? name = some p)
    (namedC : s.node? other = some c) (taken : (s.store.addChild p c).1 = .ok ()) :
    (s.run (.change (.addChild name other))).session.store.children p =
        s.store.children p ++ [c] ∧
      (s.run (.change (.addChild name other))).session.store.parent? c = some p := by
  have after : (s.perform (.addChild name other)).session =
      { s with store := s.store.attach p c } := by
    simp only [Session.perform, Session.withNode, namedP, namedC, Store.addChild_of_ok taken]
    rfl
  have held := sound.perform (.addChild name other)
  have setP : (s.perform (.addChild name other)).session.node? name = some p := by
    rw [after]
    exact namedP
  have setC : (s.perform (.addChild name other)).session.node? other = some c := by
    rw [after]
    exact namedC
  have lists : (s.perform (.addChild name other)).session.store.children p =
      s.store.children p ++ [c] := by
    rw [after]
    exact (Store.children_attach (sound.live_of_node? namedP)).trans (if_pos rfl)
  have above : (s.perform (.addChild name other)).session.store.parent? c = some p :=
    held.forest.mem_children_iff_parent?.1 (by simp [lists])
  exact ⟨(Store.children_of_node?_eq (held.node?_settle (reaches_of_node? setP))).trans lists,
    (held.parent?_settle (reaches_of_node? setC)).2 ⟨above, reaches_of_node? setP⟩⟩

/-! ## The main result -/

/-- **Exactly when an edit is refused, and why.**  A node refuses a child if it is a literal
or a pair of parentheses; otherwise if it is in the tree of the child; otherwise if the
child has a parent; and otherwise takes it as its last.  A new operator node is refused
if its operands are one node or one of them has a parent, and a new pair of parentheses if
its contents have one, for no other reason.  Two nodes are not exchanged if one of them has
no parent, or if their parents differ; otherwise both are found in the list of their parent.
The commands answer accordingly. -/
theorem Reachable.refusal_conditions (reachable : s.Reachable) :
    (∀ p c, s.store.Live p →
      let result := (s.store.addChild p c).1
      let isOperator := ∃ op, s.store.content p = .operator op
      (result = .error .literalHasNoChildren ↔ ∃ label, s.store.content p = .literal label) ∧
      (result = .error .parentheticalAlreadyFilled ↔
        ∃ label, s.store.content p = .parenthetical label) ∧
      (result = .error .wouldCreateCycle ↔ isOperator ∧ p ∈ (s.store.tree c).preorder) ∧
      (result = .error .alreadyAttached ↔ isOperator ∧ p ∉ (s.store.tree c).preorder ∧
        ∃ q, s.store.parent? c = some q) ∧
      (result = .ok () ↔
        isOperator ∧ p ∉ (s.store.tree c).preorder ∧ s.store.IsRoot c)) ∧
    (∀ op left right, s.store.Live left → s.store.Live right →
      let result := (s.store.operator op left right).1
      ((∃ e, result = .error e) ↔ left = right ∨ (∃ q, s.store.parent? left = some q) ∨
        ∃ q, s.store.parent? right = some q) ∧
      ∀ e, result = .error e → e = .alreadyAttached) ∧
    (∀ label inner, s.store.Live inner →
      let result := (s.store.parenthetical label inner).1
      ((∃ e, result = .error e) ↔ ∃ q, s.store.parent? inner = some q) ∧
      ∀ e, result = .error e → e = .alreadyAttached) ∧
    (∀ a b,
      let result := (s.store.swap a b).1
      (result = .error .detached ↔ s.store.IsRoot a ∨ s.store.IsRoot b) ∧
      (result = .error .notSiblings ↔
        ∃ p q, s.store.parent? a = some p ∧ s.store.parent? b = some q ∧ p ≠ q) ∧
      ∀ p, s.store.parent? a = some p → s.store.parent? b = some p →
        ∃ i j, (s.store.children p)[i]? = some a ∧ (s.store.children p)[j]? = some b ∧
          result = .ok (i, j)) ∧
    (∀ name other p c, s.node? name = some p → s.node? other = some c →
      let outcome := s.run (.change (.addChild name other))
      outcome.answer = answerOf (s.store.addChild p c).1 ∧
      ((s.store.addChild p c).1 = .ok () →
        outcome.session.store.children p = s.store.children p ++ [c] ∧
        outcome.session.store.parent? c = some p)) ∧
    (∀ dst op name other left right, s.node? name = some left → s.node? other = some right →
      (s.run (.change (.operator dst op name other))).answer =
        answerOf (s.store.operator op left right).1) ∧
    (∀ dst label name inner, s.node? name = some inner →
      (s.run (.change (.parenthetical dst label name))).answer =
        answerOf (s.store.parenthetical label inner).1) ∧
    ∀ name other a b, s.node? name = some a → s.node? other = some b →
      (s.run (.change (.swap name other))).answer = answerOf (s.store.swap a b).1 := by
  have sound := reachable.sound
  have forest := sound.store.forest
  refine ⟨fun p c live => sound.store.addChild_conditions live c,
    fun op _ _ liveL liveR => forest.operator_conditions op liveL liveR,
    fun label _ live => forest.parenthetical_conditions label live, ?swap, ?child,
    fun dst op _ _ _ _ namedL namedR => answer_run_operator dst op namedL namedR,
    fun dst label _ _ named => answer_run_parenthetical dst label named,
    fun _ _ _ _ namedA namedB => answer_run_swap namedA namedB⟩
  case swap =>
    intro a b result
    obtain ⟨detached, strangers⟩ := forest.swap_conditions a b
    refine ⟨detached, strangers, fun p aboveA aboveB => ?_⟩
    obtain ⟨i, j, hereA, hereB, made⟩ := forest.swap_siblings aboveA aboveB
    exact ⟨i, j, hereA, hereB, congrArg Prod.fst made⟩
  case child =>
    intro name other p c namedP namedC outcome
    exact ⟨answer_run_addChild namedP namedC, sound.run_addChild namedP namedC⟩

/-- The sum `a + b` and the pair `(c)` under one operator, and a literal `d` by itself: every
reason for a refusal, and what is not refused. -/
theorem refusal_conditions_of_sum_and_pair :
    let s := (((((((empty.perform (.literal "a" "a")).session.perform
      (.literal "b" "b")).session.perform (.literal "c" "c")).session.perform
      (.operator "sum" .add "a" "b")).session.perform
      (.parenthetical "pair" "(c)" "c")).session.perform
      (.operator "top" .mul "sum" "pair")).session.perform (.literal "d" "d")).session
    let taken := s.run (.change (.addChild "sum" "d"))
    s.Reachable ∧ (s.store.addChild 0 6).1 = .error .literalHasNoChildren ∧
      (s.store.addChild 4 6).1 = .error .parentheticalAlreadyFilled ∧
      (s.store.addChild 3 5).1 = .error .wouldCreateCycle ∧
      (s.store.addChild 3 2).1 = .error .alreadyAttached ∧
      taken.answer = .ok .done ∧ taken.session.store.children 3 = [0, 1, 6] ∧
      (∃ e, (s.store.operator .add 6 6).1 = .error e) ∧
      (∃ e, (s.store.parenthetical "(a)" 0).1 = .error e) ∧
      (s.store.swap 0 6).1 = .error .detached ∧ (s.store.swap 0 2).1 = .error .notSiblings ∧
      ∃ i j, (s.store.swap 0 1).1 = .ok (i, j) := by
  intro s taken
  have reachable : s.Reachable :=
    ((((((Reachable.empty.perform _ (by decide)).perform _ (by decide)).perform _
      (by decide)).perform _ (by decide)).perform _ (by decide)).perform _
      (by decide)).perform _ (by decide)
  obtain ⟨child, operator, parenthetical, swap, command, -, -, -⟩ := reachable.refusal_conditions
  have literal := (child 0 6 (by decide)).1
  have filled := (child 4 6 (by decide)).2.1
  have cycle := (child 3 5 (by decide)).2.2.1
  have attached := (child 3 2 (by decide)).2.2.2.1
  have allowed := (child 3 6 (by decide)).2.2.2.2
  have accepted : (s.store.addChild 3 6).1 = .ok () :=
    allowed.2 ⟨⟨.add, by decide⟩, by decide, by decide⟩
  obtain ⟨answer, last⟩ := command "sum" "d" 3 6 (by decide) (by decide)
  obtain ⟨detached, -, -⟩ := swap 0 6
  obtain ⟨-, strangers, -⟩ := swap 0 2
  obtain ⟨i, j, -, -, exchanged⟩ :=
    (swap 0 1).2.2 3 (by decide) (by decide)
  refine ⟨reachable, literal.2 ⟨"a", by decide⟩, filled.2 ⟨"(c)", by decide⟩,
    cycle.2 ⟨⟨.add, by decide⟩, by decide⟩,
    attached.2 ⟨⟨.add, by decide⟩, by decide, 4, by decide⟩, ?_,
    (last accepted).1.trans (by decide), ?_, ?_, detached.2 (.inr (by decide)),
    strangers.2 ⟨3, 4, by decide, by decide, by decide⟩, i, j, exchanged⟩
  · exact answer.trans (by rw [accepted]; rfl)
  · exact (operator .add 6 6 (by decide) (by decide)).1.2 (.inl rfl)
  · exact (parenthetical "(a)" 0 (by decide)).1.2 ⟨3, by decide⟩

end OperatorTree.Session
