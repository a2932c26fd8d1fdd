/-
# OperatorTree.Proofs.Session.Refused -- a refused command changes nothing

An edit checks before it changes, so when it is refused the store is as it was,
but for a node that may have been made before the check (`AtMostNew`).  That
node has no children and no parent, no register names it and no node lists it:
when the session is settled it goes, and nothing goes with it.
-/
import OperatorTree.Proofs.Session.Reachable
import OperatorTree.Session.Report

namespace OperatorTree

set_option autoImplicit false

/-! ## Refused edits -/

namespace Store

variable {s : Store}

/-- A store as it was, or with one new node, without children and without parent. -/
def AtMostNew (s s' : Store) : Prop :=
  s' = s ∨ ∃ content, s' = (s.alloc content).2

/-- If the edit is refused, there is at most a new node. -/
def RefusedUnchanged {α : Type} (s : Store) (edit : Except NodeError α × Store) : Prop :=
  ∀ e, edit.1 = .error e → s.AtMostNew edit.2

theorem refusedUnchanged_addChild (p c : NodeId) : s.RefusedUnchanged (s.addChild p c) := by
  intro e refused
  unfold addChild at refused ⊢
  cases allowed : s.refusal? p c with
  | some e => exact .inl rfl
  | none => simp [allowed] at refused

theorem refusedUnchanged_operator (op : Operator) (left right : NodeId) :
    s.RefusedUnchanged (s.operator op left right) := by
  intro e refused
  rcases s.operator_cases op left right with ⟨e, result⟩ | ⟨e, result⟩ | ⟨-, -, -, result⟩
  · exact .inl (by rw [result])
  · exact .inr ⟨_, by rw [result]⟩
  · simp [result] at refused

theorem refusedUnchanged_parenthetical (label : String) (inner : NodeId) :
    s.RefusedUnchanged (s.parenthetical label inner) := by
  intro e refused
  rcases s.parenthetical_cases label inner with ⟨e, result⟩ | ⟨-, result⟩
  · exact .inr ⟨_, by rw [result]⟩
  · simp [result] at refused

theorem refusedUnchanged_setLabel (n : NodeId) (label : String) :
    s.RefusedUnchanged (s.setLabel n label) := by
  intro e refused
  rcases s.setLabel_cases n label with ⟨e, result⟩ | ⟨content, -, result⟩
  · exact .inl (by rw [result])
  · simp [result] at refused

theorem refusedUnchanged_swap (a b : NodeId) : s.RefusedUnchanged (s.swap a b) := by
  intro e refused
  rcases s.swap_cases a b with ⟨e, result⟩ | ⟨p, i, j, -, -, -, -, result⟩
  · exact .inl (by rw [result])
  · simp [result] at refused

end Store

namespace Session

variable {s : Session} {n : NodeId} {name : String}

/-! ## Refused commands, before the session is settled -/

/-- If the command is refused, there is at most a new node, and no register has been set. -/
def RefusedUnchanged (s : Session) (outcome : Outcome) : Prop :=
  ∀ e, outcome.answer = .error e →
    outcome.session.registers = s.registers ∧ s.store.AtMostNew outcome.session.store

theorem refusedUnchanged_of_session_eq {outcome : Outcome} (same : outcome.session = s) :
    s.RefusedUnchanged outcome := by
  intro e _
  rw [same]
  exact ⟨rfl, .inl rfl⟩

theorem refusedUnchanged_of_ok {outcome : Outcome} {answer : Answer}
    (made : outcome.answer = .ok answer) : s.RefusedUnchanged outcome := by
  intro e refused
  rw [made] at refused
  cases refused

theorem refusedUnchanged_withNode {next : NodeId → Outcome}
    (later : ∀ n, s.RefusedUnchanged (next n)) : s.RefusedUnchanged (s.withNode name next) :=
  of_withNode (refusedUnchanged_of_session_eq rfl) fun n _ => later n

theorem refusedUnchanged_assignOr (dst : String) (found : Option NodeId) :
    s.RefusedUnchanged (s.assignOr dst found) :=
  of_assignOr (refusedUnchanged_of_ok rfl) fun _ _ => refusedUnchanged_of_ok rfl

theorem refusedUnchanged_assignNew (dst : String) (made : NodeId × Store) :
    s.RefusedUnchanged (s.assignNew dst made) :=
  refusedUnchanged_of_ok rfl

theorem refusedUnchanged_edited {α : Type} {edit : Except NodeError α × Store}
    {next : α → Session → Outcome} (unchanged : s.store.RefusedUnchanged edit)
    (later : ∀ a s', (next a s').answer = .ok .done) :
    s.RefusedUnchanged (s.edited edit next) :=
  of_edited (fun e refused _ _ => ⟨rfl, unchanged e refused⟩) fun a _ =>
    refusedUnchanged_of_ok (later a _)

theorem refusedUnchanged_parseInto (dst : String) (settings : Grammar.Settings) (text : String) :
    s.RefusedUnchanged (s.parseInto dst settings text) := by
  cases found : (Grammar.searchText text).found with
  | none => exact refusedUnchanged_of_session_eq (session_parseInto_of_none found)
  | some e =>
      have made : (s.parseInto dst settings text).answer = .ok .done := by simp [parseInto, found]
      exact refusedUnchanged_of_ok made

theorem refusedUnchanged_perform (c : Change) : s.RefusedUnchanged (s.perform c) := by
  cases c with
  | literal dst label => exact refusedUnchanged_assignNew _ _
  | operator dst op left right =>
      refine refusedUnchanged_withNode fun l => refusedUnchanged_withNode fun r => ?_
      exact refusedUnchanged_edited (Store.refusedUnchanged_operator op l r) fun _ _ => rfl
  | parenthetical dst label inner =>
      refine refusedUnchanged_withNode fun i => ?_
      exact refusedUnchanged_edited (Store.refusedUnchanged_parenthetical label i) fun _ _ => rfl
  | parse dst settings text => exact refusedUnchanged_parseInto _ _ _
  | validate dst label =>
      by_cases valid : IsLiteral label.toList
      · simp only [perform, if_pos valid]
        exact refusedUnchanged_assignNew _ _
      · simp only [perform, if_neg valid]
        exact refusedUnchanged_assignOr _ _
  | child dst of index => exact refusedUnchanged_withNode fun _ => refusedUnchanged_assignOr _ _
  | parent dst of => exact refusedUnchanged_withNode fun _ => refusedUnchanged_assignOr _ _
  | root dst of => exact refusedUnchanged_withNode fun _ => refusedUnchanged_assignOr _ _
  | clone dst of => exact refusedUnchanged_withNode fun _ => refusedUnchanged_assignOr _ _
  | deepCopy dst of => exact refusedUnchanged_withNode fun _ => refusedUnchanged_assignNew _ _
  | drop of => exact refusedUnchanged_withNode fun _ => refusedUnchanged_of_ok rfl
  | addChild of child =>
      refine refusedUnchanged_withNode fun p => refusedUnchanged_withNode fun c => ?_
      exact refusedUnchanged_edited (Store.refusedUnchanged_addChild p c) fun _ _ => rfl
  | setLabel of label =>
      refine refusedUnchanged_withNode fun n => ?_
      exact refusedUnchanged_edited (Store.refusedUnchanged_setLabel n label) fun _ _ => rfl
  | swap a b =>
      refine refusedUnchanged_withNode fun m => refusedUnchanged_withNode fun n => ?_
      exact refusedUnchanged_edited (Store.refusedUnchanged_swap m n) fun _ _ => rfl
  | flatten of => exact refusedUnchanged_withNode fun _ => refusedUnchanged_of_ok rfl
  | rest => exact refusedUnchanged_of_ok rfl

/-! ## What is left of a new node -/

/-- A new node that nothing names is the one node that nothing holds. -/
theorem Reachable.mem_loose_alloc (reachable : s.Reachable) (content : Content) :
    n ∈ ({ s with store := (s.store.alloc content).2 } : Session).loose ↔
      n = s.store.slots.size := by
  have sound := reachable.sound
  rw [mem_loose]
  constructor
  · rintro ⟨live, free⟩
    by_contra old
    have held := reachable.held_of_live (((Store.live_alloc content).1 live).resolve_left old)
    refine free (mem_held.2 ((mem_held.1 held).imp_right ?_))
    rintro ⟨p, listed⟩
    exact ⟨p, by rwa [Store.children_alloc]⟩
  · rintro rfl
    refine ⟨(Store.live_alloc content).2 (.inl rfl), fun held => ?_⟩
    refine Store.not_live_size s.store (sound.live_of_mem_held (mem_held.2 ?_))
    refine (mem_held.1 held).imp_right ?_
    rintro ⟨p, listed⟩
    exact ⟨p, by rwa [Store.children_alloc] at listed⟩

theorem Reachable.node?_settle_of_atMostNew (reachable : s.Reachable) {store : Store}
    (new : s.store.AtMostNew store) (n : NodeId) :
    ({ s with store } : Session).settle.store.node? n = s.store.node? n := by
  rcases new with rfl | ⟨content, rfl⟩
  · rw [settle_of_loose_eq_nil reachable.loose_eq_nil]
  · rw [store_node?_settle]
    · by_cases here : n = s.store.slots.size
      · rw [if_pos ((reachable.mem_loose_alloc content).2 here), here, Store.node?_size]
      · rw [if_neg (here <| (reachable.mem_loose_alloc content).1 ·), Store.node?_alloc,
          Store.alloc_fst, if_neg here]
    · intro m loose
      show (s.store.alloc content).2.children m = []
      rw [(reachable.mem_loose_alloc content).1 loose, Store.children_alloc_new]

/-! ## Refused commands -/

theorem Reachable.run_refused (reachable : s.Reachable) {command : Command} {e : Refusal}
    (refused : (s.run command).answer = .error e) :
    (s.run command).session.registers = s.registers ∧
      ∀ n, (s.run command).session.store.node? n = s.store.node? n := by
  cases command with
  | question q => exact ⟨rfl, fun _ => rfl⟩
  | change c =>
      obtain ⟨registers, new⟩ := refusedUnchanged_perform (s := s) c e refused
      have same : (s.perform c).session = { s with store := (s.perform c).session.store } := by
        rw [← registers]
      refine ⟨(registers_settle _).trans registers, fun n => ?_⟩
      show (s.perform c).session.settle.store.node? n = s.store.node? n
      rw [same]
      exact reachable.node?_settle_of_atMostNew new n

/-- Sessions with the same registers and the same nodes show the same. -/
theorem report_congr {s' : Session} (forest : s.store.IsForest) (forest' : s'.store.IsForest)
    (registers : s'.registers = s.registers) (nodes : ∀ n, s'.store.node? n = s.store.node? n) :
    s'.report = s.report := by
  have content (n : NodeId) : s'.store.content n = s.store.content n :=
    Store.content_of_node?_eq (nodes n)
  have expr (n : NodeId) : s'.store.expr n = s.store.expr n :=
    Store.expr_congr forest forest' fun m _ => ⟨Store.children_of_node?_eq (nodes m), content m⟩
  unfold report
  rw [registers]
  refine List.map_congr_left fun entry _ => ?_
  simp only [view, namesOf, registers, content, expr, Store.parent?_congr nodes]

/-- **A refused command changes nothing.**  Whatever it was and for whatever
reason it was refused, every register names the node that it named, and every
node is as it was: live or gone, and if it is live of the same content, with the
same children in the same order and with the same parent.  So the roots are the
same too, and the session shows the same as before. -/
theorem Reachable.unchanged_of_refused (reachable : s.Reachable) (command : Command) (e : Refusal)
    (refused : (s.run command).answer = .error e) :
    let after := (s.run command).session
    after.registers = s.registers ∧
    (∀ n, after.store.node? n = s.store.node? n) ∧
    (∀ n, after.store.Live n ↔ s.store.Live n) ∧
    (∀ n, after.store.content n = s.store.content n) ∧
    (∀ n, after.store.children n = s.store.children n) ∧
    (∀ n, after.store.parent? n = s.store.parent? n) ∧
    (∀ n, after.store.IsRoot n ↔ s.store.IsRoot n) ∧
    after.report = s.report := by
  intro after
  obtain ⟨registers, nodes⟩ := reachable.run_refused refused
  have forest' : after.store.IsForest := (reachable.step command).sound.store.forest
  refine ⟨registers, nodes, fun n => Store.live_of_node?_eq (nodes n),
    fun n => Store.content_of_node?_eq (nodes n), fun n => Store.children_of_node?_eq (nodes n),
    fun _ => Store.parent?_congr nodes, fun n => ?roots,
    report_congr reachable.sound.store.forest forest' registers nodes⟩
  case roots =>
    show after.store.parent? n = none ↔ s.store.parent? n = none
    rw [Store.parent?_congr nodes]

/-- The first operand could be attached, and the second has a parent already. -/
theorem unchanged_of_refused_operator :
    let s := (((empty.perform (.literal "a" "a")).session.perform
      (.literal "b" "b")).session.perform (.parenthetical "p" "(b)" "b")).session
    let command := Command.change (.operator "sum" .add "a" "b")
    s.Reachable ∧ (s.run command).answer = .error (.node .alreadyAttached) ∧
      (s.run command).session.registers = [("p", 2), ("b", 1), ("a", 0)] ∧
      (s.run command).session.store.IsRoot 0 ∧
      (s.run command).session.store.children 2 = [1] ∧
      ¬ (s.run command).session.store.Live 3 := by
  intro s command
  have reachable : s.Reachable :=
    ((Reachable.empty.perform _ (by decide)).perform _ (by decide)).perform _
      (by decide)
  have refused : (s.run command).answer = .error (.node .alreadyAttached) := by
    show (s.perform (.operator "sum" .add "a" "b")).answer = _
    decide
  obtain ⟨registers, -, live, -, children, -, roots, -⟩ :=
    reachable.unchanged_of_refused command _ refused
  refine ⟨reachable, refused, registers.trans (by decide), (roots 0).2 (by decide),
    (children 2).trans (by decide), fun alive => ?_⟩
  exact absurd ((live 3).1 alive) (by decide)

end Session

end OperatorTree
