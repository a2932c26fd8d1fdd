/-
# OperatorTree.Proofs.Session.Equality -- equal in structure, and shown alike

Two nodes are equal in structure exactly when one cannot tell them apart by what is shown
of them: by the list of the nodes below them, by their records on one line, or by their
records over several lines.  Labels may hold anything, quotes, backslashes, braces and
line feeds included: none of them can pass for a part of the record.

The comparison stops at a node that it reaches on both sides at once.  This is no
exception, because a node has one tree.
-/
import OperatorTree.Proofs.Expr.Entries
import OperatorTree.Proofs.Expr.Record
import OperatorTree.Proofs.Session.Parsing
import OperatorTree.Proofs.Store.Compare
import OperatorTree.Session.Report

namespace OperatorTree.Session

set_option autoImplicit false

variable {s : Session}

/-- **Nodes are equal in structure exactly when they are shown alike.**  In one session, two
nodes are equal exactly when the lists of the nodes below them agree, exactly when their
records agree, and exactly when their records over several lines agree.  A node of one
session and a node of another one are shown alike exactly when they make up the same
expression.  So the answer to the question whether two registers name equal nodes is the
answer to the question whether their records, or the rows of the report, agree. -/
theorem Reachable.equal_iff_shown_alike (reachable : s.Reachable) :
    (∀ m n, (s.store.equal m n = true ↔ (s.store.expr m).entries = (s.store.expr n).entries) ∧
      (s.store.equal m n = true ↔ (s.store.expr m).record = (s.store.expr n).record) ∧
      (s.store.equal m n = true ↔ (s.store.expr m).recordLines = (s.store.expr n).recordLines)) ∧
    (∀ (t : Session) (m n : NodeId),
      ((s.store.expr m).entries = (t.store.expr n).entries ↔ s.store.expr m = t.store.expr n) ∧
      ((s.store.expr m).record = (t.store.expr n).record ↔ s.store.expr m = t.store.expr n) ∧
      ((s.store.expr m).recordLines = (t.store.expr n).recordLines ↔
        s.store.expr m = t.store.expr n)) ∧
    ∀ x y m n, s.node? x = some m → s.node? y = some n →
      ((s.run (.question (.equal x y))).answer = .ok (.truth true) ↔
        (s.run (.question (.record x))).answer = (s.run (.question (.record y))).answer) ∧
      ((s.run (.question (.equal x y))).answer = .ok (.truth true) ↔
        (s.view x m).entries = (s.view y n).entries) := by
  have forest := reachable.sound.store.forest
  have equalEntries : ∀ m n,
      s.store.equal m n = true ↔ (s.store.expr m).entries = (s.store.expr n).entries :=
    fun m n => (forest.equal_iff m n).trans Expr.entries_injective.eq_iff.symm
  have equalRecord : ∀ m n,
      s.store.equal m n = true ↔ (s.store.expr m).record = (s.store.expr n).record :=
    fun m n => (forest.equal_iff m n).trans Expr.record_injective.eq_iff.symm
  have equalLines : ∀ m n,
      s.store.equal m n = true ↔ (s.store.expr m).recordLines = (s.store.expr n).recordLines :=
    fun m n => (forest.equal_iff m n).trans Expr.recordLines_injective.eq_iff.symm
  refine ⟨fun m n => ⟨equalEntries m n, equalRecord m n, equalLines m n⟩, ?sessions, ?asked⟩
  case sessions =>
    intro t m n
    exact ⟨Expr.entries_injective.eq_iff, Expr.record_injective.eq_iff,
      Expr.recordLines_injective.eq_iff⟩
  case asked =>
    intro x y m n first second
    rw [answer_run_equal first second, answer_run_record first, answer_run_record second]
    simp only [Except.ok.injEq, Answer.truth.injEq, Answer.text.injEq]
    exact ⟨equalRecord m n, equalEntries m n⟩

/-- The labels `"` and `", label: "` with a line feed in front, in parentheses and alone. -/
theorem equal_iff_shown_alike_of_quotes :
    let s := ((((empty.perform (.literal "x" "\n\", label: \"")).session.perform
      (.parenthetical "p" "\"" "x")).session.perform
      (.literal "y" "\n\", label: \"")).session.perform (.parenthetical "q" "\"" "y")).session
    s.Reachable ∧ s.store.equal 1 3 = true ∧
      (s.store.expr 1).record = (s.store.expr 3).record ∧
      (s.store.expr 1).recordLines = (s.store.expr 3).recordLines ∧
      (s.store.expr 1).record ≠ (s.store.expr 0).record ∧
      (s.run (.question (.record "p"))).answer = (s.run (.question (.record "q"))).answer := by
  intro s
  have reachable : s.Reachable :=
    (((Reachable.empty.perform _ (by decide)).perform _ (by decide)).perform _
      (by decide)).perform _ (by decide)
  have equal : s.store.equal 1 3 = true := by decide
  have differ : ¬ s.store.equal 1 0 = true := by decide
  obtain ⟨shown, -, asked⟩ := reachable.equal_iff_shown_alike
  obtain ⟨-, record, lines⟩ := shown 1 3
  obtain ⟨-, other, -⟩ := shown 1 0
  obtain ⟨answers, -⟩ := asked "p" "q" 1 3 (by decide) (by decide)
  exact ⟨reachable, equal, record.1 equal, lines.1 equal, fun same => differ (other.2 same),
    answers.1 (by decide)⟩

end OperatorTree.Session
