/-
# OperatorTree.Proofs.Grammar.Rereading -- whatever is written reads again

An expression need not have been read to be readable.  It may have a sum right below a
product, an operator with one operand, or parentheses whose label is not their
contents: its text is a level all the same (`isLevel_spelling`), if each pair of
parentheses holds one expression, each operator has an operand, and each label of a
literal is a literal.  If there is no space in these labels there is none in the
text, so nothing of it is dropped.

So the text reads, and what it reads as is written the same (`exists_parse_text`).
It need not be the expression that was written.
-/
import OperatorTree.Proofs.Grammar.Language
import OperatorTree.Proofs.Grammar.RoundTrip

namespace OperatorTree

set_option autoImplicit false

/-- The labels of literals are literals, without spaces. -/
def Expr.Lettered (e : Expr) : Prop :=
  e.All fun content _ => ∀ label, content = .literal label →
    IsLiteral label.toList ∧ ' ' ∉ label.toList

namespace Grammar

variable {e : Expr}

theorem isLevel_intercalate (op : Operator) {parts : List (List Char)} (some : parts ≠ [])
    (each : ∀ part ∈ parts, IsLevel part) : IsLevel ([op.symbol].intercalate parts) := by
  induction parts with
  | nil => exact absurd rfl some
  | cons part parts ih =>
      have first := each part List.mem_cons_self
      by_cases last : parts = []
      · rwa [last, List.intercalate_singleton]
      · rw [List.intercalate_cons_of_ne_nil last, List.append_assoc, List.singleton_append]
        have rest := ih last fun p member => each p (List.mem_cons_of_mem _ member)
        exact isLevel_append op first rest

/-- The text of an expression is a level, however the expression came about. -/
theorem isLevel_spelling (shaped : e.Shaped) (filled : e.Filled) (lettered : e.Lettered) :
    IsLevel e.spelling := by
  induction e using Tree.induction with
  | step content operands ih =>
      have each : ∀ d ∈ operands, IsLevel (Expr.spelling d) := fun d member =>
        ih d member (shaped.of_mem d member) (filled.of_mem d member) (lettered.of_mem d member)
      rw [Expr.spelling_node]
      cases content with
      | literal label => exact isLevel_literal (lettered.here label rfl).1
      | operator op =>
          refine isLevel_intercalate op (by simpa using filled.here op rfl) fun part member => ?_
          obtain ⟨d, among, rfl⟩ := List.mem_map.1 member
          exact each d among
      | parenthetical label =>
          obtain ⟨inner, rfl⟩ := List.length_eq_one_iff.1 shaped.here
          simpa [Expr.compose] using isLevel_group (each inner List.mem_cons_self)

theorem not_mem_intercalate {c : Char} {sep : List Char} {parts : List (List Char)}
    (between : c ∉ sep) (each : ∀ part ∈ parts, c ∉ part) : c ∉ sep.intercalate parts := by
  induction parts with
  | nil => simp
  | cons part parts ih =>
      have first := each part List.mem_cons_self
      by_cases last : parts = []
      · rwa [last, List.intercalate_singleton]
      · rw [List.intercalate_cons_of_ne_nil last]
        simp [first, between, ih fun p member => each p (List.mem_cons_of_mem _ member)]

theorem space_not_mem_spelling (lettered : e.Lettered) : ' ' ∉ e.spelling := by
  induction e using Tree.induction with
  | step content operands ih =>
      have each : ∀ part ∈ operands.map Expr.spelling, ' ' ∉ part := by
        intro part member
        obtain ⟨d, among, rfl⟩ := List.mem_map.1 member
        exact ih d among (lettered.of_mem d among)
      rw [Expr.spelling_node]
      cases content with
      | literal label => exact (lettered.here label rfl).2
      | operator op => exact not_mem_intercalate (by cases op <;> decide) each
      | parenthetical label =>
          have inside : ' ' ∉ (operands.map Expr.spelling).flatten := fun member =>
            have ⟨part, among, space⟩ := List.mem_flatten.1 member
            each part among space
          simpa [Expr.compose] using inside

/-- Nothing of the text is dropped. -/
theorem strip_text (lettered : e.Lettered) : strip (Expr.text e) = e.spelling := by
  have spaceless : ' ' ∉ (Expr.text e).toList := by
    rw [Expr.toList_text]
    exact space_not_mem_spelling lettered
  rw [strip_of_space_not_mem spaceless, Expr.toList_text]

/-- What is written reads, and is written the same again. -/
theorem exists_parse_text (shaped : e.Shaped) (filled : e.Filled) (lettered : e.Lettered)
    (settings : Settings) :
    ∃ read, parse settings (Expr.text e) = .ok read ∧ Expr.text read = Expr.text e := by
  obtain ⟨l, spelled⟩ := isLevel_spelling shaped filled lettered
  have stripped := strip_text lettered
  obtain ⟨read, parsed⟩ : ∃ read, parse settings (Expr.text e) = .ok read :=
    ⟨_, parse_of_spelling_eq l (spelled.trans stripped.symm)⟩
  refine ⟨read, parsed, ?_⟩
  rw [text_of_parse parsed, stripped]
  rfl

end Grammar

end OperatorTree
