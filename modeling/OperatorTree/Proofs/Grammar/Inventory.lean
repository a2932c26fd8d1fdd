/-
# OperatorTree.Proofs.Grammar.Inventory -- a text is read completely

What a text reads as holds every piece of the text, once and in its order: a literal for
each run between operators and parentheses, a pair of parentheses for each opening one, and
an operator between each two operands for each operator character.  Merging chains of one
operator takes operator nodes away, and leaves all that is between operands.
-/
import OperatorTree.Proofs.Expr.Inventory
import OperatorTree.Proofs.Grammar.Groups

namespace OperatorTree.Grammar

set_option autoImplicit false

variable {settings : Settings} {text : String} {e : Expr}

theorem shaped_of_parse (parsed : parse settings text = .ok e) : e.Shaped :=
  all_of_parse parsed (fun _ _ => trivial) (fun _ _ _ => rfl) fun _ _ => rfl

theorem wide_of_parse (parsed : parse settings text = .ok e) : e.Wide 2 := by
  obtain ⟨raw, found, rfl⟩ := parse_eq_ok_iff.1 parsed
  have wide := (reads_of_found _ _ _ found).wide
  split
  · exact wide.flatten (by decide)
  · exact wide

/-- Without merging, an operator has two operands. -/
theorem pairs_of_parse (keep : settings.flatten = false) (parsed : parse settings text = .ok e) :
    e.All fun content operands => ∀ op, content = .operator op → operands.length = 2 := by
  obtain ⟨raw, found, rfl⟩ := parse_eq_ok_iff.1 parsed
  rw [keep]
  exact (reads_of_found _ _ _ found).all (by simp) (by simp) (by simp)

/-- The label of a pair of parentheses is the text of it, up to the parenthesis that closes it. -/
theorem grouped_of_parse (parsed : parse settings text = .ok e) : e.Grouped := by
  refine all_of_parse parsed (by simp) (by simp) ?_
  rintro inner spaceless label ⟨⟩
  have enclosed := Text.enclosed_of_group? (group?_group inner [])
  refine ⟨?_, by simpa [groupLabel] using enclosed⟩
  rw [text_of_parse (parse_groupLabel settings spaceless), strip_groupLabel spaceless]
  rfl

/-! ## Everything in the text -/

theorem literals_of_parse (parsed : parse settings text = .ok e) :
    e.literals.map String.toList = Text.runs (strip text) := by
  rw [← spelling_of_parse parsed,
    Expr.runs_spelling (shaped_of_parse parsed) (lettered_of_parse parsed)]

theorem groups_of_parse (parsed : parse settings text = .ok e) :
    List.Forall₂ Expr.Begins e.groups (Text.openings (strip text)) := by
  rw [← spelling_of_parse parsed]
  simpa using Expr.forall₂_openings_spelling (shaped_of_parse parsed) (lettered_of_parse parsed)
    (grouped_of_parse parsed) []

theorem joints_of_parse (parsed : parse settings text = .ok e) :
    e.joints = Text.symbols (strip text) := by
  rw [← spelling_of_parse parsed, Expr.symbols_spelling (shaped_of_parse parsed)
    ((wide_of_parse parsed).filled (by decide)) (lettered_of_parse parsed)]

end OperatorTree.Grammar
