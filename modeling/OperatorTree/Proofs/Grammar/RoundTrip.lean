/-
# OperatorTree.Proofs.Grammar.RoundTrip -- an expression is written as it was read

What the search finds for a text is written as that text, and flattening keeps
the text of it; so an expression that was read is written as its text without
the spaces (`spelling_of_parse`).  Reading does not look beyond the text without
spaces (`parse_congr`), hence what is written reads as the same expression, and
an expression and its text without spaces determine each other.
-/
import OperatorTree.Grammar.Parse
import OperatorTree.Proofs.Expr.Spelling
import OperatorTree.Proofs.Grammar.Reading

namespace OperatorTree.Grammar

set_option autoImplicit false

variable {settings : Settings} {text text' : String} {e e' : Expr}

/-- Only the text without spaces is looked at. -/
theorem parse_congr (same : strip text = strip text') :
    parse settings text = parse settings text' := by
  unfold parse searchText
  rw [same]

/-- What was read is written as the text without its spaces. -/
theorem spelling_of_parse (parsed : parse settings text = .ok e) :
    Expr.spelling e = strip text := by
  obtain ⟨raw, found, rfl⟩ := parse_eq_ok_iff.1 parsed
  have reads := reads_of_found _ _ _ found
  cases settings.flatten with
  | false => exact reads.spelling
  | true => exact (reads.wide.filled (by decide)).spelling_flatten.trans reads.spelling

theorem text_of_parse (parsed : parse settings text = .ok e) :
    Expr.text e = String.ofList (strip text) := by
  rw [Expr.text, spelling_of_parse parsed]

/-- A text without spaces is searched as it is. -/
theorem strip_of_space_not_mem (spaceless : ' ' ∉ text.toList) : strip text = text.toList := by
  rw [strip, List.filter_eq_self]
  exact fun c member => decide_eq_true fun space => spaceless (space ▸ member)

/-- A text written without spaces has none to lose. -/
theorem strip_ofList_strip (text : String) : strip (String.ofList (strip text)) = strip text := by
  simp [strip, List.filter_filter]

/-- What is written reads as what it was written from. -/
theorem parse_text (parsed : parse settings text = .ok e) :
    parse settings (Expr.text e) = .ok e := by
  rw [text_of_parse parsed, parse_congr (strip_ofList_strip text), parsed]

theorem eq_iff_strip_eq (parsed : parse settings text = .ok e)
    (parsed' : parse settings text' = .ok e') : e = e' ↔ strip text = strip text' := by
  constructor
  · intro same
    rw [← spelling_of_parse parsed, ← spelling_of_parse parsed', same]
  · intro same
    have both : (.ok e : Except ParseError Expr) = .ok e' := by
      rw [← parsed, ← parsed', parse_congr same]
    exact Except.ok.inj both

end OperatorTree.Grammar
