/-
# OperatorTree.Grammar.Parse -- reading a text as an expression

Spaces (U+0020, and no other white space) are dropped first, and the rest has to
be one expression.  The search finds a tree in which every operator has two
operands; `Settings.flatten` says whether chains of one operator are merged
before the tree is given out.  A text that is no expression is refused with the
text that was searched.
-/
import OperatorTree.Grammar.Production
import OperatorTree.Text.Quoted

namespace OperatorTree.Grammar

set_option autoImplicit false

/-- What a caller may choose about reading. -/
structure Settings where
  /-- Merge chains of one operator. -/
  flatten : Bool := true
  deriving DecidableEq, Repr

/-- A text is no expression. -/
structure ParseError where
  /-- The text without its spaces. -/
  input : String
  deriving DecidableEq, Repr

namespace ParseError

/-- The error in words. -/
def message (e : ParseError) : String :=
  "cannot parse expression: " ++ e.input

/-- The error in record form. -/
def record (e : ParseError) : String :=
  "ParseError \x7b input: " ++ String.ofList (Text.quoted e.input.toList) ++ " \x7d"

end ParseError

/-- The characters of a text without its spaces. -/
def strip (text : String) : List Char :=
  text.toList.filter (· ≠ ' ')

/-- The search for the expression that a text is, spaces dropped. -/
def searchText (text : String) : Search Expr :=
  search .expression (strip text)

/-- The expression that a text is, as the settings ask for it. -/
def parse (settings : Settings) (text : String) : Except ParseError Expr :=
  match (searchText text).found with
  | none => .error ⟨String.ofList (strip text)⟩
  | some e => .ok (if settings.flatten then Expr.flatten e else e)

theorem parse_eq_error_iff {settings : Settings} {text : String} {e : ParseError} :
    parse settings text = .error e ↔
      (searchText text).found = none ∧ e = ⟨String.ofList (strip text)⟩ := by
  cases outcome : (searchText text).found with
  | none => simp [parse, outcome, eq_comm]
  | some raw => simp [parse, outcome]

theorem parse_eq_ok_iff {settings : Settings} {text : String} {e : Expr} :
    parse settings text = .ok e ↔
      ∃ raw, (searchText text).found = some raw ∧
        e = if settings.flatten then Expr.flatten raw else raw := by
  cases outcome : (searchText text).found with
  | none => simp [parse, outcome]
  | some raw =>
    simp only [parse, outcome, Except.ok.injEq, Option.some.injEq, exists_eq_left']
    exact eq_comm

end OperatorTree.Grammar
