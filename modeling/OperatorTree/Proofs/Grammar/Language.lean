/-
# OperatorTree.Proofs.Grammar.Language -- which texts are expressions

Three descriptions of the expressions agree:

* the texts that the search accepts;
* the levels: `F (op F)*`, where `F` is a literal or a level in parentheses;
* the texts that the four documented productions derive (`Derives`), in which
  nothing may follow a group inside an atom.

So the atom that lets a group take what follows it adds no text, and trying only
some cuts, and only the first that works, loses none (`parse_accepts_iff`).
-/
import OperatorTree.Grammar.Parse
import OperatorTree.Proofs.Grammar.Lookahead

namespace OperatorTree.Grammar

set_option autoImplicit false

/-- The texts that the documented productions derive:

    expression := additive | atom
    additive   := additive '+' product | product
    product    := product '*' product | atom
    atom       := '(' expression ')' | literal -/
inductive Derives : Production → List Char → Prop where
  | expressionAdditive {text : List Char} : Derives .additive text → Derives .expression text
  | expressionAtom {text : List Char} : Derives .atom text → Derives .expression text
  | additiveSum {left right : List Char} : Derives .additive left → Derives .product right →
      Derives .additive (left ++ Operator.add.symbol :: right)
  | additiveProduct {text : List Char} : Derives .product text → Derives .additive text
  | productProduct {left right : List Char} : Derives .product left → Derives .product right →
      Derives .product (left ++ Operator.mul.symbol :: right)
  | productAtom {text : List Char} : Derives .atom text → Derives .product text
  | atomGroup {inner : List Char} : Derives .expression inner →
      Derives .atom ('(' :: inner ++ [')'])
  | atomLiteral {text : List Char} : IsLiteral text → Derives .atom text

/-! ## Every derived text is a level -/

theorem Derives.isLevel {p : Production} {text : List Char} (derived : Derives p text) :
    IsLevel text := by
  induction derived with
  | expressionAdditive _ ih | expressionAtom _ ih | additiveProduct _ ih | productAtom _ ih =>
      exact ih
  | additiveSum _ _ left right | productProduct _ _ left right => exact isLevel_append _ left right
  | atomGroup _ inside => exact isLevel_group inside
  | atomLiteral literal => exact isLevel_literal literal

/-! ## Every level is derived -/

/-- A factor in front of a sum is a term of its own or goes to the first term. -/
theorem Derives.prepend {factor text : List Char} (op : Operator) (first : Derives .atom factor)
    (derived : Derives .additive text) : Derives .additive (factor ++ op.symbol :: text) := by
  generalize sum : Production.additive = p at derived
  induction derived with
  | additiveProduct product =>
      cases op with
      | add => exact .additiveSum (.additiveProduct (.productAtom first)) product
      | mul => exact .additiveProduct (.productProduct (.productAtom first) product)
  | additiveSum _ product prepended =>
      have := Derives.additiveSum (prepended rfl) product
      simpa using this
  | _ => cases sum

mutual

theorem Factor.derives : ∀ f : Factor, Derives .atom f.spelling
  | .literal _ valid => .atomLiteral valid
  | .group inner => .atomGroup (.expressionAdditive inner.derives)

theorem Level.derives : ∀ l : Level, Derives .additive l.spelling
  | .single f => .additiveProduct (.productAtom f.derives)
  | .cons f op rest => f.derives.prepend op rest.derives

end

/-! ## The language of the parser -/

theorem isSome_found_expression_iff (text : List Char) :
    (search .expression text).found.isSome ↔ IsLevel text := by
  constructor
  · intro some
    obtain ⟨e, found⟩ := Option.isSome_iff_exists.1 some
    exact isLevel_of_found found
  · rintro ⟨l, rfl⟩
    rw [found_search_spelling]
    rfl

theorem exists_parse_iff (settings : Settings) (text : String) :
    (∃ e, parse settings text = .ok e) ↔ (searchText text).found.isSome := by
  simp only [parse_eq_ok_iff, Option.isSome_iff_exists]
  constructor
  · rintro ⟨_, raw, found, rfl⟩
    exact ⟨raw, found⟩
  · rintro ⟨raw, found⟩
    exact ⟨_, raw, found, rfl⟩

/-- A text that is a level reads as the tree of the level. -/
theorem parse_of_spelling_eq {settings : Settings} {text : String} (l : Level)
    (spelled : l.spelling = strip text) :
    parse settings text =
      .ok (if settings.flatten then Expr.flatten (l.tree .additive) else l.tree .additive) := by
  refine parse_eq_ok_iff.2 ⟨l.tree .additive, ?_, rfl⟩
  rw [searchText, ← spelled, found_search_spelling, ← Level.tree_expression]
  rfl

/-- **The language.**  A text is read just when it is, spaces dropped, a sequence of
factors with an operator between each two of them; and these are the texts that
the documented productions derive. -/
theorem parse_accepts_iff (settings : Settings) (text : String) :
    ((∃ e, parse settings text = .ok e) ↔ ∃ l : Level, l.spelling = strip text) ∧
      ((∃ l : Level, l.spelling = strip text) ↔ Derives .expression (strip text)) := by
  refine ⟨?_, ?_, Derives.isLevel⟩
  · rw [exists_parse_iff]
    exact isSome_found_expression_iff (strip text)
  · rintro ⟨l, spelled⟩
    exact spelled ▸ .expressionAdditive l.derives

end OperatorTree.Grammar
