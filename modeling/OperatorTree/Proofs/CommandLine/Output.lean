/-
# OperatorTree.Proofs.CommandLine.Output -- what the program answers to a call

The expression alone decides whether the program succeeds, and what it says of a failure.  The
options decide what is printed of a tree, so it is the text of the expression in the one format,
merged or not, since merging keeps the text; and in the other it is the outline of the tree with
or without its chains.
-/
import OperatorTree.Proofs.CommandLine.Calls
import OperatorTree.Proofs.Grammar.Attempts
import OperatorTree.Proofs.Grammar.Language
import OperatorTree.Proofs.Grammar.RoundTrip

namespace OperatorTree.CommandLine

set_option autoImplicit false

open Grammar (Derives Factor Level parse strip)

variable {e : String} {args : List String} {flags : List Flag}

theorem isSome_found_searchText_iff (text : String) :
    (Grammar.searchText text).found.isSome ↔ Derives .expression (strip text) := by
  rw [Grammar.searchText, Grammar.isSome_found_expression_iff]
  refine ⟨?_, Derives.isLevel⟩
  rintro ⟨l, spelled⟩
  exact spelled ▸ .expressionAdditive l.derives

/-! ## Carrying out a call -/

theorem Call.run_eq (call : Call e flags args) (once : AtMostOnce flags) :
    run args = perform (.print e (settingsOf flags) (formatOf flags)) := by
  rw [run, call.read_eq once]

/-- A text that is no expression is refused whatever the options are. -/
theorem Call.run_of_not_derives (call : Call e flags args) (once : AtMostOnce flags)
    (not : ¬ Derives .expression (strip e)) :
    run args = ⟨65, "", "cannot parse expression: " ++ String.ofList (strip e) ++ "\n"⟩ := by
  have failed : (Grammar.searchText e).found = none :=
    Option.not_isSome_iff_eq_none.1 fun found => not ((isSome_found_searchText_iff e).1 found)
  have refused : parse (settingsOf flags) e = .error ⟨String.ofList (strip e)⟩ :=
    Grammar.parse_eq_error_iff.2 ⟨failed, rfl⟩
  rw [call.run_eq once, perform, refused]
  rfl

/-- One tree is found for an expression, and the options decide what is printed of it. -/
theorem exists_run_of_derives (derives : Derives .expression (strip e)) :
    ∃ raw : Expr, parse ⟨false⟩ e = .ok raw ∧ parse ⟨true⟩ e = .ok (Expr.flatten raw) ∧
      ∀ flags args, AtMostOnce flags → Call e flags args → run args =
        ⟨0, match formatOf flags with
          | .debug => (if .noFlatten ∈ flags then raw else Expr.flatten raw).outline
          | .display => String.ofList (strip e) ++ "\n", ""⟩ := by
  obtain ⟨raw, found⟩ := Option.isSome_iff_exists.1 ((isSome_found_searchText_iff e).2 derives)
  have reads (settings : Grammar.Settings) :
      parse settings e = .ok (if settings.flatten then Expr.flatten raw else raw) :=
    Grammar.parse_eq_ok_iff.2 ⟨raw, found, rfl⟩
  refine ⟨raw, reads ⟨false⟩, reads ⟨true⟩, fun flags args once call => ?_⟩
  have parsed := reads (settingsOf flags)
  rw [call.run_eq once, perform, parsed]
  cases formatOf flags with
  | debug => by_cases member : Flag.noFlatten ∈ flags <;> simp [settingsOf, member, render]
  | display =>
      -- The text of the tree is the one that was read, merged or not.
      rw [← Grammar.text_of_parse parsed]
      rfl

/-! ## The main result -/

/-- **The program decides the language of expressions, whatever the options.**  The arguments
that are read as a request for an expression are those that give it among options, each once at
most, with `--` before it or at the end or nowhere.  For all of them the program succeeds just
when the text without spaces is an expression.  If it is none, nothing is printed and the error
names that text; so neither the code nor the error depends on the options and on where they
stand.  If it is one, there is no error, and what is printed is the text without spaces, or the
outline of the tree, merged unless the options say otherwise. -/
theorem run_decides_language :
    (∀ args e, (∃ settings f, read args = .print e settings f) ↔
      ∃ flags, AtMostOnce flags ∧ Call e flags args) ∧
    ∀ e flags args, AtMostOnce flags → Call e flags args →
      ((run args).code = 0 ↔ Derives .expression (strip e)) ∧
      (¬ Derives .expression (strip e) → run args =
        ⟨65, "", "cannot parse expression: " ++ String.ofList (strip e) ++ "\n"⟩) ∧
      (∀ flags' args', AtMostOnce flags' → Call e flags' args' →
        (run args').code = (run args).code ∧ (run args').stderr = (run args).stderr) ∧
      (Derives .expression (strip e) → ∃ raw : Expr,
        parse ⟨false⟩ e = .ok raw ∧ parse ⟨true⟩ e = .ok (Expr.flatten raw) ∧
        run args =
          ⟨0, match formatOf flags with
            | .debug => (if .noFlatten ∈ flags then raw else Expr.flatten raw).outline
            | .display => String.ofList (strip e) ++ "\n", ""⟩) := by
  refine ⟨fun args e => ?calls, fun e flags args once call => ?_⟩
  case calls =>
    constructor
    · rintro ⟨settings, f, printed⟩
      obtain ⟨flags, once, call, -⟩ := read_eq_print_iff.1 printed
      exact ⟨flags, once, call⟩
    · rintro ⟨flags, once, call⟩
      exact ⟨_, _, call.read_eq once⟩
  by_cases derives : Derives .expression (strip e)
  · obtain ⟨raw, unmerged, merged, answers⟩ := exists_run_of_derives derives
    have answer := answers flags args once call
    refine ⟨by simp [answer, derives], fun not => absurd derives not,
      fun flags' args' once' call' => ?_, fun _ => ⟨raw, unmerged, merged, answer⟩⟩
    rw [answer, answers flags' args' once' call']
    exact ⟨rfl, rfl⟩
  · have answer := call.run_of_not_derives once derives
    refine ⟨by simp [answer, derives], fun _ => answer, fun flags' args' once' call' => ?_,
      fun some => absurd some derives⟩
    rw [answer, call'.run_of_not_derives once' derives]
    exact ⟨rfl, rfl⟩

/-- A sum of three literals, printed in four ways, and a text that looks like an option. -/
theorem run_decides_language_of_sum :
    let sum := "a + b+c"
    read [sum, "--format", "display", "--no-flatten"] = .print sum ⟨false⟩ .display ∧
      Derives .expression (strip sum) ∧
      run [sum] = ⟨0, "+\n\ta\n\tb\n\tc\n", ""⟩ ∧
      run ["--no-flatten", "--", sum] = ⟨0, "+\n\t+\n\t\ta\n\t\tb\n\tc\n", ""⟩ ∧
      run ["--format=display", sum, "--"] = ⟨0, "a+b+c\n", ""⟩ ∧
      run [sum, "--format", "display", "--no-flatten"] = ⟨0, "a+b+c\n", ""⟩ ∧
      ¬ Derives .expression (strip "-5") ∧
      run ["--no-flatten", "--", "-5"] = ⟨65, "", "cannot parse expression: -5\n"⟩ := by
  intro sum
  let tree : Expr :=
    .operator .add [.operator .add [.literal "a", .literal "b"], .literal "c"]
  obtain ⟨-, decides⟩ := run_decides_language
  have parsed : parse ⟨false⟩ sum = .ok tree := by
    let a : Factor := .literal ['a'] (by decide)
    let b : Factor := .literal ['b'] (by decide)
    let c : Factor := .literal ['c'] (by decide)
    have cut : (Level.cons a .add (.cons b .add (.single c))).tree .additive =
        .operator .add [(Level.cons a .add (.single b)).tree .additive,
          (Level.single c).tree .product] := by
      rw [Level.tree_additive]
      rfl
    refine (Grammar.parse_of_spelling_eq (.cons a .add (.cons b .add (.single c)))
      (by decide)).trans ?_
    rw [cut, Level.tree_additive_pair, Level.tree_product_single, Level.tree_literal,
      Level.tree_literal, Level.tree_literal]
    rfl
  have derives : Derives .expression (strip sum) :=
    (isSome_found_searchText_iff sum).1 ((Grammar.exists_parse_iff ⟨false⟩ sum).1 ⟨tree, parsed⟩)
  have answer : ∀ flags args, AtMostOnce flags → Call sum flags args → run args =
      ⟨0, match formatOf flags with
        | .debug => (if .noFlatten ∈ flags then tree else Expr.flatten tree).outline
        | .display => String.ofList (strip sum) ++ "\n", ""⟩ := by
    intro flags args once call
    obtain ⟨raw, unmerged, -, answer⟩ := (decides sum flags args once call).2.2.2 derives
    obtain rfl : raw = tree := Except.ok.inj (unmerged.symm.trans parsed)
    exact answer
  have notOption : NotOption sum := .inr (by decide)
  have bare := answer _ _ ⟨by decide, by decide⟩
    (show Call sum ([] ++ []) [sum] from .bare notOption)
  have last := answer _ _ ⟨by decide, by decide⟩
    (show Call sum [.noFlatten] ["--no-flatten", "--", sum] from .last)
  have ended := answer _ _ ⟨by decide, by decide⟩
    (show Call sum ([.format .display true] ++ []) ["--format=display", sum, "--"] from
      .ended notOption)
  have after := answer _ _ ⟨by decide, by decide⟩
    (show Call sum ([] ++ [.format .display false, .noFlatten])
      [sum, "--format", "display", "--no-flatten"] from .bare notOption)
  have noExpression : ¬ Derives .expression (strip "-5") := by
    have nothing := (Grammar.attempts_enclosed
      (show ∀ c ∈ ['+', '*', '(', ')'], c ∉ ['-', '5'] by simp) 0).1
    have refused : ¬ IsLiteral ['-', '5'] := by decide
    rw [← isSome_found_searchText_iff, Grammar.searchText, show strip "-5" = ['-', '5'] by decide]
    rw [decide_eq_false refused] at nothing
    exact Bool.eq_false_iff.1 nothing
  have refused := (decides "-5" [.noFlatten] ["--no-flatten", "--", "-5"]
    ⟨by decide, by decide⟩ .last).2.1 noExpression
  exact ⟨by decide, derives, bare.trans (by decide), last.trans (by decide),
    ended.trans (by decide), after.trans (by decide), noExpression, refused.trans (by decide)⟩

end OperatorTree.CommandLine
