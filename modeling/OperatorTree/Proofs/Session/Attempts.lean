/-
# OperatorTree.Proofs.Session.Attempts -- the attempts that a reading reports

A session reports how many attempts a reading took.  The number depends on nothing but the
text: not on what else is in the session, nor on whether chains are merged.  For sums and
products of literals, and for what stands in parentheses alone, it is known in closed form.
-/
import OperatorTree.Proofs.Expr.Outline
import OperatorTree.Proofs.Grammar.Attempts
import OperatorTree.Proofs.Session.Respelled

namespace OperatorTree.Session

set_option autoImplicit false

open Grammar (search)

/-- What is reported first is how the search for an expression went. -/
theorem head?_events_parse (s : Session) (dst : String) (settings : Grammar.Settings)
    {text : String} (spaceless : ' ' ∉ text.toList) :
    (s.run (.change (.parse dst settings text))).events.head? =
      some (.parsed text (search .expression text.toList).attempts
        (search .expression text.toList).found.isSome) := by
  rw [events_run_parse, List.head?_cons, Grammar.searchText,
    Grammar.strip_of_space_not_mem spaceless, String.ofList_toList]

theorem space_not_mem_intercalate {sep : String} {ls : List String} (between : ' ' ∉ sep.toList)
    (spaceless : ∀ l ∈ ls, ' ' ∉ l.toList) : ' ' ∉ (sep.intercalate ls).toList := by
  rw [String.toList_intercalate]
  refine Grammar.not_mem_intercalate between fun part member => ?_
  obtain ⟨l, among, rfl⟩ := List.mem_map.1 member
  exact spaceless l among

theorem toList_pushn_append (d : Nat) (text : String) :
    ("".pushn '(' d ++ text ++ "".pushn ')' d).toList = Grammar.enclosed d text.toList := by
  simp [Grammar.enclosed, Expr.toList_pushn]

theorem without_of_isLiteral {text : List Char} (literal : IsLiteral text) :
    ∀ c ∈ ['+', '*', '(', ')'], c ∉ text := by
  intro c listed member
  have refused : ∀ c ∈ ['+', '*', '(', ')'], ¬ Allowed c := by
    simp [Allowed, disallowed]
  exact refused c listed (literal.2 c member)

/-- **What backtracking costs.**  Whatever is in a session and whatever the settings are, the
attempts reported for a sum of `n` literals without spaces are `2 ^ (n + 1) - 1` if there are
two of them at least, and for a product of `n` literals they are `3 * n + 1`.  A literal in `d`
pairs of parentheses takes `4 * (d + 1)` attempts.  A text without spaces, operators and
parentheses that is no literal takes `10 * 2 ^ d - 5` of them in `d` pairs of parentheses, and
is refused then. -/
theorem attempts_reported (s : Session) (dst : String) (settings : Grammar.Settings) :
    let reported (text : String) := (s.run (.change (.parse dst settings text))).events.head?
    (∀ ls : List String, (∀ l ∈ ls, IsLiteral l.toList ∧ ' ' ∉ l.toList) →
      (2 ≤ ls.length → reported ("+".intercalate ls) =
        some (.parsed ("+".intercalate ls) (2 ^ (ls.length + 1) - 1) true)) ∧
      (1 ≤ ls.length → reported ("*".intercalate ls) =
        some (.parsed ("*".intercalate ls) (3 * ls.length + 1) true))) ∧
    ∀ (d : Nat) (w : String), ' ' ∉ w.toList →
      let text := "".pushn '(' d ++ w ++ "".pushn ')' d
      (IsLiteral w.toList → reported text = some (.parsed text (4 * (d + 1)) true)) ∧
      (¬ IsLiteral w.toList → (∀ c ∈ ['+', '*', '(', ')'], c ∉ w.toList) →
        reported text = some (.parsed text (10 * 2 ^ d - 5) false)) := by
  intro reported
  have eachLiteral {ls : List String} (each : ∀ l ∈ ls, IsLiteral l.toList ∧ ' ' ∉ l.toList) :
      ∀ l ∈ ls.map String.toList, IsLiteral l := by
    simpa using fun l member => (each l member).1
  refine ⟨fun ls each => ⟨fun two => ?sum, fun one => ?product⟩, fun d w spaceless => ?nested⟩
  case sum =>
    have spaceless : ' ' ∉ ("+".intercalate ls).toList :=
      space_not_mem_intercalate (by decide) fun l member => (each l member).2
    have two : 2 ≤ (ls.map String.toList).length := by simpa using two
    obtain ⟨found, attempts⟩ := Grammar.attempts_sum two (eachLiteral each)
    rw [show reported _ = _ from head?_events_parse s dst settings spaceless,
      String.toList_intercalate, show "+".toList = ['+'] from rfl, found]
    rw [List.length_map] at attempts
    rw [← attempts, Nat.add_sub_cancel]
  case product =>
    have spaceless : ' ' ∉ ("*".intercalate ls).toList :=
      space_not_mem_intercalate (by decide) fun l member => (each l member).2
    have some : ls.map String.toList ≠ [] := by simpa using List.length_pos_iff.1 one
    obtain ⟨found, attempts⟩ := Grammar.attempts_product some (eachLiteral each)
    rw [show reported _ = _ from head?_events_parse s dst settings spaceless,
      String.toList_intercalate, show "*".toList = ['*'] from rfl, found, attempts,
      List.length_map]
  case nested =>
    intro text
    have enclosing : text.toList = Grammar.enclosed d w.toList := toList_pushn_append d w
    have noSpace : ' ' ∉ text.toList :=
      enclosing ▸ Grammar.not_mem_enclosed spaceless (by decide) (by decide) d
    have told : reported text = _ := head?_events_parse s dst settings noSpace
    rw [told, enclosing]
    constructor
    · intro literal
      obtain ⟨found, attempts⟩ := Grammar.attempts_enclosed (without_of_isLiteral literal) d
      rw [if_pos literal] at attempts
      rw [found, attempts, decide_eq_true literal]
    · intro noLiteral without
      obtain ⟨found, attempts⟩ := Grammar.attempts_enclosed without d
      rw [if_neg noLiteral] at attempts
      rw [found, ← attempts, Nat.add_sub_cancel, decide_eq_false noLiteral]

/-- Three literals in a sum and in a product, a literal in two pairs of parentheses, a pair of
parentheses around nothing, and three of them around a minus sign. -/
theorem attempts_reported_of_short_texts :
    let reported (text : String) :=
      (empty.run (.change (.parse "x" {} text))).events.head?
    reported "a+é+7" = some (.parsed "a+é+7" 15 true) ∧
      reported "a*é*7" = some (.parsed "a*é*7" 10 true) ∧
      reported "((ab))" = some (.parsed "((ab))" 12 true) ∧
      reported "()" = some (.parsed "()" 15 false) ∧
      reported "(((-)))" = some (.parsed "(((-)))" 75 false) := by
  intro reported
  obtain ⟨joined, nested⟩ := attempts_reported empty "x" {}
  obtain ⟨sum, product⟩ := joined ["a", "é", "7"] (by decide)
  exact ⟨sum (by decide), product (by decide), (nested 2 "ab" (by decide)).1 (by decide),
    (nested 1 "" (by decide)).2 (by decide) (by simp),
    (nested 3 "-" (by decide)).2 (by decide) (by simp)⟩

end OperatorTree.Session
