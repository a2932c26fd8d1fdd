/-
# OperatorTree.Proofs.Grammar.Precedence -- where reading follows ordinary precedence

A group takes what follows it for its operand, so a text with groups may read
otherwise than ordinary precedence has it.  That needs a term with a group which
something precedes and something follows.  If groups stand only in the first
and in the last term of a level (`Level.GroupsAtEnds`), splits are free, and if
they do so at every nesting level, the text reads as the tree of ordinary precedence
(`parse_of_everywhere_splitsFreely`): a sum of products of factors, in the order in
which they are written (`Level.spelling_eq_intercalate`), with no sum as an operand of a
product (`Level.sumsOutside_standard`).
-/
import OperatorTree.Proofs.Expr.Spelling
import OperatorTree.Proofs.Grammar.Choices
import OperatorTree.Proofs.Grammar.Language

namespace OperatorTree

set_option autoImplicit false

namespace Expr

/-- No sum is an operand of a product. -/
def SumsOutside (e : Expr) : Prop :=
  e.All fun content operands =>
    content = .operator .mul → ∀ d ∈ operands, root? d ≠ some Operator.add

theorem SumsOutside.join_mul {es : List Expr} (each : ∀ e ∈ es, e.SumsOutside)
    (plain : ∀ e ∈ es, e.root? ≠ some .add) : (join .mul es).SumsOutside := by
  match es with
  | [e] => exact each e List.mem_cons_self
  | [] | _ :: _ :: _ => exact .node (fun _ => plain) each

theorem SumsOutside.join_add {es : List Expr} (each : ∀ e ∈ es, e.SumsOutside) :
    (join .add es).SumsOutside := by
  match es with
  | [e] => exact each e List.mem_cons_self
  | [] | _ :: _ :: _ => exact .node (by simp) each

end Expr

namespace Grammar

namespace Level

variable {l : Level}

/-! ## Terms and factors, as they are written -/

/-- A level is written as its terms with `+` between them, and a term as its
factors with `*` between them. -/
theorem spelling_eq_intercalate (l : Level) :
    l.spelling = [Operator.add.symbol].intercalate
      (l.terms.map fun t => [Operator.mul.symbol].intercalate (t.map Factor.spelling)) := by
  induction l with
  | single f => simp [spelling, terms]
  | cons f op rest ih =>
      cases op with
      | add =>
          have later : rest.terms.map (fun t =>
              [Operator.mul.symbol].intercalate (t.map Factor.spelling)) ≠ [] := by
            simp [terms_ne_nil]
          rw [spelling, ih, terms, List.map_cons, List.intercalate_cons_of_ne_nil later]
          simp
      | mul =>
          obtain ⟨t, ts, some, tail, whole⟩ := exists_terms_cons_mul f rest
          have factors : t.map Factor.spelling ≠ [] := by simpa using some
          rw [spelling, ih, tail, whole, List.map_cons, List.map_cons, List.map_cons,
            List.intercalate_cons_of_ne_nil factors]
          by_cases last : ts = []
          · simp [last]
          · have later : ts.map (fun t =>
                [Operator.mul.symbol].intercalate (t.map Factor.spelling)) ≠ [] := by
              simpa using last
            rw [List.intercalate_cons_of_ne_nil later, List.intercalate_cons_of_ne_nil later]
            simp

/-! ## The tree of ordinary precedence -/

theorem sumsOutside_standard (l : Level) : l.standard.SumsOutside := by
  induction l using Level.induction_groups with
  | step l ih =>
      have factor : ∀ f ∈ l.factors, f.standard.SumsOutside := by
        intro f member
        cases f with
        | literal text valid => exact .node (by simp) (by simp)
        | group inner =>
            rw [Factor.standard_group]
            exact .node (by simp) fun e inside => List.mem_singleton.1 inside ▸ ih inner member
      refine .join_add fun e member => ?_
      obtain ⟨t, term, rfl⟩ := List.mem_map.1 member
      refine .join_mul (fun e among => ?_) fun e among => ?_
      · obtain ⟨f, inside, rfl⟩ := List.mem_map.1 among
        exact factor f (flatten_terms l ▸ List.mem_flatten.2 ⟨t, term, inside⟩)
      · obtain ⟨f, -, rfl⟩ := List.mem_map.1 among
        simp [f.root?_standard]

/-! ## Where it is the tree that is read -/

/-- No group stands in a term between the first and the last. -/
def GroupsAtEnds (l : Level) : Prop :=
  ∀ t ∈ l.terms.tail.dropLast, ∀ f ∈ t, ¬ f.IsGroup

theorem GroupsAtEnds.splitsFreely (ends : l.GroupsAtEnds) : l.SplitsFreely := by
  rintro before t after same someBefore someAfter ⟨f, member, group⟩
  obtain ⟨first, before, rfl⟩ := List.exists_cons_of_ne_nil someBefore
  have between : t ∈ l.terms.tail.dropLast := by
    rw [same, List.cons_append, List.tail_cons, List.dropLast_append_of_ne_nil (by simp),
      List.dropLast_cons_of_ne_nil someAfter]
    exact List.mem_append_right before List.mem_cons_self
  exact absurd group (ends t between f member)

theorem groupsAtEnds_of_length_le (short : l.terms.length ≤ 2) : l.GroupsAtEnds := by
  have none : l.terms.tail.dropLast = [] := by
    apply List.eq_nil_of_length_eq_zero
    rw [List.length_dropLast, List.length_tail]
    omega
  intro t between
  rw [none] at between
  cases between

theorem everywhere_groupsAtEnds_of_literals (literals : ∀ f ∈ l.factors, ¬ f.IsGroup) :
    l.Everywhere GroupsAtEnds := by
  refine .intro ?_ fun inner member => absurd trivial (literals _ member)
  intro t between f member
  have term : t ∈ l.terms := List.mem_of_mem_tail (List.dropLast_subset _ between)
  exact literals f (flatten_terms l ▸ List.mem_flatten.2 ⟨t, term, member⟩)

end Level

open Level

/-- Where splits are free at every nesting level, a text reads as the tree of
ordinary precedence. -/
theorem parse_of_everywhere_splitsFreely {text : String} {l : Level}
    (spelled : l.spelling = strip text) (free : l.Everywhere SplitsFreely) :
    parse {} text = .ok l.standard := by
  have found : (search .additive l.spelling).found = some (l.tree .additive) :=
    found_search_spelling .additive l
  have chosen := chooses_of_found .additive l.spelling _ found
  rw [parse_of_spelling_eq l spelled, ← chosen.flatten_eq rfl free (by simp)]
  rfl

/-- **Ordinary precedence.**  A text that is an expression is one level, written as
its terms with `+` between them and their factors with `*` between those.  By ordinary
precedence a level stands for the sum of its terms in their order, or for its only term;
a term for the product of its factors in their order, or for its only factor; and a group
for a pair of parentheses around the tree of what is in it.  A text reads as this tree, in
which no sum is an operand of a product, if at every nesting level a term with a
group is the first or the last one, as it is in a level of at most two terms and
in one without groups. -/
theorem parse_ordinary_precedence (text : String) :
    ((∃ e, parse {} text = .ok e) → ∃! l : Level, l.spelling = strip text) ∧
    (∀ l : Level,
      l.standard = .join .add (l.terms.map fun t => .join .mul (t.map Factor.standard)) ∧
      (Factor.group l).standard = .parenthetical (groupLabel l.spelling) l.standard) ∧
    ∀ l : Level, l.spelling = strip text →
      strip text = ['+'].intercalate
        (l.terms.map fun t => ['*'].intercalate (t.map Factor.spelling)) ∧
      (l.terms.length ≤ 2 → l.GroupsAtEnds) ∧
      ((∀ f ∈ l.factors, ¬ f.IsGroup) → l.Everywhere GroupsAtEnds) ∧
      (l.Everywhere GroupsAtEnds →
        parse {} text = .ok l.standard ∧ l.standard.SumsOutside) := by
  refine ⟨?level, fun l => ⟨rfl, Factor.standard_group l⟩, fun l spelled => ⟨?written,
    groupsAtEnds_of_length_le, everywhere_groupsAtEnds_of_literals, fun ends => ?reads⟩⟩
  case level =>
    intro parsed
    obtain ⟨l, spelled⟩ :=
      (isSome_found_expression_iff _).1 ((exists_parse_iff {} text).1 parsed)
    exact ⟨l, spelled, fun m other => Level.spelling_injective (other.trans spelled.symm)⟩
  case written =>
    rw [← spelled]
    exact spelling_eq_intercalate l
  case reads =>
    have free := ends.mono fun _ => GroupsAtEnds.splitsFreely
    exact ⟨parse_of_everywhere_splitsFreely spelled free, sumsOutside_standard l⟩

/-- Three terms, with groups in the first and in the last of them. -/
theorem ordinary_precedence_of_three_terms :
    let a : Expr := .literal "a"
    let b : Expr := .literal "b"
    let c : Expr := .literal "c"
    let d : Expr := .literal "d"
    let sum : Expr := .parenthetical "(a+b)" (.operator .add [a, b])
    ∃ l : Level, l.spelling = strip "(a+b)*c + c*d + d*(a)" ∧ l.Everywhere GroupsAtEnds ∧
      parse {} "(a+b)*c + c*d + d*(a)" = .ok (.operator .add [.operator .mul [sum, c],
        .operator .mul [c, d], .operator .mul [d, .parenthetical "(a)" a]]) := by
  intro a b c d sum
  let letter (x : Char) (allowed : Allowed x) : Factor :=
    .literal [x] (isLiteral_singleton.2 allowed)
  let inner : Level := .cons (letter 'a' (by decide)) .add (.single (letter 'b' (by decide)))
  let last : Level := .single (letter 'a' (by decide))
  let l : Level := .cons (.group inner) .mul <| .cons (letter 'c' (by decide)) .add <|
    .cons (letter 'c' (by decide)) .mul <| .cons (letter 'd' (by decide)) .add <|
    .cons (letter 'd' (by decide)) .mul <| .single (.group last)
  have spelled : l.spelling = strip "(a+b)*c + c*d + d*(a)" := by decide
  have ends : l.Everywhere GroupsAtEnds := by
    refine .intro ?_ fun m member => everywhere_groupsAtEnds_of_literals ?_
    · show ∀ t ∈ [[letter 'c' (by decide), letter 'd' (by decide)]], ∀ f ∈ t, ¬ f.IsGroup
      simp [letter, Factor.IsGroup]
    · have either : m = inner ∨ m = last := by simpa [l, letter, factors] using member
      rcases either with rfl | rfl <;>
        simp [inner, last, letter, factors, Factor.IsGroup]
  obtain ⟨reads, -⟩ := ((parse_ordinary_precedence _).2.2 l spelled).2.2.2 ends
  refine ⟨l, spelled, ends, reads.trans (congrArg Except.ok ?_)⟩
  decide

end Grammar

end OperatorTree
