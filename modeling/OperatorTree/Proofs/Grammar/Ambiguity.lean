/-
# OperatorTree.Proofs.Grammar.Ambiguity -- when the choice of the splits matters

If the trees that may be chosen for a text all flatten to one tree, splits are
free at every nesting level of it.  Two constructions show this.

* Splits may always be made as ordinary precedence has them, a term at a time from
  the left, with any tree in the place of a factor (`exists_sum`).  So if it
  mattered for a group, it would matter for the level around it
  (`Agrees.inside`).
* Terms in the middle may be taken for one product, if the first of them has a
  group.  The product is then a single operand of the sum, and the terms are
  several, unless the product is a sum itself (`Agrees.root?_ne_mul`).  It is no sum
  if the first term has a `*`, nor if the last one has (`root?_tree_of_long`); so
  neither of them may have one.

With the converse in `Chooses.flatten_eq` this decides for which texts the choice of
the splits does not matter (`choices_agree_iff`).
-/
import OperatorTree.Proofs.Grammar.Choices
import OperatorTree.Proofs.Grammar.Language

namespace OperatorTree.Grammar

set_option autoImplicit false

open Level

variable {l left right rest : Level} {value : Factor → Expr} {a b e : Expr}

/-! ## Splitting as ordinary precedence has it -/

/-- A choice for each factor of the level, which flattens to the given tree. -/
def Picks (value : Factor → Expr) (l : Level) : Prop :=
  ∀ f ∈ l.factors, ∃ e, Chooses .atom f.spelling e ∧ e.flatten = value f

/-- The tree of a factor is a literal or a pair of parentheses. -/
theorem Chooses.root?_factor {f : Factor} (chosen : Chooses .atom f.spelling e) :
    e.root? = none := by
  generalize spelled : f.spelling = text at chosen
  cases chosen with
  | atomLiteral _ _ => rfl
  | atomGroup _ _ => rfl
  | atomOperator grouped _ _ =>
      subst spelled
      cases f with
      | literal text valid =>
          have noGroup := group?_eq_none (by simpa using head?_literal_ne valid [])
          rw [Factor.spelling, noGroup] at grouped
          cases grouped
      | group inner =>
          have whole := group?_group inner []
          rw [List.append_nil, grouped] at whole
          simp at whole

namespace Picks

theorem plain (picks : Picks value l) : ∀ f ∈ l.factors, (value f).root? = none := by
  intro f member
  obtain ⟨e, chosen, same⟩ := picks f member
  rw [← same, Expr.root?_flatten, chosen.root?_factor]

theorem mono (picks : Picks value l) (inside : left.factors ⊆ l.factors) : Picks value left :=
  fun f member => picks f (inside member)

theorem of_append {op : Operator} (picks : Picks value (left.append op right)) :
    Picks value left ∧ Picks value right :=
  ⟨picks.mono (by simp [factors_append]), picks.mono (by simp [factors_append])⟩

end Picks

theorem cuts_eq_nil_of_uniform {op other : Operator} (differ : op ≠ other) :
    ∀ {l : Level}, l.Uniform op → l.cuts other = []
  | .single f, _ => rfl
  | .cons f o rest, uniform => by
      simp [Level.cuts, cuts_eq_nil_of_uniform differ uniform.2, uniform.1, differ]

theorem found_split_eq_none {op : Operator} {p q : Production} (none : l.cuts op = []) :
    (split op p q l.spelling).found = .none := by
  rw [found_split_spelling (by simp [none]), none]
  rfl

theorem exists_product : ∀ {l : Level}, l.Uniform .mul → Picks value l →
    ∃ e, Chooses .product l.spelling e ∧ e.flatten = l.sum value
  | .single f, _, picks => by
      obtain ⟨e, chosen, same⟩ := picks f List.mem_cons_self
      exact ⟨e, .productAtom (found_split_eq_none (l := .single f) rfl) chosen, same⟩
  | .cons f .mul rest, uniform, picks => by
      have joined : Picks value ((Level.single f).append .mul rest) := picks
      obtain ⟨picksFirst, picksRest⟩ := joined.of_append
      obtain ⟨a, chosenA, first⟩ := exists_product (l := .single f) trivial picksFirst
      obtain ⟨b, chosenB, last⟩ := exists_product uniform.2 picksRest
      refine ⟨_, .productProduct (mem_cuts_spelling_append .mul (.single f) rest) chosenA chosenB,
        ?_⟩
      show _ = ((Level.single f).append .mul rest).sum value
      exact flatten_uniform joined.plain uniform first last

/-- A choice for the left side of a sum may be kept, with ordinary precedence from there on. -/
theorem exists_extension (chosen : Chooses .additive left.spelling a) (picks : Picks value right) :
    ∃ e, Chooses .additive (left.append .add right).spelling e ∧
      e.flatten = .operator .add (a.flatten.operands .add ++ right.products value) := by
  induction same : right.terms generalizing left right a with
  | nil => exact absurd same (terms_ne_nil right)
  | cons t ts ih =>
      by_cases several : ts = []
      · obtain ⟨b, product, flat⟩ :=
          exists_product (uniform_mul_of_terms (several ▸ same)) picks
        refine ⟨_, .additiveSum (mem_cuts_spelling_append .add left right) chosen product, ?_⟩
        rw [Expr.flatten_operator]
        simp [flat, operands_sum picks.plain]
      · obtain ⟨first, others, rfl, one, more⟩ :=
          exists_append_of_terms several (List.cons_ne_nil t []) same
        obtain ⟨picksFirst, picksOthers⟩ := picks.of_append
        obtain ⟨b, product, flat⟩ := exists_product (uniform_mul_of_terms one) picksFirst
        have joined : Chooses .additive (left.append .add first).spelling (.operator .add [a, b]) :=
          .additiveSum (mem_cuts_spelling_append .add left first) chosen product
        obtain ⟨e, whole, result⟩ := ih joined picksOthers more
        rw [append_assoc] at whole
        refine ⟨e, whole, ?_⟩
        rw [result, Expr.flatten_operator, products_append]
        simp [flat, operands_sum picksFirst.plain]

/-- Whatever is chosen for the factors, their sum of products may be chosen for the level. -/
theorem exists_sum (picks : Picks value l) :
    ∃ e, Chooses .additive l.spelling e ∧ e.flatten = l.sum value := by
  obtain ⟨t, ts, -, same⟩ := exists_terms_eq_cons l
  by_cases several : ts = []
  · have uniform := uniform_mul_of_terms (several ▸ same)
    obtain ⟨e, product, flat⟩ := exists_product uniform picks
    have none := cuts_eq_nil_of_uniform (show Operator.mul ≠ .add by decide) uniform
    exact ⟨e, .additiveProduct (found_split_eq_none none) product, flat⟩
  · obtain ⟨first, others, rfl, one, more⟩ :=
      exists_append_of_terms several (List.cons_ne_nil t []) same
    obtain ⟨picksFirst, picksOthers⟩ := picks.of_append
    have uniform := uniform_mul_of_terms one
    obtain ⟨a, product, flat⟩ := exists_product uniform picksFirst
    have none := cuts_eq_nil_of_uniform (show Operator.mul ≠ .add by decide) uniform
    obtain ⟨e, chosen, result⟩ :=
      exists_extension (.additiveProduct (found_split_eq_none none) product) picksOthers
    refine ⟨e, chosen, ?_⟩
    rw [result, flat, operands_sum picksFirst.plain, sum, products_append,
      Expr.join_append (products_ne_nil first) (products_ne_nil others)]

/-! ## Levels of which all trees agree -/

/-- All trees that may be chosen for the level are one when they are flattened. -/
def Agrees (l : Level) : Prop :=
  ∀ a b, Chooses .expression l.spelling a → Chooses .expression l.spelling b →
    a.flatten = b.flatten

/-- The tree that the search finds in a factor, flattened. -/
def Factor.found (f : Factor) : Expr :=
  ((single f).tree .atom).flatten

theorem picks_found (l : Level) : Picks Factor.found l := by
  intro f _
  refine ⟨_, chooses_of_found .atom f.spelling ((single f).tree .atom) ?_, rfl⟩
  exact found_search_spelling .atom (single f)

open Classical in
/-- One group may be given any tree that may be chosen for what is in it. -/
theorem picks_update {inner : Level} (chosen : Chooses .expression inner.spelling e) (l : Level) :
    Picks (Function.update Factor.found (.group inner)
      (.parenthetical (groupLabel inner.spelling) e.flatten)) l := by
  intro f member
  by_cases here : f = .group inner
  · subst here
    have grouped := group?_group inner []
    rw [List.append_nil] at grouped
    exact ⟨_, .atomGroup grouped chosen, by simp [Expr.flatten_parenthetical]⟩
  · obtain ⟨a, chosenA, same⟩ := picks_found l f member
    exact ⟨a, chosenA, by simp [here, same]⟩

theorem Agrees.inside (agrees : Agrees l) {inner : Level} (member : .group inner ∈ l.factors) :
    Agrees inner := by
  intro a b chosenA chosenB
  obtain ⟨d, first, flatA⟩ := exists_sum (picks_update chosenA l)
  obtain ⟨e, last, flatB⟩ := exists_sum (picks_update chosenB l)
  have sums := agrees d e (.expressionAdditive first) (.expressionAdditive last)
  rw [flatA, flatB] at sums
  simpa using eq_of_sum_eq sums _ member

/-! ## Terms taken for one product -/

/-- All additives of the level bring along the same operands of a sum. -/
def OperandsAgree (l : Level) : Prop :=
  ∀ a b, Chooses .additive l.spelling a → Chooses .additive l.spelling b →
    a.flatten.operands .add = b.flatten.operands .add

theorem Agrees.operandsAgree (agrees : Agrees l) : OperandsAgree l :=
  fun a b chosenA chosenB =>
    congrArg (Expr.operands .add) (agrees a b (.expressionAdditive chosenA)
      (.expressionAdditive chosenB))

/-- The first terms of a level can be extended to the whole of it. -/
theorem Agrees.operandsAgree_left (agrees : Agrees (left.append .add right)) :
    OperandsAgree left := by
  intro a b chosenA chosenB
  obtain ⟨d, first, flatA⟩ := exists_extension chosenA (picks_found right)
  obtain ⟨e, last, flatB⟩ := exists_extension chosenB (picks_found right)
  have sums := agrees d e (.expressionAdditive first) (.expressionAdditive last)
  simpa [flatA, flatB] using sums

theorem Agrees.operandsAgree_of_terms (agrees : Agrees l) {ts us : List (List Factor)}
    (some : ts ≠ []) (same : l.terms = ts ++ us) :
    ∃ left : Level, left.terms = ts ∧ OperandsAgree left := by
  by_cases all : us = []
  · exact ⟨l, by simpa [all] using same, agrees.operandsAgree⟩
  · obtain ⟨left, right, rfl, first, -⟩ := exists_append_of_terms all some same
    exact ⟨left, first, agrees.operandsAgree_left⟩

/-- Several terms are several operands; taken for a product they are one, if it is no sum. -/
theorem OperandsAgree.root?_ne_mul (agree : OperandsAgree (left.append .add right))
    (several : 1 < right.terms.length) (chosen : Chooses .product right.spelling e) :
    e.root? ≠ some .mul := by
  intro product
  obtain ⟨a, first, flatA⟩ := exists_sum (picks_found left)
  obtain ⟨b, whole, flatB⟩ := exists_sum (picks_found (left.append .add right))
  have one : e.flatten.operands .add = [e.flatten] :=
    Expr.operands_of_ne (by simp [product])
  have same := agree _ b
    (.additiveSum (mem_cuts_spelling_append .add left right) first chosen) whole
  rw [flatB, operands_sum (picks_found _).plain, products_append, Expr.flatten_operator] at same
  simp only [Expr.operands_operator, List.flatMap_cons, List.flatMap_nil, List.append_nil, flatA,
    operands_sum (picks_found left).plain, one] at same
  have lengths := congrArg List.length (List.append_cancel_left same)
  simp only [products, List.length_cons, List.length_nil, List.length_map] at lengths
  omega

theorem root?_tree_of_cut (member : (left, right) ∈ l.cuts .mul) (first : left.IsProduct)
    (last : right.IsProduct) : (l.tree .product).root? = some .mul := by
  rw [tree_product]
  cases found : (l.cuts .mul).find? fun cut => cut.1.IsProduct ∧ cut.2.IsProduct with
  | some cut => rfl
  | none =>
      have := List.find?_eq_none.1 found _ member
      simp [first, last] at this

theorem root?_tree_of_cons_mul {f : Factor} (matched : (Level.cons f .mul rest).IsProduct) :
    ((Level.cons f .mul rest).tree .product).root? = some .mul := by
  cases f with
  | literal text valid =>
      have cut : (Level.single (.literal text valid), rest) ∈
          (Level.cons (.literal text valid) .mul rest).cuts .mul := Level.mem_cuts.2 rfl
      exact root?_tree_of_cut cut trivial matched.2
  | group inner =>
      rw [tree_product]
      split
      · rfl
      · rw [tree_atom_cons]
        rfl

theorem chooses_tree_product (matched : l.IsProduct) :
    Chooses .product l.spelling (l.tree .product) := by
  refine chooses_of_found .product _ _ ?_
  rw [found_search_spelling, if_pos]
  exact matched

/-- A level of which the first term has a group is a product. -/
theorem isProduct_of_terms {t : List Factor} {ts : List (List Factor)} :
    ∀ {l : Level}, l.terms = t :: ts → (∃ f ∈ t, f.IsGroup) → l.IsProduct
  | .single _, _, _ => trivial
  | .cons (.group _) _ _, _, _ => trivial
  | .cons (.literal text valid) .add rest, same, group => by
      obtain ⟨f, member, isGroup⟩ := group
      cases same
      rw [List.mem_singleton.1 member] at isGroup
      exact isGroup.elim
  | .cons (.literal text valid) .mul rest, same, group => by
      obtain ⟨u, us, -, tail, whole⟩ := exists_terms_cons_mul (.literal text valid) rest
      cases whole.symm.trans same
      obtain ⟨f, member, isGroup⟩ := group
      rcases List.mem_cons.1 member with rfl | later
      · exact isGroup.elim
      · exact ⟨rfl, isProduct_of_terms tail ⟨f, later, isGroup⟩⟩

theorem exists_append_single : ∀ (f : Factor) (op : Operator) (rest : Level),
    ∃ (left : Level) (o : Operator) (g : Factor), Level.cons f op rest = left.append o (.single g)
  | f, op, .single g => ⟨.single f, op, g, rfl⟩
  | f, op, .cons g p rest => by
      obtain ⟨left, o, h, same⟩ := exists_append_single g p rest
      exact ⟨.cons f op left, o, h, by rw [same, append]⟩

/-- A level that starts with a group and ends in a term with a `*` is a product of its
last factor and the rest. -/
theorem root?_tree_of_last {inner : Level} {op : Operator} {ts : List (List Factor)}
    {u : List Factor} (same : (Level.cons (.group inner) op rest).terms = ts ++ [u])
    (long : u.length ≠ 1) :
    ((Level.cons (.group inner) op rest).tree .product).root? = some .mul := by
  obtain ⟨left, o, g, split⟩ := exists_append_single (.group inner) op rest
  cases o with
  | add =>
      rw [split, terms_append_add] at same
      obtain ⟨-, last⟩ := List.append_inj' same rfl
      cases last
      exact absurd rfl long
  | mul =>
      have first : left.IsProduct := by
        cases left with
        | single f => trivial
        | cons f p middle =>
            rw [append] at split
            cases split
            trivial
      exact root?_tree_of_cut (Level.mem_cuts.2 split) first trivial

/-- A level that starts with a term with a group is a product, if that term or the last one
has a `*`. -/
theorem root?_tree_of_long {t u : List Factor} {us : List (List Factor)}
    (same : l.terms = t :: (us ++ [u])) (group : ∃ f ∈ t, f.IsGroup)
    (long : t.length ≠ 1 ∨ u.length ≠ 1) : (l.tree .product).root? = some .mul := by
  have matched := isProduct_of_terms same group
  match l with
  | .single f => simp [terms] at same
  | .cons f .mul rest => exact root?_tree_of_cons_mul matched
  | .cons (.literal text valid) .add rest =>
      exact absurd matched.1 (by decide)
  | .cons (.group inner) .add rest =>
      have alone : t.length = 1 := by rw [← (List.cons.inj same).1, List.length_singleton]
      have ends : (Level.cons (.group inner) .add rest).terms = (t :: us) ++ [u] := same
      exact root?_tree_of_last ends (long.resolve_left (not_not_intro alone))

theorem Agrees.splitsFreely (agrees : Agrees l) : l.SplitsFreely := by
  intro before t after same someBefore someAfter group
  -- The terms from `t` up to any later one, taken for a product, are a sum.
  have segment : ∀ middle u us, after = (middle ++ [u]) ++ us → t.length = 1 ∧ u.length = 1 := by
    intro middle u us split
    have joined : l.terms = (before ++ t :: (middle ++ [u])) ++ us := by simp [same, split]
    obtain ⟨whole, terms, agree⟩ := agrees.operandsAgree_of_terms (by simp) joined
    obtain ⟨left, right, rfl, -, last⟩ :=
      exists_append_of_terms (List.cons_ne_nil t _) someBefore terms
    have noProduct := agree.root?_ne_mul (by simp [last])
      (chooses_tree_product (isProduct_of_terms last group))
    by_contra long
    exact noProduct (root?_tree_of_long last group (not_and_or.1 long))
  intro u member
  rcases List.mem_cons.1 member with rfl | later
  · have whole := (List.dropLast_append_getLast someAfter).symm
    exact (segment _ _ [] (by rw [List.append_nil, ← whole])).1
  · obtain ⟨middle, us, split⟩ := List.append_of_mem later
    exact (segment middle u us (by simp [split])).2

theorem Agrees.everywhere (agrees : Agrees l) : l.Everywhere SplitsFreely := by
  induction l using Level.induction_groups with
  | step l ih =>
      refine .intro agrees.splitsFreely fun inner member => ?_
      exact ih inner member (agrees.inside member)

/-! ## The texts for which the choice does not matter -/

/-- **When the choice of the splits matters.**  The leftmost cuts are one choice, and
some choice succeeds exactly when they do.  If a text parses, then all trees that
may be chosen for it flatten to what it parses to just when at every nesting level
each term between the first and the last that has a group is that group alone and
has only single factors after it. -/
theorem choices_agree_iff (text : String) :
    (∀ e, (searchText text).found = some e → Chooses .expression (strip text) e) ∧
    ((∃ e, Chooses .expression (strip text) e) ↔ ∃ result, parse {} text = .ok result) ∧
    ∀ result, parse {} text = .ok result →
      ((∀ e, Chooses .expression (strip text) e → e.flatten = result) ↔
        ∃ l : Level, l.spelling = strip text ∧ l.Everywhere SplitsFreely) := by
  refine ⟨chooses_of_found .expression _, ?some, fun result parsed => ?agree⟩
  case some => rw [exists_chooses_iff, exists_parse_iff, searchText]
  case agree =>
    obtain ⟨raw, found, rfl⟩ := parse_eq_ok_iff.1 parsed
    have chosen := chooses_of_found .expression _ raw found
    constructor
    · intro same
      obtain ⟨l, spelled⟩ := chosen.isLevel
      have agrees : Agrees l := fun a b chosenA chosenB =>
        (same a (spelled ▸ chosenA)).trans (same b (spelled ▸ chosenB)).symm
      exact ⟨l, spelled, agrees.everywhere⟩
    · rintro ⟨l, spelled, free⟩ e other
      have standard := chosen.flatten_eq spelled free (by simp)
      exact (other.flatten_eq spelled free (by simp)).trans standard.symm

/-- The sum `a + (b) + c * d`.  At the first `+` the rest of it is a product, the
sum `(b) + c` times `d`, and that is how it parses; split at the other `+` it is
the sum of `a`, `(b)` and `c * d`. -/
theorem choices_differ_in_sum :
    let a : Expr := .literal "a"
    let b : Expr := .parenthetical "(b)" (.literal "b")
    let c : Expr := .literal "c"
    let d : Expr := .literal "d"
    let chosen : Expr := .operator .add [.operator .add [a, b], .operator .mul [c, d]]
    let parsed : Expr := .operator .add [a, .operator .mul [.operator .add [b, c], d]]
    Chooses .expression (strip "a+(b)+c*d") chosen ∧
      parse {} "a+(b)+c*d" = .ok parsed ∧
      chosen.flatten = .operator .add [a, b, .operator .mul [c, d]] ∧ chosen.flatten ≠ parsed := by
  intro a b c d chosen parsed
  have literal (x : Char) (allowed : Allowed x) :
      Chooses .product [x] (.literal (String.ofList [x])) := by
    have valid := isLiteral_singleton.2 allowed
    exact .productAtom rfl (.atomLiteral (group?_eq_none (head?_literal_ne valid [])) valid)
  refine ⟨?chosen, ?parsed, by decide, by decide⟩
  case chosen =>
    have group : Chooses .product "(b)".toList b :=
      .productAtom rfl (.atomGroup rfl
        (.expressionAdditive (.additiveProduct rfl (literal 'b' (by decide)))))
    have first : Chooses .additive "a+(b)".toList (.operator .add [a, b]) := by
      have cut : (['a'], "(b)".toList) ∈ cuts '+' "a+(b)".toList := by decide
      exact .additiveSum cut (.additiveProduct rfl (literal 'a' (by decide))) group
    have last : Chooses .product "c*d".toList (.operator .mul [c, d]) := by
      have cut : (['c'], ['d']) ∈ cuts '*' "c*d".toList := by decide
      exact .productProduct cut (literal 'c' (by decide)) (literal 'd' (by decide))
    exact .expressionAdditive (.additiveSum (by decide) first last)
  case parsed =>
    let letter (x : Char) (allowed : Allowed x) : Factor :=
      .literal [x] (isLiteral_singleton.2 allowed)
    let sum : Level := .cons (.group (.single (letter 'b' (by decide)))) .add
      (.single (letter 'c' (by decide)))
    let product : Level := .cons (.group (.single (letter 'b' (by decide)))) .add
      (.cons (letter 'c' (by decide)) .mul (.single (letter 'd' (by decide))))
    let whole : Level := .cons (letter 'a' (by decide)) .add product
    have sumTree : sum.tree .product = .operator .add [b, c] := by
      rw [tree_product]
      show sum.tree .atom = _
      rw [tree_atom_cons, tree_group, tree_additive_single, tree_additive_single, tree_literal,
        tree_literal]
      rfl
    have productTree : product.tree .product = .operator .mul [.operator .add [b, c], d] := by
      rw [tree_product]
      show Expr.operator .mul [sum.tree .product, _] = _
      rw [sumTree, tree_product_single, tree_literal]
    have wholeTree : whole.tree .additive = parsed := by
      rw [tree_additive]
      show Expr.operator .add [_, product.tree .product] = _
      rw [productTree, tree_additive_single, tree_literal]
    rw [parse_of_spelling_eq whole (by decide), wholeTree]
    decide

end OperatorTree.Grammar
