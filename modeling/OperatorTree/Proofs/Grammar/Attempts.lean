/-
# OperatorTree.Proofs.Grammar.Attempts -- what backtracking costs

Three kinds of texts whose attempts can be counted in closed form.

A sum of literals is cut at its first `+`, at its second, and so on.  At each cut the left
side is searched in full, and only then it turns out that the right side is no product; the
last cut works at last.  So a further literal doubles the attempts (`CountedSum.attempts_add`).
A product of literals is done with its first cut, and a further literal adds three attempts.

Parentheses around a text without operators are looked at once if the text within is matched,
and twice if it is not: an expression that is no sum falls back to an atom, which the additive
has tried before.  So each pair adds four attempts to what is accepted, and doubles the
attempts for what is rejected (`attempts_enclosed`).
-/
import Mathlib.Algebra.BigOperators.Group.List.Basic
import Mathlib.Algebra.GroupWithZero.Nat
import OperatorTree.Proofs.Grammar.Rereading
import OperatorTree.Proofs.Text.Brackets

namespace OperatorTree.Grammar

set_option autoImplicit false

variable {symbol : Char} {text left right l : List Char} {ls : List (List Char)} {n d : Nat}

/-! ## Alternatives and candidates -/

/-- The other search is not made if the first finds something. -/
theorem Search.orElse_of_isSome {α : Type} {s : Search α} (some : s.found.isSome) (t : Search α) :
    (s <|> t) = s := by
  obtain ⟨a, found⟩ := Option.isSome_iff_exists.1 some
  simp only [HOrElse.hOrElse, OrElse.orElse, Search.orElse, found]

/-- If all candidates fail but the last, the attempts of all are made. -/
theorem Search.attempts_first_concat {α β : Type} {search : β → Search α} {bs : List β}
    (fails : ∀ b ∈ bs, (search b).found = none) (b : β) :
    (Search.first search (bs ++ [b])).attempts =
      (bs.map fun b => (search b).attempts).sum + (search b).attempts := by
  induction bs with
  | nil => cases found : (search b).found <;> simp [found]
  | cons c bs ih =>
      have here := fails c List.mem_cons_self
      have later := ih fun b member => fails b (List.mem_cons_of_mem c member)
      simp [here, later, Nat.add_assoc]

/-! ## Cuts -/

theorem cuts_eq_nil (absent : symbol ∉ text.tail) : cuts symbol text = [] := by
  refine List.eq_nil_iff_forall_not_mem.2 fun cut member => absent ?_
  obtain ⟨rfl, leftSome, -⟩ := mem_cuts.1 (show (cut.1, cut.2) ∈ _ from member)
  rw [List.tail_append_of_ne_nil leftSome]
  simp

/-- The first cut is at the first occurrence of the symbol. -/
theorem exists_cuts_eq_cons (leftSome : left ≠ []) (absent : symbol ∉ left)
    (rightSome : right ≠ []) :
    ∃ later, cuts symbol (left ++ symbol :: right) = (left, right) :: later := by
  induction left with
  | nil => exact absurd rfl leftSome
  | cons a left ih =>
      cases left with
      | nil => simp [cuts, rightSome]
      | cons b left =>
          simp only [List.mem_cons, not_or] at absent
          obtain ⟨later, first⟩ := ih (by simp) (by simpa using absent.2)
          refine ⟨later.map fun cut => (a :: cut.1, cut.2), ?_⟩
          rw [List.cons_append, List.cons_append, cuts, if_neg fun same => absent.2.1 same.1.symm,
            ← List.cons_append, first]
          rfl

/-- The last cut is at the last occurrence of the symbol. -/
theorem cuts_append (leftSome : left ≠ []) (ends : left.getLast? ≠ some symbol)
    (rightSome : right ≠ []) (absent : symbol ∉ right) :
    cuts symbol (left ++ symbol :: right) =
      (cuts symbol left).map (fun cut => (cut.1, cut.2 ++ symbol :: right)) ++
        [(left, right)] := by
  induction left with
  | nil => exact absurd rfl leftSome
  | cons a left ih =>
      cases left with
      | nil =>
          have none : cuts symbol (symbol :: right) = [] := cuts_eq_nil absent
          simp [cuts, rightSome, none]
      | cons b left =>
          have later := ih (by simp) (by simpa using ends)
          -- The symbol in the second place is followed by something in both texts.
          have same : (b = symbol ∧ left ++ symbol :: right ≠ []) ↔ b = symbol ∧ left ≠ [] := by
            cases left with
            | nil => simpa using ends
            | cons c left => simp
          rw [List.cons_append] at later
          simp only [List.cons_append, cuts, same, later]
          split <;> simp

/-! ## Splits -/

/-- What a split does at a cut. -/
def atCut (op : Operator) (p q : Production) (cut : List Char × List Char) : Search Expr := do
  let l ← search p cut.1
  let r ← search q cut.2
  return .operator op [l, r]

theorem split_eq_first (op : Operator) (p q : Production) (text : List Char) :
    split op p q text = .first (atCut op p q) (cuts op.symbol text) := rfl

variable {op : Operator} {p q : Production}

theorem isSome_found_atCut (some : (search p left).found.isSome) :
    (atCut op p q (left, right)).found.isSome ↔ (search q right).found.isSome := by
  obtain ⟨e, found⟩ := Option.isSome_iff_exists.1 some
  cases other : (search q right).found <;> simp [atCut, found, other]

theorem attempts_atCut (some : (search p left).found.isSome) :
    (atCut op p q (left, right)).attempts =
      (search p left).attempts + (search q right).attempts := by
  obtain ⟨e, found⟩ := Option.isSome_iff_exists.1 some
  cases other : (search q right).found <;> simp [atCut, found, other]

/-! ## Texts without an operator -/

theorem split_eq_fail (op : Operator) (p q : Production) (absent : op.symbol ∉ text) :
    split op p q text = .fail := by
  rw [split_eq_first, cuts_eq_nil fun within => absent (List.mem_of_mem_tail within)]
  rfl

theorem search_additive_of_not_mem (absent : '+' ∉ text) :
    search .additive text = .attempt (search .product text) := by
  rw [search_additive, split_eq_fail .add _ _ absent, Search.fail_orElse]

theorem search_product_of_not_mem (absent : '*' ∉ text) :
    search .product text = .attempt (search .atom text) := by
  rw [search_product, split_eq_fail .mul _ _ absent, Search.fail_orElse]

theorem search_atom_of_head? (other : text.head? ≠ some '(') :
    search .atom text =
      .attempt (if IsLiteral text then pure (.literal (String.ofList text)) else .fail) := by
  rw [search_atom, group?_eq_none other]

/-- An expression without operators is an atom.  If it is not, the atom is tried twice. -/
theorem search_expression_of_not_mem (noSum : '+' ∉ text) (noProduct : '*' ∉ text) :
    (search .expression text).found = (search .atom text).found ∧
      (search .expression text).attempts =
        (if (search .atom text).found.isSome then (search .atom text).attempts
          else 2 * (search .atom text).attempts) + 3 := by
  rw [search_expression, search_additive_of_not_mem noSum, search_product_of_not_mem noProduct]
  cases found : (search .atom text).found with
  | none => simp [found]; omega
  | some e => simp [found]

/-! ## Literals -/

theorem symbol_not_mem (op : Operator) (literal : IsLiteral l) : op.symbol ∉ l :=
  fun member => not_allowed_symbol op (literal.2 _ member)

theorem cuts_literal (op : Operator) (literal : IsLiteral l) : cuts op.symbol l = [] :=
  cuts_eq_nil fun within => symbol_not_mem op literal (List.mem_of_mem_tail within)

theorem search_product_literal (literal : IsLiteral l) :
    search .product l = ⟨some (.literal (String.ofList l)), 2⟩ := by
  have opens : l.head? ≠ some '(' := by simpa using head?_literal_ne literal []
  rw [search_product_of_not_mem (symbol_not_mem .mul literal), search_atom_of_head? opens,
    if_pos literal]
  rfl

/-! ## Sums of literals -/

theorem isSome_found_additive (level : IsLevel text) : (search .additive text).found.isSome := by
  obtain ⟨m, rfl⟩ := level
  rw [found_search_spelling]
  rfl

/-- In a text of literals and `+` alone, a product is looked for in vain. -/
theorem search_product_of_plus (chars : ∀ c ∈ text, Allowed c ∨ c = '+') (plus : '+' ∈ text) :
    search .product text = ⟨none, 2⟩ := by
  have without {c : Char} (refused : ¬ (Allowed c ∨ c = '+')) : c ∉ text :=
    fun member => refused (chars c member)
  have opens : text.head? ≠ some '(' := fun first =>
    without (by decide) (List.mem_of_mem_head? first)
  have noLiteral : ¬ IsLiteral text := fun literal => symbol_not_mem .add literal plus
  rw [search_product_of_not_mem (without (by decide)), search_atom_of_head? opens,
    if_neg noLiteral]
  rfl

theorem chars_add (chars : ∀ c ∈ text, Allowed c ∨ c = '+') (literal : IsLiteral l) :
    ∀ c ∈ text ++ '+' :: l, Allowed c ∨ c = '+' := by
  intro c member
  rcases List.mem_append.1 member with among | among
  · exact chars c among
  · rcases List.mem_cons.1 among with same | among
    · exact .inr same
    · exact .inl (literal.2 c among)

/-- The attempts for the cuts of a sum that fail if a literal is added to it: an additive on
the left, and two attempts on the right. -/
def failing (text : List Char) : Nat :=
  ((cuts '+' text).map fun cut => (search .additive cut.1).attempts + 2).sum

/-- What is known of a sum of `n` literals.  Adding a literal costs what its cuts cost if they
fail and what the sum costs itself, which the last line adds up. -/
structure CountedSum (n : Nat) (text : List Char) : Prop where
  level : IsLevel text
  chars : ∀ c ∈ text, Allowed c ∨ c = '+'
  ends : text.getLast? ≠ some '+'
  lefts : ∀ cut ∈ cuts '+' text, IsLevel cut.1
  total : failing text + (search .additive text).attempts + 5 = 2 ^ (n + 2)

theorem CountedSum.literal (literal : IsLiteral l) : CountedSum 1 l where
  level := isLevel_literal literal
  chars c member := .inl (literal.2 c member)
  ends last := symbol_not_mem .add literal (List.mem_of_getLast? last)
  lefts := by
    rw [show cuts '+' l = [] from cuts_literal .add literal]
    simp
  total := by
    rw [failing, show cuts '+' l = [] from cuts_literal .add literal,
      search_additive_of_not_mem (symbol_not_mem .add literal), search_product_literal literal]
    rfl

theorem CountedSum.cuts_add (sum : CountedSum n text) (literal : IsLiteral l) :
    cuts '+' (text ++ '+' :: l) =
      (cuts '+' text).map (fun cut => (cut.1, cut.2 ++ '+' :: l)) ++ [(text, l)] :=
  cuts_append sum.level.ne_nil sum.ends literal.1 (symbol_not_mem .add literal)

theorem CountedSum.failing_add (sum : CountedSum n text) (literal : IsLiteral l) :
    failing (text ++ '+' :: l) = failing text + (search .additive text).attempts + 2 := by
  simp [failing, sum.cuts_add literal, Function.comp_def, Nat.add_assoc]

/-- At a cut of a sum of literals, the left side is found, and the right side is no product
once a literal is added to the sum. -/
theorem CountedSum.atCut_add (sum : CountedSum n text) (literal : IsLiteral l)
    (member : (left, right) ∈ cuts '+' text) :
    (atCut .add .additive .product (left, right ++ '+' :: l)).found = none ∧
      (atCut .add .additive .product (left, right ++ '+' :: l)).attempts =
        (search .additive left).attempts + 2 := by
  have foundLeft := isSome_found_additive (sum.lefts _ member)
  have within := (mem_cuts.1 member).1
  have chars : ∀ c ∈ right, Allowed c ∨ c = '+' := fun c among =>
    sum.chars c (by rw [within]; simp [among])
  have noProduct := search_product_of_plus (chars_add chars literal) (by simp)
  refine ⟨Option.not_isSome_iff_eq_none.1 fun found => ?_, ?_⟩
  · rw [isSome_found_atCut foundLeft, noProduct] at found
    simp at found
  · rw [attempts_atCut foundLeft, noProduct]

/-- The split of a sum with a further literal works at its last cut. -/
theorem CountedSum.split_add (sum : CountedSum n text) (literal : IsLiteral l) :
    (split .add .additive .product (text ++ '+' :: l)).found.isSome ∧
      (split .add .additive .product (text ++ '+' :: l)).attempts =
        failing text + (search .additive text).attempts + 2 := by
  have foundLeft := isSome_found_additive sum.level
  have works : (atCut .add .additive .product (text, l)).found.isSome := by
    rw [isSome_found_atCut foundLeft, search_product_literal literal]
    rfl
  -- All cuts but the last are those of the sum, and none of them works any more.
  have fails : ∀ cut ∈ (cuts '+' text).map fun cut => (cut.1, cut.2 ++ '+' :: l),
      (atCut .add .additive .product cut).found = none := by
    intro cut among
    obtain ⟨⟨left, right⟩, member, rfl⟩ := List.mem_map.1 among
    exact (sum.atCut_add literal member).1
  have early : ((cuts '+' text).map fun cut => (cut.1, cut.2 ++ '+' :: l)).map
      (fun cut => (atCut .add .additive .product cut).attempts) =
        (cuts '+' text).map fun cut => (search .additive cut.1).attempts + 2 := by
    rw [List.map_map]
    exact List.map_congr_left fun ⟨left, right⟩ member => (sum.atCut_add literal member).2
  have tried : split .add .additive .product (text ++ '+' :: l) =
      .first (atCut .add .additive .product)
        ((cuts '+' text).map (fun cut => (cut.1, cut.2 ++ '+' :: l)) ++ [(text, l)]) := by
    rw [split_eq_first, ← sum.cuts_add literal]
    rfl
  rw [tried]
  constructor
  · exact Search.isSome_found_first.2 ⟨(text, l), by simp, works⟩
  · rw [Search.attempts_first_concat fails, early, attempts_atCut foundLeft,
      search_product_literal literal]
    exact (Nat.add_assoc ..).symm

/-- **A further literal doubles the attempts.** -/
theorem CountedSum.attempts_add (sum : CountedSum n text) (literal : IsLiteral l) :
    (search .additive (text ++ '+' :: l)).attempts + 2 = 2 ^ (n + 2) := by
  obtain ⟨found, attempts⟩ := sum.split_add literal
  have total := sum.total
  rw [search_additive, Search.orElse_of_isSome found, Search.attempts_attempt, attempts]
  omega

theorem CountedSum.add (sum : CountedSum n text) (literal : IsLiteral l) :
    CountedSum (n + 1) (text ++ '+' :: l) where
  level := isLevel_append .add sum.level (isLevel_literal literal)
  chars := chars_add sum.chars literal
  ends last := by
    rw [List.getLast?_append_of_ne_nil _ (by simp), List.getLast?_cons_of_ne_nil literal.1] at last
    exact symbol_not_mem .add literal (List.mem_of_getLast? last)
  lefts cut isCut := by
    rw [sum.cuts_add literal] at isCut
    rcases List.mem_append.1 isCut with among | among
    · obtain ⟨earlier, member, rfl⟩ := List.mem_map.1 among
      exact sum.lefts earlier member
    · rw [List.mem_singleton.1 among]
      exact sum.level
  total := by
    have total := sum.total
    have further := sum.attempts_add literal
    rw [sum.failing_add literal, Nat.pow_succ]
    omega

theorem intercalate_concat (c : Char) (some : ls ≠ []) (l : List Char) :
    [c].intercalate (ls ++ [l]) = [c].intercalate ls ++ c :: l := by
  rw [intercalate_append_of_ne_nil some (by simp), List.intercalate_singleton,
    List.append_assoc, List.singleton_append]

/-- A sum of literals is built up from the left, as it is searched. -/
theorem countedSum_intercalate (some : ls ≠ []) (literals : ∀ l ∈ ls, IsLiteral l) :
    CountedSum ls.length (['+'].intercalate ls) := by
  induction ls using List.reverseRecOn with
  | nil => exact absurd rfl some
  | append_singleton ls l ih =>
      have literal := literals l (by simp)
      by_cases first : ls = []
      · subst first
        simpa using CountedSum.literal literal
      · have sum := ih first fun m member => literals m (by simp [member])
        simpa [intercalate_concat _ first] using sum.add literal

/-- A sum of two or more literals takes `2 ^ (n + 1) - 1` attempts. -/
theorem attempts_sum (two : 2 ≤ ls.length) (literals : ∀ l ∈ ls, IsLiteral l) :
    (search .expression (['+'].intercalate ls)).found.isSome ∧
      (search .expression (['+'].intercalate ls)).attempts + 1 = 2 ^ (ls.length + 1) := by
  have some : ls ≠ [] := List.length_pos_iff.1 (by omega)
  have found := isSome_found_additive (countedSum_intercalate some literals).level
  rw [search_expression, Search.orElse_of_isSome found]
  refine ⟨found, ?_⟩
  -- The last literal has been added to a sum of its own, if there are two.
  obtain ⟨earlier, l, rfl⟩ := (List.eq_nil_or_concat' ls).resolve_left some
  have first : earlier ≠ [] := by
    rintro rfl
    simp at two
  have sum := countedSum_intercalate first fun m member => literals m (by simp [member])
  rw [intercalate_concat _ first, List.length_append]
  exact sum.attempts_add (literals l (by simp))

/-! ## Products of literals -/

/-- The first cut of a product works if its first factor is a literal. -/
theorem search_product_times (literal : IsLiteral l)
    (found : (search .product text).found.isSome) (some : text ≠ []) :
    (search .product (l ++ '*' :: text)).found.isSome ∧
      (search .product (l ++ '*' :: text)).attempts = (search .product text).attempts + 3 := by
  obtain ⟨others, first⟩ := exists_cuts_eq_cons literal.1 (symbol_not_mem .mul literal) some
  have left : (search .product l).found.isSome := by
    rw [search_product_literal literal]
    rfl
  have works : (atCut .mul .product .product (l, text)).found.isSome :=
    (isSome_found_atCut left).2 found
  have tried : split .mul .product .product (l ++ '*' :: text) =
      atCut .mul .product .product (l, text) := by
    rw [split_eq_first, ← Search.orElse_of_isSome works]
    exact congrArg _ first
  rw [search_product, tried, Search.orElse_of_isSome works, Search.attempts_attempt,
    attempts_atCut left, search_product_literal literal]
  refine ⟨works, ?_⟩
  show 2 + _ + 1 = _
  omega

theorem search_product_intercalate (some : ls ≠ []) (literals : ∀ l ∈ ls, IsLiteral l) :
    (search .product (['*'].intercalate ls)).found.isSome ∧
      (search .product (['*'].intercalate ls)).attempts + 1 = 3 * ls.length := by
  induction ls with
  | nil => exact absurd rfl some
  | cons l ls ih =>
      have literal := literals l List.mem_cons_self
      by_cases last : ls = []
      · rw [last, List.intercalate_singleton, search_product_literal literal]
        exact ⟨rfl, rfl⟩
      · have later := ih last fun m member => literals m (List.mem_cons_of_mem l member)
        have level : IsLevel (['*'].intercalate ls) := isLevel_intercalate .mul last fun m member =>
          isLevel_literal (literals m (List.mem_cons_of_mem l member))
        have whole := search_product_times literal later.1 level.ne_nil
        rw [List.intercalate_cons_of_ne_nil last, List.append_assoc, List.singleton_append,
          whole.2, List.length_cons]
        exact ⟨whole.1, by omega⟩

/-- A product of literals takes `3 * n + 1` attempts. -/
theorem attempts_product (some : ls ≠ []) (literals : ∀ l ∈ ls, IsLiteral l) :
    (search .expression (['*'].intercalate ls)).found.isSome ∧
      (search .expression (['*'].intercalate ls)).attempts = 3 * ls.length + 1 := by
  obtain ⟨found, attempts⟩ := search_product_intercalate some literals
  have noSum : '+' ∉ ['*'].intercalate ls := not_mem_intercalate (by decide) fun l member =>
    symbol_not_mem .add (literals l member)
  have additive := search_additive_of_not_mem noSum
  have matched : (search .additive (['*'].intercalate ls)).found.isSome := by
    rw [additive]
    exact found
  rw [search_expression, Search.orElse_of_isSome matched, additive]
  exact ⟨found, by simp only [Search.attempts_attempt]; omega⟩

/-! ## Parentheses around a text without operators -/

/-- A text in `d` pairs of parentheses. -/
def enclosed (d : Nat) (text : List Char) : List Char :=
  List.replicate d '(' ++ text ++ List.replicate d ')'

theorem enclosed_succ (d : Nat) (text : List Char) :
    enclosed (d + 1) text = '(' :: enclosed d text ++ [')'] := by
  simp only [enclosed]
  rw [List.replicate_succ, List.replicate_succ']
  simp

theorem not_mem_enclosed {c : Char} (absent : c ∉ text) (notOpening : c ≠ '(')
    (notClosing : c ≠ ')') (d : Nat) : c ∉ enclosed d text := by
  simp [enclosed, absent, notOpening, notClosing]

theorem closes_of_not_mem (noOpening : '(' ∉ text) (noClosing : ')' ∉ text) :
    Text.Closes 0 text := by
  refine ⟨by rw [List.count_eq_zero.2 noOpening, List.count_eq_zero.2 noClosing], fun p pre => ?_⟩
  rw [List.count_eq_zero.2 fun member => noClosing (pre.subset member)]
  exact Nat.zero_le _

theorem closes_of_enclosed (encloses : Text.Enclosed text) : Text.Closes 0 text := by
  refine ⟨encloses.total, fun p pre => ?_⟩
  by_cases none : p = []
  · simp [none]
  · by_cases whole : p = text
    · rw [whole, encloses.total]
      exact Nat.le_add_right ..
    · exact (encloses.part p pre none whole).le

theorem closes_enclosed (inside : Text.Closes 0 text) (d : Nat) :
    Text.Closes 0 (enclosed d text) := by
  induction d with
  | zero => simpa [enclosed] using inside
  | succ d ih =>
      rw [enclosed_succ]
      exact closes_of_enclosed ih.enclosed

/-- A pair of parentheses counts one attempt more than the expression in it. -/
theorem search_atom_group (inside : Text.Closes 0 text) :
    (search .atom ('(' :: text ++ [')'])).found.isSome =
        (search .expression text).found.isSome ∧
      (search .atom ('(' :: text ++ [')'])).attempts =
        (search .expression text).attempts + 1 := by
  have grouped : Text.group? ('(' :: text ++ [')']) = some (text, []) :=
    Text.closeFrom_eq_some_iff.2 ⟨rfl, inside⟩
  rw [search_atom, grouped]
  cases found : (search .expression text).found <;> simp [afterGroup, found]

/-- **Each pair of parentheses adds four attempts around a text that is matched, and more than
doubles the attempts around one that is not.** -/
theorem search_expression_enclosed (noSum : '+' ∉ text) (noProduct : '*' ∉ text)
    (inside : Text.Closes 0 text) (d : Nat) :
    (search .expression (enclosed (d + 1) text)).found.isSome =
        (search .expression (enclosed d text)).found.isSome ∧
      (search .expression (enclosed (d + 1) text)).attempts =
        if (search .expression (enclosed d text)).found.isSome then
          (search .expression (enclosed d text)).attempts + 4
        else 2 * (search .expression (enclosed d text)).attempts + 5 := by
  obtain ⟨atomFound, atomAttempts⟩ := search_atom_group (closes_enclosed inside d)
  obtain ⟨found, attempts⟩ := search_expression_of_not_mem
    (not_mem_enclosed noSum (by decide) (by decide) (d + 1))
    (not_mem_enclosed noProduct (by decide) (by decide) (d + 1))
  rw [enclosed_succ] at found attempts ⊢
  rw [found, attempts, atomFound, atomAttempts]
  refine ⟨rfl, ?_⟩
  split <;> omega

/-- A literal in `d` pairs of parentheses takes `4 * (d + 1)` attempts, and another text without
operators and parentheses takes `10 * 2 ^ d - 5` of them, in vain. -/
theorem attempts_enclosed (without : ∀ c ∈ ['+', '*', '(', ')'], c ∉ text) (d : Nat) :
    (search .expression (enclosed d text)).found.isSome = decide (IsLiteral text) ∧
      if IsLiteral text then (search .expression (enclosed d text)).attempts = 4 * (d + 1)
      else (search .expression (enclosed d text)).attempts + 5 = 10 * 2 ^ d := by
  have noSum := without '+' (by simp)
  have noProduct := without '*' (by simp)
  have noOpening := without '(' (by simp)
  induction d with
  | zero =>
      have opens : text.head? ≠ some '(' := fun first => noOpening (List.mem_of_mem_head? first)
      obtain ⟨found, attempts⟩ := search_expression_of_not_mem noSum noProduct
      rw [search_atom_of_head? opens] at found attempts
      have same : enclosed 0 text = text := by simp [enclosed]
      rw [same, found, attempts]
      by_cases literal : IsLiteral text <;> simp [literal]
  | succ d ih =>
      obtain ⟨found, attempts⟩ := search_expression_enclosed noSum noProduct
        (closes_of_not_mem noOpening (without ')' (by simp))) d
      rw [found, attempts, ih.1]
      refine ⟨rfl, ?_⟩
      by_cases literal : IsLiteral text
      · have := ih.2
        simp only [literal, if_true, decide_true] at this ⊢
        omega
      · have := ih.2
        simp only [literal, if_false, decide_false, Bool.false_eq_true, Nat.pow_succ] at this ⊢
        omega

end OperatorTree.Grammar
