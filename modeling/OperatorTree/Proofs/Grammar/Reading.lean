/-
# OperatorTree.Proofs.Grammar.Reading -- the trees that the grammar allows for a text

`Reads p text e` says that the rules of the production `p` allow the tree `e`
for the text: the rules alone, whatever a search would try first.  `Chooses p
text e` keeps to the order of the search, in that a production is given up only
where it finds nothing, but splits a text at any cut of which both sides match and
not at the leftmost one.  What a search finds may be chosen so
(`chooses_of_found`), and what may be chosen is allowed (`Chooses.reads`), so what
the rules force on a tree is proved by induction on them and holds of every tree
that is found.

The rules force two things.  A text with a tree is a level (`Reads.isLevel`),
and the tree is written like the text it stands for (`Reads.spelling`), whichever
rules were used.
-/
import OperatorTree.Expr.Text
import OperatorTree.Proofs.Grammar.Level

namespace OperatorTree.Grammar

set_option autoImplicit false

/-! ## Induction along the search -/

/-- A property of a production on a text may be shown from the same property of
the productions that it uses. -/
theorem Production.induction {P : Production → List Char → Prop}
    (expression : ∀ text, P .additive text → P .atom text → P .expression text)
    (additive : ∀ text,
      (∀ cut ∈ cuts Operator.add.symbol text, P .additive cut.1 ∧ P .product cut.2) →
        P .product text → P .additive text)
    (product : ∀ text,
      (∀ cut ∈ cuts Operator.mul.symbol text, P .product cut.1 ∧ P .product cut.2) →
        P .atom text → P .product text)
    (atom : ∀ text,
      (∀ inner rest, Text.group? text = some (inner, rest) →
        P .expression inner ∧ ∀ c operand, rest = c :: operand → P .expression operand) →
        P .atom text) (p : Production) (text : List Char) : P p text := by
  induction size : p.measure text using Nat.strongRecOn generalizing p text with
  | ind n ih =>
      subst size
      have below : ∀ q t, 4 * t.length + q.rank < 4 * text.length + p.rank → P q t :=
        fun q t smaller => ih _ smaller q t rfl
      cases p with
      | expression =>
          exact expression text (below _ _ (by simp [Production.rank]))
            (below _ _ (by simp [Production.rank]))
      | additive =>
          refine additive text (fun cut member => ?_) (below _ _ (by simp [Production.rank]))
          have := length_of_mem_cuts member
          exact ⟨below _ _ (by simp only [Production.rank]; omega),
            below _ _ (by simp only [Production.rank]; omega)⟩
      | product =>
          refine product text (fun cut member => ?_) (below _ _ (by simp [Production.rank]))
          have := length_of_mem_cuts member
          exact ⟨below _ _ (by simp only [Production.rank]; omega),
            below _ _ (by simp only [Production.rank]; omega)⟩
      | atom =>
          apply atom text
          intro inner rest grouped
          have := length_of_group? grouped
          refine ⟨below _ _ (by simp only [Production.rank]; omega), ?_⟩
          rintro c operand rfl
          simp only [List.length_cons] at this
          exact below _ _ (by simp only [Production.rank]; omega)

theorem found_split (op : Operator) (left right : Production) (text : List Char) :
    (split op left right text).found = (cuts op.symbol text).findSome? fun cut =>
      (search left cut.1).found.bind fun l =>
        (search right cut.2).found.map fun r => Expr.operator op [l, r] := by
  rw [split, Search.found_first]
  congr 1
  funext cut
  simp only [Search.found_bind, Search.found_pure, Option.map_eq_bind]
  rfl

/-- A split that succeeds does so at a cut, with what is found on its sides. -/
theorem exists_cut_of_found_split {op : Operator} {left right : Production} {text : List Char}
    {e : Expr} (found : (split op left right text).found = some e) :
    ∃ cut ∈ cuts op.symbol text, ∃ l r, (search left cut.1).found = some l ∧
      (search right cut.2).found = some r ∧ e = .operator op [l, r] := by
  rw [found_split] at found
  obtain ⟨cut, member, here⟩ := List.exists_of_findSome?_eq_some found
  obtain ⟨l, hl, here⟩ := Option.bind_eq_some_iff.1 here
  obtain ⟨r, hr, rfl⟩ := Option.map_eq_some_iff.1 here
  exact ⟨cut, member, l, r, hl, hr, rfl⟩

/-! ## The rules -/

/-- The trees that a production allows for a text. -/
inductive Reads : Production → List Char → Expr → Prop where
  | expressionAdditive {text : List Char} {e : Expr} :
      Reads .additive text e → Reads .expression text e
  | expressionAtom {text : List Char} {e : Expr} :
      Reads .atom text e → Reads .expression text e
  | additiveSum {left right : List Char} {l r : Expr} :
      Reads .additive left l → Reads .product right r →
        Reads .additive (left ++ Operator.add.symbol :: right) (.operator .add [l, r])
  | additiveProduct {text : List Char} {e : Expr} :
      Reads .product text e → Reads .additive text e
  | productProduct {left right : List Char} {l r : Expr} :
      Reads .product left l → Reads .product right r →
        Reads .product (left ++ Operator.mul.symbol :: right) (.operator .mul [l, r])
  | productAtom {text : List Char} {e : Expr} :
      Reads .atom text e → Reads .product text e
  | atomLiteral {text : List Char} :
      IsLiteral text → Reads .atom text (.literal (String.ofList text))
  | atomGroup {inner : List Char} {e : Expr} :
      Reads .expression inner e →
        Reads .atom ('(' :: inner ++ [')']) (.parenthetical (groupLabel inner) e)
  | atomOperator {inner operand : List Char} {op : Operator} {e r : Expr} :
      Reads .expression inner e → Reads .expression operand r →
        Reads .atom ('(' :: inner ++ ')' :: op.symbol :: operand)
          (.operator op [.parenthetical (groupLabel inner) e, r])

/-! ## The rules, as far as a search goes -/

/-- The trees that a production may make of a text if each split is made at any cut
of which both sides match. -/
inductive Chooses : Production → List Char → Expr → Prop where
  | expressionAdditive {text : List Char} {e : Expr} :
      Chooses .additive text e → Chooses .expression text e
  | expressionAtom {text : List Char} {e : Expr} :
      (search .additive text).found = none → Chooses .atom text e → Chooses .expression text e
  | additiveSum {text left right : List Char} {l r : Expr} :
      (left, right) ∈ cuts Operator.add.symbol text → Chooses .additive left l →
        Chooses .product right r → Chooses .additive text (.operator .add [l, r])
  | additiveProduct {text : List Char} {e : Expr} :
      (split .add .additive .product text).found = none → Chooses .product text e →
        Chooses .additive text e
  | productProduct {text left right : List Char} {l r : Expr} :
      (left, right) ∈ cuts Operator.mul.symbol text → Chooses .product left l →
        Chooses .product right r → Chooses .product text (.operator .mul [l, r])
  | productAtom {text : List Char} {e : Expr} :
      (split .mul .product .product text).found = none → Chooses .atom text e →
        Chooses .product text e
  | atomLiteral {text : List Char} :
      Text.group? text = none → IsLiteral text → Chooses .atom text (.literal (String.ofList text))
  | atomGroup {text inner : List Char} {e : Expr} :
      Text.group? text = some (inner, []) → Chooses .expression inner e →
        Chooses .atom text (.parenthetical (groupLabel inner) e)
  | atomOperator {text inner operand : List Char} {op : Operator} {e r : Expr} :
      Text.group? text = some (inner, op.symbol :: operand) → Chooses .expression inner e →
        Chooses .expression operand r →
          Chooses .atom text (.operator op [.parenthetical (groupLabel inner) e, r])

/-! ## What is found may be chosen -/

theorem chooses_of_found_afterGroup {text inner rest : List Char} {e tree : Expr}
    (grouped : Text.group? text = some (inner, rest)) (inside : Chooses .expression inner e)
    (operand : ∀ c operand, rest = c :: operand → ∀ r,
      (search .expression operand).found = some r → Chooses .expression operand r)
    (found : (afterGroup (.parenthetical (groupLabel inner) e) rest).found = some tree) :
    Chooses .atom text tree := by
  cases rest with
  | nil =>
      simp only [afterGroup, Search.found_pure, Option.some.injEq] at found
      exact found ▸ .atomGroup grouped inside
  | cons c rest =>
      simp only [afterGroup] at found
      split at found
      · simp at found
      · rename_i op symbol
        obtain rfl := Operator.ofSymbol?_eq_some_iff.1 symbol
        simp only [Search.found_bind, Search.found_pure, Option.bind_eq_some_iff,
          Option.some.injEq] at found
        obtain ⟨r, foundOperand, rfl⟩ := found
        exact .atomOperator grouped inside (operand _ rest rfl r foundOperand)

/-- What the search finds may be chosen: it takes the leftmost cut everywhere. -/
theorem chooses_of_found : ∀ (p : Production) (text : List Char) (e : Expr),
    (search p text).found = some e → Chooses p text e := by
  refine Production.induction (P := fun p text => ∀ e, (search p text).found = some e →
    Chooses p text e) ?expression ?additive ?product ?atom
  case expression =>
    intro text additive atom e found
    rw [search_expression, Search.found_attempt, Search.found_orElse,
      Option.or_eq_some_iff] at found
    rcases found with found | ⟨none, found⟩
    · exact .expressionAdditive (additive e found)
    · exact .expressionAtom none (atom e found)
  case additive =>
    intro text sides product e found
    rw [search_additive, Search.found_attempt, Search.found_orElse, Option.or_eq_some_iff] at found
    rcases found with found | ⟨none, found⟩
    · obtain ⟨cut, member, l, r, foundLeft, foundRight, rfl⟩ := exists_cut_of_found_split found
      exact .additiveSum member ((sides _ member).1 l foundLeft) ((sides _ member).2 r foundRight)
    · exact .additiveProduct none (product e found)
  case product =>
    intro text sides atom e found
    rw [search_product, Search.found_attempt, Search.found_orElse, Option.or_eq_some_iff] at found
    rcases found with found | ⟨none, found⟩
    · obtain ⟨cut, member, l, r, foundLeft, foundRight, rfl⟩ := exists_cut_of_found_split found
      exact .productProduct member ((sides _ member).1 l foundLeft)
        ((sides _ member).2 r foundRight)
    · exact .productAtom none (atom e found)
  case atom =>
    intro text parts e found
    rw [search_atom, Search.found_attempt] at found
    split at found
    · rename_i noGroup
      split at found
      · rename_i literal
        simp only [Search.found_pure, Option.some.injEq] at found
        exact found ▸ .atomLiteral noGroup literal
      · simp at found
    · rename_i inner rest grouped
      rw [Search.found_bind, Option.bind_eq_some_iff] at found
      obtain ⟨i, foundInner, found⟩ := found
      obtain ⟨inside, operand⟩ := parts inner rest grouped
      exact chooses_of_found_afterGroup grouped (inside i foundInner) operand found

/-- What may be chosen is allowed by the rules. -/
theorem Chooses.reads {p : Production} {text : List Char} {e : Expr} (chosen : Chooses p text e) :
    Reads p text e := by
  induction chosen with
  | expressionAdditive _ ih => exact .expressionAdditive ih
  | expressionAtom _ _ ih => exact .expressionAtom ih
  | additiveSum member _ _ left right =>
      rw [(mem_cuts.1 member).1]
      exact .additiveSum left right
  | additiveProduct _ _ ih => exact .additiveProduct ih
  | productProduct member _ _ left right =>
      rw [(mem_cuts.1 member).1]
      exact .productProduct left right
  | productAtom _ _ ih => exact .productAtom ih
  | atomLiteral _ literal => exact .atomLiteral literal
  | atomGroup grouped _ inside =>
      rw [Text.eq_of_group? grouped]
      exact .atomGroup inside
  | atomOperator grouped _ _ inside operand =>
      rw [Text.eq_of_group? grouped]
      exact .atomOperator inside operand

/-- What a search finds is allowed by the rules. -/
theorem reads_of_found (p : Production) (text : List Char) (e : Expr)
    (found : (search p text).found = some e) : Reads p text e :=
  (chooses_of_found p text e found).reads

/-! ## What the rules force -/

theorem isLevel_literal {text : List Char} (literal : IsLiteral text) : IsLevel text :=
  ⟨.single (.literal text literal), rfl⟩

theorem isLevel_append {left right : List Char} (op : Operator) (first : IsLevel left)
    (last : IsLevel right) : IsLevel (left ++ op.symbol :: right) := by
  obtain ⟨l, rfl⟩ := first
  obtain ⟨r, rfl⟩ := last
  exact ⟨l.append op r, Level.spelling_append op r l⟩

theorem isLevel_group {inner : List Char} (inside : IsLevel inner) :
    IsLevel ('(' :: inner ++ [')']) := by
  obtain ⟨l, rfl⟩ := inside
  exact ⟨.single (.group l), by simp [Level.spelling, Factor.spelling]⟩

/-- A text with a tree is a level. -/
theorem Reads.isLevel {p : Production} {text : List Char} {e : Expr} (reads : Reads p text e) :
    IsLevel text := by
  induction reads with
  | expressionAdditive _ ih | expressionAtom _ ih | additiveProduct _ ih | productAtom _ ih =>
      exact ih
  | additiveSum _ _ left right | productProduct _ _ left right => exact isLevel_append _ left right
  | atomLiteral literal => exact isLevel_literal literal
  | atomGroup _ inside => exact isLevel_group inside
  | atomOperator _ _ inside operand =>
      simpa using isLevel_append _ (isLevel_group inside) operand

/-- A tree that the rules allow for a text is written like the text. -/
theorem Reads.spelling {p : Production} {text : List Char} {e : Expr} (reads : Reads p text e) :
    e.spelling = text := by
  induction reads with
  | expressionAdditive _ ih | expressionAtom _ ih | additiveProduct _ ih | productAtom _ ih =>
      exact ih
  | additiveSum _ _ left right | productProduct _ _ left right =>
      simp [Expr.compose, left, right]
  | atomLiteral literal => simp [Expr.compose]
  | atomGroup _ inside => simp [Expr.compose, inside]
  | atomOperator _ _ inside operand => simp [Expr.compose, inside, operand]

theorem isLevel_of_found {p : Production} {text : List Char} {e : Expr}
    (found : (search p text).found = some e) : IsLevel text :=
  (reads_of_found p text e found).isLevel

end OperatorTree.Grammar
