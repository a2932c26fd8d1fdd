/-
# OperatorTree.Proofs.Grammar.Lookahead -- the tree of a level, built without backtracking

The search tries cuts and falls back when a part does not match.  Both can be
foreseen from the level alone:

* an expression and an additive match every level;
* a product matches a level just when each operator before its first group is a
  multiplication (`Level.IsProduct`), because a group may take whatever follows
  it for its operand;
* an atom matches a single factor, and a level that starts with a group
  (`Level.IsAtom`).

`Level.tree` builds the tree with these conditions in place of trials: at each
step it takes the leftmost cut whose sides meet them.  The search finds exactly
this tree (`found_search_spelling`), and it finds nothing in a text that is no
level (`isLevel_of_found`), so the two are one function
(`search_finds_lookahead_tree`).
-/
import OperatorTree.Proofs.Grammar.Reading

namespace OperatorTree.Grammar

set_option autoImplicit false

namespace Level

/-! ## What each production matches -/

/-- Each operator before the first group, or before the end if there is no group,
is a multiplication. -/
def IsProduct : Level → Prop
  | single _ => True
  | cons (.group _) _ _ => True
  | cons (.literal ..) op rest => op = .mul ∧ rest.IsProduct

/-- The level is a single factor or starts with a group. -/
def IsAtom : Level → Prop
  | single _ => True
  | cons (.group _) _ _ => True
  | cons (.literal ..) _ _ => False

def decideIsProduct : (l : Level) → Decidable l.IsProduct
  | single _ => .isTrue trivial
  | cons (.group _) _ _ => .isTrue trivial
  | cons (.literal ..) _ rest =>
      have := rest.decideIsProduct
      inferInstanceAs (Decidable (_ ∧ _))

instance (l : Level) : Decidable l.IsProduct := l.decideIsProduct

instance : (l : Level) → Decidable l.IsAtom
  | single _ => .isTrue trivial
  | cons (.group _) _ _ => .isTrue trivial
  | cons (.literal ..) _ _ => .isFalse not_false

/-- The production matches the level. -/
def Matches (l : Level) : Production → Prop
  | .expression => True
  | .additive => True
  | .product => l.IsProduct
  | .atom => l.IsAtom

instance (l : Level) : (p : Production) → Decidable (l.Matches p)
  | .expression => .isTrue trivial
  | .additive => .isTrue trivial
  | .product => inferInstanceAs (Decidable l.IsProduct)
  | .atom => inferInstanceAs (Decidable l.IsAtom)

/-! ## The tree -/

theorem length_of_mem_cuts {op : Operator} {l : Level} {cut : Level × Level}
    (member : cut ∈ l.cuts op) :
    cut.1.spelling.length < l.spelling.length ∧ cut.2.spelling.length < l.spelling.length := by
  rw [mem_cuts.1 member, spelling_append]
  simp only [List.length_append, List.length_cons]
  omega

/-- The tree that a production makes of a level.  A sum is cut at the leftmost `+`
after which a product follows, a product at the leftmost `*` between two products. -/
def tree : Production → Level → Expr
  | .expression, l => l.tree .additive
  | .additive, l =>
      match _ : (l.cuts .add).find? fun cut => cut.2.IsProduct with
      | some (left, right) => .operator .add [left.tree .additive, right.tree .product]
      | none => l.tree .product
  | .product, l =>
      match _ : (l.cuts .mul).find? fun cut => cut.1.IsProduct ∧ cut.2.IsProduct with
      | some (left, right) => .operator .mul [left.tree .product, right.tree .product]
      | none => l.tree .atom
  | .atom, .single (.literal text _) => .literal (String.ofList text)
  | .atom, .single (.group inner) =>
      .parenthetical (groupLabel inner.spelling) (inner.tree .expression)
  | .atom, .cons f op rest =>
      .operator op [(single f).tree .atom, rest.tree .additive]
termination_by p l => p.measure l.spelling
decreasing_by
  all_goals simp only [Production.measure, Production.rank]
  all_goals
    first
    | omega
    | have := length_of_mem_cuts (List.mem_of_find?_eq_some ‹List.find? _ _ = _›); grind
    | simp only [spelling, Factor.spelling, List.length_append, List.length_cons]; omega

theorem tree_expression (l : Level) : l.tree .expression = l.tree .additive := by
  rw [tree]

theorem tree_additive (l : Level) :
    l.tree .additive =
      match (l.cuts .add).find? fun cut => cut.2.IsProduct with
      | some (left, right) => .operator .add [left.tree .additive, right.tree .product]
      | none => l.tree .product := by
  rw [tree]
  split <;> rename_i found <;> rw [found]

theorem tree_product (l : Level) :
    l.tree .product =
      match (l.cuts .mul).find? fun cut => cut.1.IsProduct ∧ cut.2.IsProduct with
      | some (left, right) => .operator .mul [left.tree .product, right.tree .product]
      | none => l.tree .atom := by
  rw [tree]
  split <;> rename_i found <;> rw [found]

theorem tree_literal (text : List Char) (valid : IsLiteral text) :
    (single (.literal text valid)).tree .atom = .literal (String.ofList text) := by
  rw [tree]

theorem tree_product_single (f : Factor) : (single f).tree .product = (single f).tree .atom := by
  rw [tree_product]
  rfl

theorem tree_additive_single (f : Factor) : (single f).tree .additive = (single f).tree .atom := by
  rw [tree_additive]
  exact tree_product_single f

/-- Two factors with a `+` between them are a sum. -/
theorem tree_additive_pair (f g : Factor) :
    (cons f .add (single g)).tree .additive =
      .operator .add [(single f).tree .atom, (single g).tree .atom] := by
  rw [tree_additive]
  show Expr.operator .add [(single f).tree .additive, (single g).tree .product] = _
  rw [tree_additive_single, tree_product_single]

theorem tree_group (inner : Level) :
    (single (.group inner)).tree .atom =
      .parenthetical (groupLabel inner.spelling) (inner.tree .additive) := by
  conv_lhs => rw [tree, tree_expression]

theorem tree_atom_cons (f : Factor) (op : Operator) (rest : Level) :
    (cons f op rest).tree .atom =
      .operator op [(single f).tree .atom, rest.tree .additive] := by
  conv_lhs => rw [tree]

/-! ## Where a cut is to be found -/

/-- A level that is no product has a last `+` before its first group, and what
follows that `+` is a product. -/
theorem exists_cut_of_not_isProduct : ∀ {l : Level}, ¬ l.IsProduct →
    ∃ cut ∈ l.cuts .add, cut.2.IsProduct
  | single _, not => absurd trivial not
  | cons (.group _) _ _, not => absurd trivial not
  | cons (.literal text valid) op rest, not => by
      by_cases tail : rest.IsProduct
      · have plus : op = .add := by
          cases op with
          | add => rfl
          | mul => exact absurd ⟨rfl, tail⟩ not
        subst plus
        exact ⟨(single (.literal text valid), rest), mem_cuts.2 rfl, tail⟩
      · obtain ⟨⟨left, right⟩, member, follows⟩ := exists_cut_of_not_isProduct tail
        have joined := mem_cuts.1 member
        have extended := congrArg (cons (.literal text valid) op) joined
        exact ⟨(cons (.literal text valid) op left, right), mem_cuts.2 extended, follows⟩

/-- A product that is no atom can be cut right after its first factor. -/
theorem exists_cut_of_isProduct : ∀ {l : Level}, l.IsProduct → ¬ l.IsAtom →
    ∃ cut ∈ l.cuts .mul, cut.1.IsProduct ∧ cut.2.IsProduct
  | single _, _, not => absurd trivial not
  | cons (.group _) _ _, _, not => absurd trivial not
  | cons (.literal text valid) op rest, ⟨times, tail⟩, _ => by
      subst times
      exact ⟨(single (.literal text valid), rest), mem_cuts.2 rfl, trivial, tail⟩

theorem IsProduct.append : ∀ {left right : Level}, left.IsProduct → right.IsProduct →
    (left.append .mul right).IsProduct
  | single (.literal ..), _, _, tail => ⟨rfl, tail⟩
  | single (.group _), _, _, _ => trivial
  | cons (.group _) _ _, _, _, _ => trivial
  | cons (.literal ..) _ _, _, ⟨times, head⟩, tail => ⟨times, head.append tail⟩

theorem IsAtom.isProduct : ∀ {l : Level}, l.IsAtom → l.IsProduct
  | single _, _ => trivial
  | cons (.group _) _ _, _ => trivial

end Level

/-! ## The search finds the tree -/

/-- Going through a list for the first value of a partial function with a given
domain is going for the first member of the domain. -/
theorem findSome?_ite {α β : Type} (P : α → Prop) [DecidablePred P] (f : α → β) (xs : List α) :
    (xs.findSome? fun x => if P x then some (f x) else none) = (xs.find? (P ·)).map f := by
  induction xs with
  | nil => rfl
  | cons x xs ih =>
      by_cases here : P x <;> simp [here, ih]

theorem findSome?_eq_findSome?_filter {α β : Type} {P : α → Prop} [DecidablePred P]
    {f : α → Option β} {xs : List α} (only : ∀ x ∈ xs, ¬ P x → f x = none) :
    xs.findSome? f = (xs.filter (P ·)).findSome? f := by
  induction xs with
  | nil => rfl
  | cons x xs ih =>
      have tail := ih fun y member => only y (List.mem_cons_of_mem x member)
      by_cases here : P x
      · simp [here, tail, List.findSome?_cons]
      · simp [here, tail, only x List.mem_cons_self here]

theorem findSome?_congr {α β : Type} {f g : α → Option β} {xs : List α}
    (same : ∀ x ∈ xs, f x = g x) : xs.findSome? f = xs.findSome? g := by
  induction xs with
  | nil => rfl
  | cons x xs ih =>
      rw [List.findSome?_cons, List.findSome?_cons, same x List.mem_cons_self,
        ih fun y member => same y (List.mem_cons_of_mem x member)]

/-- What a split finds in the spelling of a level, if its parts are found as the
lookahead says. -/
theorem found_split_spelling {op : Operator} {p q : Production} {l : Level}
    (sides : ∀ cut ∈ l.cuts op,
      ((search p cut.1.spelling).found = if cut.1.Matches p then some (cut.1.tree p) else none) ∧
        (search q cut.2.spelling).found = if cut.2.Matches q then some (cut.2.tree q) else none) :
    (split op p q l.spelling).found =
      ((l.cuts op).find? fun cut => cut.1.Matches p ∧ cut.2.Matches q).map fun cut =>
        .operator op [cut.1.tree p, cut.2.tree q] := by
  classical
  -- A side that is no level is not found, so the cuts inside parentheses may be left out.
  have only : ∀ cut ∈ cuts op.symbol l.spelling, ¬ (IsLevel cut.1 ∧ IsLevel cut.2) →
      ((search p cut.1).found.bind fun a =>
        (search q cut.2).found.map fun b => Expr.operator op [a, b]) = none := by
    intro cut _ noLevels
    cases foundLeft : (search p cut.1).found with
    | none => rfl
    | some a =>
        cases foundRight : (search q cut.2).found with
        | none => rfl
        | some b => exact absurd ⟨isLevel_of_found foundLeft, isLevel_of_found foundRight⟩ noLevels
  rw [found_split, findSome?_eq_findSome?_filter only, filter_cuts_spelling, List.findSome?_map,
    ← findSome?_ite]
  refine findSome?_congr fun cut member => ?_
  obtain ⟨left, right⟩ := sides cut member
  simp only [Function.comp_apply, left, right]
  by_cases first : cut.1.Matches p <;> by_cases last : cut.2.Matches q <;> simp [first, last]

/-! ### Production by production -/

/-- The search finds in the spelling of a level the tree of the level, if the
production matches it, and nothing otherwise. -/
def FindsTree (p : Production) (text : List Char) : Prop :=
  ∀ l : Level, l.spelling = text →
    (search p text).found = if l.Matches p then some (l.tree p) else none

theorem findsTree_additive {text : List Char}
    (sides : ∀ cut ∈ cuts Operator.add.symbol text,
      FindsTree .additive cut.1 ∧ FindsTree .product cut.2)
    (product : FindsTree .product text) : FindsTree .additive text := by
  rintro l rfl
  have splits : (split .add .additive .product l.spelling).found =
      ((l.cuts .add).find? fun cut => cut.1.Matches .additive ∧ cut.2.IsProduct).map fun cut =>
        .operator .add [cut.1.tree .additive, cut.2.tree .product] :=
    found_split_spelling fun cut member =>
      have sides := sides _ (spelling_mem_cuts.2 member)
      ⟨sides.1 cut.1 rfl, sides.2 cut.2 rfl⟩
  simp only [Level.Matches, true_and] at splits
  rw [search_additive, Search.found_attempt, Search.found_orElse, splits, product l rfl,
    Level.tree_additive]
  cases found : (l.cuts .add).find? fun cut => cut.2.IsProduct with
  | some cut => simp [Level.Matches]
  | none =>
      have matched : l.IsProduct := by
        by_contra not
        obtain ⟨cut, member, follows⟩ := Level.exists_cut_of_not_isProduct not
        have := List.find?_eq_none.1 found cut member
        simp [follows] at this
      simp [Level.Matches, matched]

theorem findsTree_product {text : List Char}
    (sides : ∀ cut ∈ cuts Operator.mul.symbol text,
      FindsTree .product cut.1 ∧ FindsTree .product cut.2)
    (atom : FindsTree .atom text) : FindsTree .product text := by
  rintro l rfl
  have splits : (split .mul .product .product l.spelling).found =
      ((l.cuts .mul).find? fun cut => cut.1.IsProduct ∧ cut.2.IsProduct).map fun cut =>
        .operator .mul [cut.1.tree .product, cut.2.tree .product] :=
    found_split_spelling fun cut member =>
      have sides := sides _ (spelling_mem_cuts.2 member)
      ⟨sides.1 cut.1 rfl, sides.2 cut.2 rfl⟩
  rw [search_product, Search.found_attempt, Search.found_orElse, splits, atom l rfl,
    Level.tree_product]
  cases found : (l.cuts .mul).find? fun cut => cut.1.IsProduct ∧ cut.2.IsProduct with
  | some cut =>
      have both := List.find?_some found
      have joined := Level.mem_cuts.1 (List.mem_of_find?_eq_some found)
      simp only [decide_eq_true_eq] at both
      have matched : l.IsProduct := joined ▸ both.1.append both.2
      simp [Level.Matches, matched]
  | none =>
      have same : l.IsAtom ↔ l.IsProduct := by
        refine ⟨Level.IsAtom.isProduct, ?_⟩
        intro matched
        by_contra not
        obtain ⟨cut, member, both⟩ := Level.exists_cut_of_isProduct matched not
        have := List.find?_eq_none.1 found cut member
        simp [both] at this
      by_cases atomic : l.IsAtom
      · simp [Level.Matches, atomic, same.1 atomic]
      · simp [Level.Matches, atomic, mt same.2 atomic]

theorem group?_eq_none {text : List Char} (noParenthesis : text.head? ≠ some '(') :
    Text.group? text = none := by
  unfold Text.group?
  split
  · exact absurd rfl noParenthesis
  · rfl

theorem findsTree_atom {text : List Char}
    (parts : ∀ inner rest, Text.group? text = some (inner, rest) →
      FindsTree .expression inner ∧ ∀ c operand, rest = c :: operand →
        FindsTree .expression operand) : FindsTree .atom text := by
  rintro l rfl
  rw [search_atom, Search.found_attempt]
  match l with
  | .single (.literal text valid) =>
      have noGroup := group?_eq_none (by simpa using head?_literal_ne valid [])
      simp [Level.spelling, Factor.spelling, noGroup, valid, Level.Matches, Level.IsAtom,
        Level.tree_literal]
  | .cons (.literal text valid) op rest =>
      have noGroup := group?_eq_none (head?_literal_ne valid (op.symbol :: rest.spelling))
      have noLiteral : ¬ IsLiteral (text ++ op.symbol :: rest.spelling) := fun literal =>
        not_allowed_symbol op (literal.2 _ (by simp))
      simp [Level.spelling, Factor.spelling, noGroup, noLiteral, Level.Matches, Level.IsAtom]
  | .single (.group inner) =>
      have grouped := group?_group inner []
      rw [List.append_nil] at grouped
      have inside := (parts _ _ grouped).1 inner rfl
      simp only [Level.spelling, grouped, Search.found_bind, inside]
      simp [afterGroup, Level.Matches, Level.IsAtom, Level.tree_group, Level.tree_expression]
  | .cons (.group inner) op rest =>
      have grouped := group?_group inner (op.symbol :: rest.spelling)
      obtain ⟨inside, operand⟩ := parts _ _ grouped
      have inside := inside inner rfl
      have operand := operand _ _ rfl rest rfl
      simp only [Level.spelling, grouped, Search.found_bind, inside]
      simp [afterGroup, operand, Level.Matches, Level.IsAtom, Level.tree_atom_cons,
        Level.tree_group, Level.tree_expression]

theorem found_search_spelling (p : Production) (l : Level) :
    (search p l.spelling).found = if l.Matches p then some (l.tree p) else none := by
  have finds : FindsTree p l.spelling := by
    refine Production.induction ?_ (fun _ => findsTree_additive) (fun _ => findsTree_product)
      (fun _ => findsTree_atom) p l.spelling
    intro text additive atom m spelled
    have found := additive m spelled
    rw [search_expression, Search.found_attempt, Search.found_orElse, found, Level.tree_expression]
    rfl
  exact finds l rfl

/-- **The backtracking search and the lookahead are one function.**  A production
finds something in levels only, and of these exactly in those that it matches:
an expression and an additive in every level, a product where each operator
before the first group is a multiplication, an atom in a single factor and
after a group.  What it finds is the tree that is built without trials.  A text
is one level at most, so the tree is fixed by the text; and when an additive
fails, so does the atom that is tried after it. -/
theorem search_finds_lookahead_tree :
    (∀ (p : Production) (text : List Char),
      (search p text).found.isSome → ∃ l : Level, l.spelling = text) ∧
    (∀ l m : Level, l.spelling = m.spelling → l = m) ∧
    (∀ l : Level,
      (search .expression l.spelling).found = some (l.tree .additive) ∧
      (search .additive l.spelling).found = some (l.tree .additive) ∧
      (search .product l.spelling).found =
        (if l.IsProduct then some (l.tree .product) else none) ∧
      (search .atom l.spelling).found = if l.IsAtom then some (l.tree .atom) else none) ∧
    ∀ text : List Char, (search .expression text).found = (search .additive text).found := by
  have onLevels (l : Level) : (search .expression l.spelling).found = some (l.tree .additive) ∧
      (search .additive l.spelling).found = some (l.tree .additive) := by
    constructor
    · rw [found_search_spelling, ← Level.tree_expression]
      rfl
    · rw [found_search_spelling]
      rfl
  refine ⟨fun p text some => ?_, fun l m same => Level.spelling_injective same, fun l => ?_,
    fun text => ?_⟩
  · obtain ⟨e, found⟩ := Option.isSome_iff_exists.1 some
    exact isLevel_of_found found
  · exact ⟨(onLevels l).1, (onLevels l).2, found_search_spelling .product l,
      found_search_spelling .atom l⟩
  · by_cases level : IsLevel text
    · obtain ⟨l, rfl⟩ := level
      rw [(onLevels l).1, (onLevels l).2]
    · have nothing (p : Production) : (search p text).found = none := by
        apply Option.eq_none_iff_forall_ne_some.2
        exact fun e found => level (isLevel_of_found found)
      rw [nothing, nothing]

end OperatorTree.Grammar
