/-
# OperatorTree.Proofs.Grammar.Choices -- splitting at any cut that matches

The search splits a text at the leftmost cut of which both sides match.  With
`Chooses` any such cut will do, and there is a tree to choose exactly when the
search finds one (`exists_chooses_iff`).

Where does the choice not matter once the tree is flattened?  A split at a `+`
takes what follows for a product.  A product may begin with a group and then hold
a `+` all the same, as the group takes all that follows for its operand.  If it
stops before a `*`, that `*` binds the whole product, and no longer its own term.
So the choice is free where a group that could be used in this way is a term by
itself and only single factors follow it (`Level.SplitsFreely`).  If that is so at
every nesting level, each tree flattens to the tree of ordinary precedence
(`Chooses.flatten_eq`).
-/
import OperatorTree.Proofs.Grammar.Lookahead
import OperatorTree.Proofs.Grammar.Terms

namespace OperatorTree.Grammar

set_option autoImplicit false

section Found

variable {p q : Production} {op : Operator} {text left right : List Char} {e : Expr}

theorem isSome_split (member : (left, right) ∈ cuts op.symbol text)
    (first : (search p left).found.isSome) (last : (search q right).found.isSome) :
    (split op p q text).found.isSome := by
  obtain ⟨l, foundLeft⟩ := Option.isSome_iff_exists.1 first
  obtain ⟨r, foundRight⟩ := Option.isSome_iff_exists.1 last
  refine Search.isSome_found_first.2 ⟨_, member, ?_⟩
  simp [foundLeft, foundRight]

theorem Chooses.isSome_found (chosen : Chooses p text e) : (search p text).found.isSome := by
  induction chosen with
  | expressionAdditive _ ih => simp [search_expression, ih]
  | expressionAtom _ _ ih => simp [search_expression, ih]
  | additiveSum member _ _ left right =>
      simp [search_additive, isSome_split member left right]
  | additiveProduct _ _ ih => simp [search_additive, ih]
  | productProduct member _ _ left right =>
      simp [search_product, isSome_split member left right]
  | productAtom _ _ ih => simp [search_product, ih]
  | atomLiteral noGroup literal => simp [search_atom, noGroup, literal]
  | atomGroup grouped _ inside =>
      obtain ⟨i, found⟩ := Option.isSome_iff_exists.1 inside
      simp [search_atom, grouped, found, afterGroup]
  | atomOperator grouped _ _ inside operand =>
      obtain ⟨i, found⟩ := Option.isSome_iff_exists.1 inside
      obtain ⟨r, foundOperand⟩ := Option.isSome_iff_exists.1 operand
      simp [search_atom, grouped, found, afterGroup, foundOperand]

/-- Some tree may be chosen exactly when the search finds one. -/
theorem exists_chooses_iff : (∃ e, Chooses p text e) ↔ (search p text).found.isSome := by
  constructor
  · rintro ⟨e, chosen⟩
    exact chosen.isSome_found
  · intro some
    obtain ⟨e, found⟩ := Option.isSome_iff_exists.1 some
    exact ⟨e, chooses_of_found p text e found⟩

theorem Chooses.isLevel (chosen : Chooses p text e) : IsLevel text :=
  chosen.reads.isLevel

theorem Chooses.matches {l : Level} (chosen : Chooses p l.spelling e) : l.Matches p := by
  have some := chosen.isSome_found
  rw [found_search_spelling] at some
  by_contra not
  simp [not] at some

theorem exists_chooses_of_matches {l : Level} (matched : l.Matches p) :
    ∃ e, Chooses p l.spelling e := by
  refine exists_chooses_iff.2 ?_
  rw [found_search_spelling, if_pos matched]
  rfl

end Found

namespace Level

variable {l left right : Level} {op : Operator}

/-! ## Where the choice is free -/

/-- A term between the first and the last that has a group is that group alone, and
each term after it is a single factor. -/
def SplitsFreely (l : Level) : Prop :=
  ∀ before t after, l.terms = before ++ t :: after → before ≠ [] → after ≠ [] →
    (∃ f ∈ t, f.IsGroup) → ∀ u ∈ t :: after, u.length = 1

theorem SplitsFreely.of_append (free : (left.append .add right).SplitsFreely) :
    left.SplitsFreely ∧ right.SplitsFreely := by
  constructor
  · intro before t after same someBefore someAfter group u member
    refine free before t (after ++ right.terms) ?_ someBefore (by simp [someAfter]) group u ?_
    · simp [terms_append_add, same]
    · rcases List.mem_cons.1 member with rfl | later
      · exact List.mem_cons_self
      · exact List.mem_cons_of_mem t (List.mem_append_left _ later)
  · intro before t after same someBefore
    exact free (left.terms ++ before) t after (by simp [terms_append_add, same])
      (by simp [someBefore])

theorem Uniform.splitsFreely (uniform : l.Uniform op) : l.SplitsFreely := by
  intro before t after same someBefore someAfter _ u member
  cases op with
  | mul =>
      have := congrArg List.length (same.symm.trans (terms_of_uniform_mul uniform))
      have := List.length_pos_iff.2 someBefore
      have := List.length_pos_iff.2 someAfter
      simp only [List.length_append, List.length_cons, List.length_nil] at *
      omega
  | add =>
      have inside : u ∈ l.terms := same ▸ List.mem_append_right before member
      rw [terms_of_uniform_add uniform] at inside
      obtain ⟨f, -, rfl⟩ := List.mem_map.1 inside
      rfl

theorem Everywhere.part (free : l.Everywhere SplitsFreely) (here : left.SplitsFreely)
    (inside : left.factors ⊆ l.factors) : left.Everywhere SplitsFreely :=
  .intro here fun _ member => free.inside (inside member)

theorem Uniform.isProduct : ∀ {l : Level}, l.Uniform .mul → l.IsProduct
  | single _, _ => trivial
  | cons (.group _) _ _, _ => trivial
  | cons (.literal ..) _ _, ⟨times, tail⟩ => ⟨times, tail.isProduct⟩

/-- A product that has a `+` has a group in its first term. -/
theorem IsProduct.exists_isGroup {t : List Factor} {ts : List (List Factor)} :
    ∀ {l : Level}, l.IsProduct → l.terms = t :: ts → ts ≠ [] → ∃ f ∈ t, f.IsGroup
  | single f, _, same, several => by
      cases same
      exact absurd rfl several
  | cons (.group inner) .add rest, _, same, _ => by
      cases same
      exact ⟨_, List.mem_cons_self, trivial⟩
  | cons (.group inner) .mul rest, _, same, _ => by
      obtain ⟨u, us, -, -, whole⟩ := exists_terms_cons_mul (.group inner) rest
      cases whole.symm.trans same
      exact ⟨_, List.mem_cons_self, trivial⟩
  | cons (.literal text valid) .mul rest, matched, same, several => by
      obtain ⟨u, us, -, tail, whole⟩ := exists_terms_cons_mul (.literal text valid) rest
      cases whole.symm.trans same
      obtain ⟨f, member, group⟩ := matched.2.exists_isGroup tail several
      exact ⟨f, List.mem_cons_of_mem _ member, group⟩

/-- Where splits are free, a product after a `+` has one operator only. -/
theorem SplitsFreely.uniform_right (free : (left.append .add right).SplitsFreely)
    (matched : right.IsProduct) : ∃ op, right.Uniform op := by
  obtain ⟨t, ts, -, same⟩ := exists_terms_eq_cons right
  by_cases several : ts = []
  · exact ⟨.mul, uniform_mul_of_terms (several ▸ same)⟩
  · refine ⟨.add, uniform_add_of_terms ?_⟩
    rw [same]
    exact free left.terms t ts (by rw [terms_append_add, same]) (terms_ne_nil left) several
      (matched.exists_isGroup same several)

/-- A level that cannot be split at a `+` has none. -/
theorem uniform_mul_of_found_split
    (none : (split .add .additive .product l.spelling).found = none) : l.Uniform .mul := by
  by_contra several
  obtain ⟨left, right, rfl, uniform⟩ := exists_append_last several
  obtain ⟨a, first⟩ := exists_chooses_of_matches (l := left) (p := .additive) trivial
  obtain ⟨b, last⟩ := exists_chooses_of_matches (l := right) (p := .product) uniform.isProduct
  have found := isSome_split (mem_cuts_spelling_append .add left right) first.isSome_found
    last.isSome_found
  rw [none] at found
  cases found

end Level

/-! ## Free choices make no difference -/

open Level

/-- Where splits are free at every nesting level, each tree that may be chosen
flattens to the tree of ordinary precedence. -/
theorem Chooses.flatten_eq {p : Production} {text : List Char} {e : Expr}
    (chosen : Chooses p text e) {l : Level} (spelled : l.spelling = text)
    (free : l.Everywhere SplitsFreely)
    (uniform : p = .product ∨ p = .atom → ∃ op, l.Uniform op) : e.flatten = l.standard := by
  induction chosen generalizing l with
  | expressionAdditive _ ih => exact ih spelled free (by simp)
  | expressionAtom none _ _ =>
      subst spelled
      rw [found_search_spelling] at none
      cases none
  | @additiveSum _ _ _ a b member chosenL chosenR first last =>
      subst spelled
      obtain ⟨left, right, rfl, rfl, rfl⟩ :=
        exists_append_of_mem_cuts member chosenL.isLevel chosenR.isLevel
      obtain ⟨freeL, freeR⟩ := free.here.of_append
      have partL := free.part freeL (by simp [factors_append])
      have partR := free.part freeR (by simp [factors_append])
      exact flatten_sum (fun f _ => f.root?_standard) (first rfl partL (by simp))
        (last rfl partR fun _ => free.here.uniform_right chosenR.matches)
  | additiveProduct none _ ih =>
      subst spelled
      exact ih rfl free fun _ => ⟨.mul, uniform_mul_of_found_split none⟩
  | @productProduct _ _ _ a b member chosenL chosenR first last =>
      subst spelled
      obtain ⟨left, right, rfl, rfl, rfl⟩ :=
        exists_append_of_mem_cuts member chosenL.isLevel chosenR.isLevel
      obtain ⟨op, whole⟩ := uniform (.inl rfl)
      obtain ⟨uniformL, rfl, uniformR⟩ := uniform_append.1 whole
      have partL := free.part uniformL.splitsFreely (by simp [factors_append])
      have partR := free.part uniformR.splitsFreely (by simp [factors_append])
      exact flatten_uniform (fun f _ => f.root?_standard) whole
        (first rfl partL fun _ => ⟨_, uniformL⟩) (last rfl partR fun _ => ⟨_, uniformR⟩)
  | productAtom none _ ih => exact ih spelled free fun _ => uniform (.inl rfl)
  | @atomLiteral text noGroup literal =>
      obtain rfl : l = .single (.literal text literal) := Level.spelling_injective spelled
      exact Expr.flatten_literal _
  | @atomGroup text inner e grouped chosen inside =>
      obtain ⟨m, rfl⟩ := chosen.isLevel
      have whole : l.spelling = (Level.single (.group m)).spelling := by
        rw [spelled, Text.eq_of_group? grouped]
        rfl
      obtain rfl := Level.spelling_injective whole
      have same := inside rfl (free.inside List.mem_cons_self) (by simp)
      rw [Expr.flatten_parenthetical, same]
      exact (Factor.standard_group m).symm
  | @atomOperator text inner operand op e r grouped chosen chosenR inside last =>
      obtain ⟨m, rfl⟩ := chosen.isLevel
      obtain ⟨rest, rfl⟩ := chosenR.isLevel
      have whole : l.spelling = ((single (.group m)).append op rest).spelling := by
        rw [spelled, Text.eq_of_group? grouped]
        simp [Level.append, Level.spelling, Factor.spelling]
      obtain rfl := Level.spelling_injective whole
      obtain ⟨o, whole⟩ := uniform (.inr rfl)
      obtain ⟨-, rfl, uniformR⟩ := uniform_append.1 whole
      have group : (Expr.parenthetical (groupLabel m.spelling) e).flatten =
          (single (.group m)).standard := by
        rw [Expr.flatten_parenthetical, inside rfl (free.inside List.mem_cons_self) (by simp)]
        exact (Factor.standard_group m).symm
      have partR := free.part uniformR.splitsFreely (by simp [factors_append])
      exact flatten_uniform (fun f _ => f.root?_standard) whole group (last rfl partR (by simp))

end OperatorTree.Grammar
