/-
# OperatorTree.Proofs.Grammar.Operands -- the operands of what a level reads as

By ordinary precedence the operands of a sum are its terms: factors, and products of factors.
The tree that the search makes of a level may differ from that, because a product that begins
with a group can take a later `+` along.  It differs in one place only: the last operand of the
sum.  Flattened, the tree is the sum of the products of what the factors read as, or all of its
operands but the last are terms and the last one is none (`flatten_tree_eq_or_bent`).

If a term between the first and the last has a group, and that term or the last one has a `*`,
all that comes after the first term is one operand (`length_operands_of_group`).
-/
import OperatorTree.Proofs.Grammar.Ambiguity

namespace OperatorTree

set_option autoImplicit false

namespace Expr

variable {e : Expr} {es : List Expr}

/-- Neither the expression nor a factor of it is a sum. -/
def IsTerm (e : Expr) : Prop :=
  ∀ d ∈ e.operands .mul, d.root? ≠ some .add

/-- The operands of the sum are terms, the last one apart, which is none. -/
def Bent (e : Expr) : Prop :=
  ∃ before last, e.operands .add = before ++ [last] ∧ (∀ d ∈ before, d.IsTerm) ∧ ¬ last.IsTerm

theorem isTerm_of_root? (none : e.root? = none) : e.IsTerm := by
  rw [IsTerm, operands_of_ne (by simp [none])]
  simp [none]

theorem not_isTerm_of_root? (sum : e.root? = some .add) : ¬ e.IsTerm := by
  rw [IsTerm, operands_of_ne (by simp [sum])]
  simp [sum]

theorem isTerm_join_mul (some : es ≠ []) (plain : ∀ d ∈ es, d.root? = none) :
    (join .mul es).IsTerm := by
  rw [IsTerm, operands_join some fun d member => by simp [plain d member]]
  exact fun d member => by simp [plain d member]

theorem Bent.not_isTerm (bent : e.Bent) : ¬ e.IsTerm := by
  obtain ⟨before, last, same, -, noTerm⟩ := bent
  by_cases sum : e.root? = some .add
  · exact not_isTerm_of_root? sum
  · rw [operands_of_ne sum] at same
    have ends := congrArg List.getLast? same
    rw [List.getLast?_concat, List.getLast?_singleton, Option.some.injEq] at ends
    rwa [ends]

/-- A product with a sum among its factors is bent. -/
theorem bent_of_not_isTerm (product : e.root? ≠ some .add) (noTerm : ¬ e.IsTerm) : e.Bent :=
  ⟨[], e, operands_of_ne product, by simp, noTerm⟩

theorem Bent.isTerm_of_lt {d : Expr} {others : List Expr} (bent : e.Bent)
    (same : e.operands .add = d :: others) (several : others ≠ []) : d.IsTerm := by
  obtain ⟨before, last, split, terms, -⟩ := bent
  rw [same] at split
  cases before with
  | nil =>
      cases split
      exact absurd rfl several
  | cons b before =>
      cases split
      exact terms d List.mem_cons_self

end Expr

namespace Grammar

open Level

variable {l left right rest : Level} {value : Factor → Expr} {a b e : Expr}

@[simp] theorem Factor.root?_found (f : Factor) : f.found.root? = none :=
  (picks_found (single f)).plain f List.mem_cons_self

/-! ## One operator above two levels -/

theorem isTerm_of_mem_products (plain : ∀ f, (value f).root? = none)
    (member : e ∈ l.products value) : e.IsTerm := by
  obtain ⟨t, term, rfl⟩ := List.mem_map.1 member
  refine Expr.isTerm_join_mul (by simpa using ne_nil_of_mem_terms term) fun d among => ?_
  obtain ⟨f, -, rfl⟩ := List.mem_map.1 among
  exact plain f

/-- A sum of several terms is none. -/
theorem uniform_of_isTerm_sum (term : (l.sum value).IsTerm) : l.Uniform .mul := by
  obtain ⟨t, ts, -, same⟩ := exists_terms_eq_cons l
  cases ts with
  | nil => exact uniform_mul_of_terms same
  | cons u us =>
      refine absurd term (Expr.not_isTerm_of_root? ?_)
      rw [sum, products, same]
      rfl

/-- The tree is the sum of products, or it is bent. -/
def SumOrBent (value : Factor → Expr) (l : Level) (e : Expr) : Prop :=
  e = l.sum value ∨ e.Bent

theorem sumOrBent_add (plain : ∀ f, (value f).root? = none) (first : a.flatten = left.sum value)
    (last : SumOrBent value right b.flatten) :
    SumOrBent value (left.append .add right) (Expr.operator .add [a, b]).flatten := by
  rcases last with sum | ⟨before, last, same, terms, noTerm⟩
  · exact .inl (flatten_sum (fun f _ => plain f) first sum)
  · refine .inr ⟨left.products value ++ before, last, ?_, fun d member => ?_, noTerm⟩
    · simp [Expr.flatten_operator, first, operands_sum fun f _ => plain f, same]
    · exact (List.mem_append.1 member).elim (isTerm_of_mem_products plain) (terms d)

theorem sumOrBent_mul (plain : ∀ f, (value f).root? = none)
    (first : SumOrBent value left a.flatten) (last : SumOrBent value right b.flatten) :
    SumOrBent value (left.append .mul right) (Expr.operator .mul [a, b]).flatten := by
  by_cases both : a.flatten.IsTerm ∧ b.flatten.IsTerm
  · obtain ⟨termA, termB⟩ := both
    have sumA := first.resolve_right fun bent => bent.not_isTerm termA
    have sumB := last.resolve_right fun bent => bent.not_isTerm termB
    refine .inl (flatten_uniform (fun f _ => plain f) ?_ sumA sumB)
    exact uniform_append.2 ⟨uniform_of_isTerm_sum (sumA ▸ termA), rfl,
      uniform_of_isTerm_sum (sumB ▸ termB)⟩
  · refine .inr (Expr.bent_of_not_isTerm (by simp) fun term => both ?_)
    rw [Expr.IsTerm, Expr.flatten_operator, Expr.operands_operator] at term
    exact ⟨fun d member => term d (by simp [member]), fun d member => term d (by simp [member])⟩

/-! ## The tree of a level -/

theorem flatten_tree_of_uniform (p : Production) (l : Level) (uniform : l.Uniform .mul) :
    (l.tree p).flatten = l.sum Factor.found := by
  have plain : ∀ f, (Factor.found f).root? = none := Factor.root?_found
  induction p, l using Level.tree.induct with
  | case1 l ih =>
      rw [tree_expression]
      exact ih uniform
  | case2 l left right found =>
      have none : l.cuts .add = [] := cuts_eq_nil_of_uniform (by decide) uniform
      simp [none] at found
  | case3 l none ih =>
      rw [tree_additive, none]
      exact ih uniform
  | case4 l left right found ihLeft ihRight =>
      obtain rfl := Level.mem_cuts.1 (List.mem_of_find?_eq_some found)
      obtain ⟨uniformL, -, uniformR⟩ := uniform_append.1 uniform
      rw [tree_product, found]
      exact flatten_uniform (fun f _ => plain f) uniform (ihLeft uniformL) (ihRight uniformR)
  | case5 l none ih =>
      rw [tree_product, none]
      exact ih uniform
  | case6 text valid => rfl
  | case7 inner => rfl
  | case8 f op rest _ ihRest =>
      obtain ⟨rfl, uniformRest⟩ := uniform
      rw [tree_atom_cons]
      show _ = ((single f).append .mul rest).sum Factor.found
      exact flatten_uniform (fun f _ => plain f) ⟨rfl, uniformRest⟩ rfl (ihRest uniformRest)

/-- A level that has no cut for a sum is one term. -/
theorem uniform_of_find?_eq_none
    (none : ((l.cuts .add).find? fun cut => cut.2.IsProduct) = none) : l.Uniform .mul := by
  by_contra several
  obtain ⟨left, right, rfl, uniform⟩ := exists_append_last several
  have blocked := List.find?_eq_none.1 none (left, right) (Level.mem_cuts.2 rfl)
  exact blocked (by simpa using uniform.isProduct)

/-- Before the leftmost cut, only the first term has groups. -/
theorem not_isGroup_of_find? (found : ((l.cuts .add).find? fun cut => cut.2.IsProduct) =
      some (left, right)) : ∀ t ∈ left.terms.tail, ∀ f ∈ t, ¬ f.IsGroup := by
  induction l generalizing left with
  | single f => simp [Level.cuts] at found
  | cons f op rest ih =>
      have later (same : (((rest.cuts .add).map fun c => (cons f op c.1, c.2)).find?
          fun cut => cut.2.IsProduct) = some (left, right)) : ∃ l, left = cons f op l ∧
            ((rest.cuts .add).find? fun cut => cut.2.IsProduct) = some (l, right) := by
        rw [List.find?_map] at same
        obtain ⟨⟨l, r⟩, first, whole⟩ := Option.map_eq_some_iff.1 same
        cases whole
        exact ⟨l, rfl, first⟩
      cases op with
      | mul =>
          obtain ⟨l, rfl, first⟩ := later found
          obtain ⟨t, ts, -, tail, whole⟩ := exists_terms_cons_mul f l
          rw [whole, List.tail_cons]
          simpa [tail] using ih first
      | add =>
          have cuts : (cons f .add rest).cuts .add =
              (single f, rest) :: (rest.cuts .add).map fun c => (cons f .add c.1, c.2) := rfl
          by_cases here : rest.IsProduct
          · rw [cuts, List.find?_cons_of_pos (by simpa using here)] at found
            cases found
            simp [terms]
          · rw [cuts, List.find?_cons_of_neg (by simpa using here)] at found
            obtain ⟨l, rfl, first⟩ := later found
            obtain rfl := Level.mem_cuts.1 (List.mem_of_find?_eq_some first)
            obtain ⟨t, ts, -, same⟩ := exists_terms_eq_cons l
            have inner := ih first
            rw [same, List.tail_cons] at inner
            -- The rest begins with `t`, and it is no product.
            have plain : ∀ g ∈ t, ¬ g.IsGroup := fun g member group =>
              here (isProduct_of_terms (by rw [terms_append_add, same, List.cons_append])
                ⟨g, member, group⟩)
            rw [terms, List.tail_cons, same]
            simpa using ⟨plain, inner⟩

/-- With groups in the first term only, the tree is that of ordinary precedence. -/
theorem flatten_tree_of_tail (l : Level) (literals : ∀ t ∈ l.terms.tail, ∀ f ∈ t, ¬ f.IsGroup) :
    (l.tree .additive).flatten = l.sum Factor.found := by
  induction size : l.terms.length using Nat.strongRecOn generalizing l with
  | ind n ih =>
      subst size
      rw [tree_additive]
      cases found : (l.cuts .add).find? fun cut => cut.2.IsProduct with
      | none => exact flatten_tree_of_uniform .product l (uniform_of_find?_eq_none found)
      | some cut =>
          obtain ⟨left, right⟩ := cut
          have product : right.IsProduct := by simpa using List.find?_some found
          have before := not_isGroup_of_find? found
          obtain rfl := Level.mem_cuts.1 (List.mem_of_find?_eq_some found)
          obtain ⟨t, ts, -, same⟩ := exists_terms_eq_cons right
          obtain ⟨u, us, -, first⟩ := exists_terms_eq_cons left
          rw [terms_append_add, same, first, List.cons_append, List.tail_cons] at literals
          have one : ts = [] := by
            by_contra several
            obtain ⟨f, member, group⟩ := product.exists_isGroup same several
            exact literals t (by simp) f member group
          have uniform : right.Uniform .mul := uniform_mul_of_terms (one ▸ same)
          have shorter : left.terms.length < (left.append .add right).terms.length := by
            simp [terms_append_add, same]
          exact flatten_sum (fun f _ => f.root?_found) (ih _ shorter left before rfl)
            (flatten_tree_of_uniform .product right uniform)

/-- **What a level reads as is the sum of its products, or its last operand alone is no term.** -/
theorem flatten_tree_eq_or_bent (p : Production) (l : Level) :
    SumOrBent Factor.found l (l.tree p).flatten := by
  have plain : ∀ f, (Factor.found f).root? = none := Factor.root?_found
  induction p, l using Level.tree.induct with
  | case1 l ih =>
      rw [tree_expression]
      exact ih
  | case2 l left right found _ ihRight =>
      obtain rfl := Level.mem_cuts.1 (List.mem_of_find?_eq_some found)
      rw [tree_additive, found]
      exact sumOrBent_add plain (flatten_tree_of_tail left (not_isGroup_of_find? found)) ihRight
  | case3 l none ih =>
      rw [tree_additive, none]
      exact ih
  | case4 l left right found ihLeft ihRight =>
      obtain rfl := Level.mem_cuts.1 (List.mem_of_find?_eq_some found)
      rw [tree_product, found]
      exact sumOrBent_mul plain ihLeft ihRight
  | case5 l none ih =>
      rw [tree_product, none]
      exact ih
  | case6 text valid => exact .inl rfl
  | case7 inner => exact .inl rfl
  | case8 f op rest _ ihRest =>
      rw [tree_atom_cons]
      show SumOrBent Factor.found ((single f).append op rest) _
      cases op with
      | add => exact sumOrBent_add plain rfl ihRest
      | mul => exact sumOrBent_mul plain (.inl rfl) ihRest

/-! ## A group too early -/

theorem exists_cuts_add {t : List Factor} {ts : List (List Factor)} (several : ts ≠ [])
    (same : l.terms = t :: ts) : ∃ left right later, l.cuts .add = (left, right) :: later ∧
      left.terms = [t] ∧ right.terms = ts := by
  induction l generalizing t with
  | single f =>
      cases same
      exact absurd rfl several
  | cons f op rest ih =>
      cases op with
      | add =>
          cases same
          exact ⟨_, _, _, rfl, rfl, rfl⟩
      | mul =>
          obtain ⟨u, us, -, tail, whole⟩ := exists_terms_cons_mul f rest
          rw [whole] at same
          cases same
          obtain ⟨left, right, later, cuts, first, others⟩ := ih tail
          have head : (cons f .mul left).terms = [f :: u] := by
            rw [terms, first, List.modifyHead_cons]
          refine ⟨cons f .mul left, right, later.map fun c => (cons f .mul c.1, c.2), ?_, head,
            others⟩
          show (rest.cuts .add).map (fun c => (cons f .mul c.1, c.2)) = _
          rw [cuts, List.map_cons]

/-- **A group in the second of three or more terms** takes all that follows it for its operand,
if there is a `*` in its term or in the last one.  So there are two operands. -/
theorem length_operands_of_group {x t u : List Factor} {us : List (List Factor)}
    (same : l.terms = x :: t :: (us ++ [u])) (group : ∃ f ∈ t, f.IsGroup)
    (long : t.length ≠ 1 ∨ u.length ≠ 1) :
    ((l.tree .additive).flatten.operands .add).length = 2 := by
  obtain ⟨left, right, later, cuts, first, others⟩ := exists_cuts_add (List.cons_ne_nil _ _) same
  have product : right.IsProduct := isProduct_of_terms others group
  have found : ((l.cuts .add).find? fun cut => cut.2.IsProduct) = some (left, right) := by
    rw [cuts, List.find?_cons_of_pos (by simpa using product)]
  have sum : ((left.tree .additive).flatten.operands .add).length = 1 := by
    rw [flatten_tree_of_uniform .additive left (uniform_mul_of_terms first),
      operands_sum fun f _ => f.root?_found, products, first]
    rfl
  have taken : (right.tree .product).flatten.operands .add = [(right.tree .product).flatten] :=
    Expr.operands_of_ne (by simp [root?_tree_of_long others group long])
  rw [tree_additive, found, Expr.flatten_operator, Expr.operands_operator, List.flatMap_cons,
    List.flatMap_cons, List.flatMap_nil, taken, List.append_nil, List.length_append, sum]
  rfl

end Grammar

end OperatorTree
