/-
# OperatorTree.Proofs.Grammar.Terms -- the terms of a level, and the tree they stand for

Between its `+` a level has terms, and the factors of a term are what stands
between its `*`.  Read this way a level stands for a sum of products
(`Level.sum`), a group standing for what is in it; with the factors read the same
way this is the tree of ordinary precedence, where `*` binds more tightly than
`+` and parentheses more tightly than both (`Level.standard`).

A property may be asked of a level and of all levels in its groups, however deep
(`Level.Everywhere`).
-/
import OperatorTree.Proofs.Expr.Join
import OperatorTree.Proofs.Grammar.Level

namespace OperatorTree.Grammar

set_option autoImplicit false

/-- The factor is a level in parentheses. -/
def Factor.IsGroup : Factor → Prop
  | .literal .. => False
  | .group _ => True

namespace Level

variable {l left right : Level} {op : Operator}

/-! ## Terms and factors -/

/-- The terms of a level, each as the list of its factors. -/
def terms : Level → List (List Factor)
  | single f => [[f]]
  | cons f .add rest => [f] :: rest.terms
  | cons f .mul rest => rest.terms.modifyHead (f :: ·)

/-- The factors of a level. -/
def factors : Level → List Factor
  | single f => [f]
  | cons f _ rest => f :: rest.factors

theorem exists_terms_eq_cons : ∀ l : Level, ∃ t ts, t ≠ [] ∧ l.terms = t :: ts
  | single f => ⟨[f], [], by simp, rfl⟩
  | cons f .add rest => ⟨[f], rest.terms, by simp, rfl⟩
  | cons f .mul rest => by
      obtain ⟨t, ts, -, same⟩ := exists_terms_eq_cons rest
      exact ⟨f :: t, ts, by simp, by simp [terms, same]⟩

theorem terms_ne_nil (l : Level) : l.terms ≠ [] := by
  obtain ⟨t, ts, -, same⟩ := exists_terms_eq_cons l
  simp [same]

/-- A factor before a `*` belongs to the first of the terms after it. -/
theorem exists_terms_cons_mul (f : Factor) (rest : Level) :
    ∃ t ts, t ≠ [] ∧ rest.terms = t :: ts ∧ (cons f .mul rest).terms = (f :: t) :: ts := by
  obtain ⟨t, ts, some, same⟩ := exists_terms_eq_cons rest
  exact ⟨t, ts, some, same, by rw [terms, same, List.modifyHead_cons]⟩

theorem ne_nil_of_mem_terms {t : List Factor} : ∀ {l : Level}, t ∈ l.terms → t ≠ []
  | single f, member => by simp_all [terms]
  | cons f .add rest, member => by
      rcases List.mem_cons.1 member with rfl | later
      · simp
      · exact ne_nil_of_mem_terms later
  | cons f .mul rest, member => by
      obtain ⟨u, us, -, tail, whole⟩ := exists_terms_cons_mul f rest
      rw [whole, List.mem_cons] at member
      rcases member with rfl | later
      · simp
      · exact ne_nil_of_mem_terms (tail ▸ List.mem_cons_of_mem u later)

theorem flatten_terms : ∀ l : Level, l.terms.flatten = l.factors
  | single f => rfl
  | cons f .add rest => by simp [terms, factors, flatten_terms rest]
  | cons f .mul rest => by
      obtain ⟨t, ts, -, tail, whole⟩ := exists_terms_cons_mul f rest
      rw [whole, factors, ← flatten_terms rest, tail]
      simp

theorem terms_append_add (right : Level) : ∀ left : Level,
    (left.append .add right).terms = left.terms ++ right.terms
  | single f => rfl
  | cons f .add rest => by simp [append, terms, terms_append_add right rest]
  | cons f .mul rest => by
      obtain ⟨t, ts, -, tail, whole⟩ := exists_terms_cons_mul f rest
      rw [append, terms, terms_append_add right rest, whole, tail]
      rfl

theorem factors_append (right : Level) (op : Operator) (left : Level) :
    (left.append op right).factors = left.factors ++ right.factors := by
  induction left with
  | single f => rfl
  | cons f o rest ih => simp [append, factors, ih]

theorem append_assoc (p q : Operator) (middle right left : Level) :
    (left.append p middle).append q right = left.append p (middle.append q right) := by
  induction left with
  | single f => rfl
  | cons f o rest ih => simp [append, ih]

/-- A level may be cut wherever its terms may. -/
theorem exists_append_of_terms {us : List (List Factor)} (someR : us ≠ []) :
    ∀ {l : Level} {ts : List (List Factor)}, ts ≠ [] → l.terms = ts ++ us →
      ∃ left right : Level, l = left.append .add right ∧ left.terms = ts ∧ right.terms = us
  | single f, ts, someL, same => by
      have := congrArg List.length same
      have := List.length_pos_iff.2 someL
      have := List.length_pos_iff.2 someR
      simp only [terms, List.length_append, List.length_cons, List.length_nil] at *
      omega
  | cons f .add rest, [t], _, same => by
      obtain ⟨rfl, rfl⟩ := List.cons.inj same
      exact ⟨single f, rest, rfl, rfl, rfl⟩
  | cons f .add rest, t :: u :: ts, _, same => by
      obtain ⟨rfl, tails⟩ := List.cons.inj same
      obtain ⟨left, right, rfl, first, last⟩ :=
        exists_append_of_terms someR (List.cons_ne_nil u ts) tails
      exact ⟨cons f .add left, right, rfl, by rw [terms, first], last⟩
  | cons f .mul rest, t :: ts, _, same => by
      obtain ⟨u, vs, -, split, whole⟩ := exists_terms_cons_mul f rest
      rw [whole] at same
      obtain ⟨rfl, rfl⟩ := List.cons.inj same
      obtain ⟨left, right, rfl, first, last⟩ :=
        exists_append_of_terms someR (List.cons_ne_nil u ts) split
      exact ⟨cons f .mul left, right, rfl, by rw [terms, first, List.modifyHead_cons], last⟩

/-! ## One operator only -/

/-- The level has no operator but `op`. -/
def Uniform (op : Operator) : Level → Prop
  | single _ => True
  | cons _ o rest => o = op ∧ rest.Uniform op

theorem uniform_append {o : Operator} :
    (left.append o right).Uniform op ↔ left.Uniform op ∧ o = op ∧ right.Uniform op := by
  induction left with
  | single f => simp [append, Uniform]
  | cons f p rest ih => rw [append, Uniform, Uniform, ih, and_assoc]

/-- Without `+` there is one term. -/
theorem terms_of_uniform_mul : ∀ {l : Level}, l.Uniform .mul → l.terms = [l.factors]
  | single f, _ => rfl
  | cons f .mul rest, uniform => by simp [terms, factors, terms_of_uniform_mul uniform.2]

theorem uniform_mul_of_terms {t : List Factor} : ∀ {l : Level}, l.terms = [t] → l.Uniform .mul
  | single f, _ => trivial
  | cons f .add rest, one => by simp [terms, terms_ne_nil rest] at one
  | cons f .mul rest, one => by
      obtain ⟨u, us, -, tail, whole⟩ := exists_terms_cons_mul f rest
      rw [whole] at one
      obtain ⟨rfl, rfl⟩ := List.cons.inj one
      exact ⟨rfl, uniform_mul_of_terms tail⟩

/-- A level of several terms may be cut before the last of them. -/
theorem exists_append_last (several : ¬ l.Uniform .mul) :
    ∃ left right : Level, l = left.append .add right ∧ right.Uniform .mul := by
  have last := List.dropLast_append_getLast (terms_ne_nil l)
  have some : l.terms.dropLast ≠ [] := by
    intro one
    rw [one, List.nil_append] at last
    exact several (uniform_mul_of_terms last.symm)
  obtain ⟨left, right, split, -, single⟩ :=
    exists_append_of_terms (List.cons_ne_nil _ _) some last.symm
  exact ⟨left, right, split, uniform_mul_of_terms single⟩

/-- Without `*` each term is one factor. -/
theorem terms_of_uniform_add : ∀ {l : Level}, l.Uniform .add → l.terms = l.factors.map fun f => [f]
  | single f, _ => rfl
  | cons f .add rest, uniform => by simp [terms, factors, terms_of_uniform_add uniform.2]

theorem uniform_add_of_terms : ∀ {l : Level}, (∀ t ∈ l.terms, t.length = 1) → l.Uniform .add
  | single f, _ => trivial
  | cons f .add rest, each =>
      ⟨rfl, uniform_add_of_terms fun t member => each t (List.mem_cons_of_mem _ member)⟩
  | cons f .mul rest, each => by
      obtain ⟨t, ts, some, -, whole⟩ := exists_terms_cons_mul f rest
      have := each (f :: t) (by simp [whole])
      have := List.length_pos_iff.2 some
      simp only [List.length_cons] at *
      omega

/-! ## Sums of products -/

/-- The terms of a level as products of what the factors stand for. -/
def products (value : Factor → Expr) (l : Level) : List Expr :=
  l.terms.map fun t => .join .mul (t.map value)

/-- The level as a sum of products of what the factors stand for. -/
def sum (value : Factor → Expr) (l : Level) : Expr :=
  .join .add (l.products value)

section Sum

variable {value : Factor → Expr}

theorem products_append (left right : Level) :
    (left.append .add right).products value = left.products value ++ right.products value := by
  simp [products, terms_append_add]

theorem products_ne_nil (l : Level) : l.products value ≠ [] := by
  simp [products, terms_ne_nil]

/-- A product is no sum if its factors stand for none. -/
theorem root?_ne_of_mem_products (plain : ∀ f ∈ l.factors, (value f).root? = none) {e : Expr}
    (member : e ∈ l.products value) : e.root? ≠ some .add := by
  obtain ⟨t, term, rfl⟩ := List.mem_map.1 member
  refine Expr.root?_join_ne (by decide) fun e among => ?_
  obtain ⟨f, factor, rfl⟩ := List.mem_map.1 among
  have inside : f ∈ l.factors := flatten_terms l ▸ List.mem_flatten.2 ⟨t, term, factor⟩
  simp [plain f inside]

theorem operands_sum (plain : ∀ f ∈ l.factors, (value f).root? = none) :
    (l.sum value).operands .add = l.products value :=
  Expr.operands_join (products_ne_nil l) fun _ member => root?_ne_of_mem_products plain member

/-- A level with one operator only is its factors with that operator between them. -/
theorem sum_of_uniform (uniform : l.Uniform op) :
    l.sum value = .join op (l.factors.map value) := by
  cases op with
  | mul => simp [sum, products, terms_of_uniform_mul uniform]
  | add => simp [sum, products, terms_of_uniform_add uniform, Function.comp_def]

theorem factors_ne_nil (l : Level) : l.factors ≠ [] := by
  cases l <;> simp [factors]

theorem flatten_sum {a b : Expr}
    (plain : ∀ f ∈ (left.append .add right).factors, (value f).root? = none)
    (first : a.flatten = left.sum value) (last : b.flatten = right.sum value) :
    (Expr.operator .add [a, b]).flatten = (left.append .add right).sum value := by
  have each : ∀ e ∈ left.products value ++ right.products value, e.root? ≠ some .add := by
    rw [← products_append]
    exact fun e member => root?_ne_of_mem_products plain member
  rw [Expr.flatten_pair first last (products_ne_nil left) (products_ne_nil right) each, sum,
    products_append]

theorem flatten_uniform {a b : Expr}
    (plain : ∀ f ∈ (left.append op right).factors, (value f).root? = none)
    (uniform : (left.append op right).Uniform op) (first : a.flatten = left.sum value)
    (last : b.flatten = right.sum value) :
    (Expr.operator op [a, b]).flatten = (left.append op right).sum value := by
  obtain ⟨uniformL, -, uniformR⟩ := uniform_append.1 uniform
  rw [sum_of_uniform uniformL] at first
  rw [sum_of_uniform uniformR] at last
  rw [factors_append] at plain
  rw [sum_of_uniform uniform, factors_append, List.map_append]
  refine Expr.flatten_pair first last (by simp [factors_ne_nil]) (by simp [factors_ne_nil]) ?_
  rw [← List.map_append]
  intro e member
  obtain ⟨f, inside, rfl⟩ := List.mem_map.1 member
  simp [plain f inside]

/-- The sum determines what each factor stands for. -/
theorem eq_of_sum_eq {other : Factor → Expr} (same : l.sum value = l.sum other) :
    ∀ f ∈ l.factors, value f = other f := by
  have products : l.products value = l.products other :=
    Expr.eq_of_join_eq (by simp [products]) same
  intro f inside
  rw [← flatten_terms] at inside
  obtain ⟨t, term, factor⟩ := List.mem_flatten.1 inside
  have joins := List.map_inj_left.1 products t term
  exact List.map_inj_left.1 (Expr.eq_of_join_eq (by simp) joins) f factor

end Sum

end Level

/-! ## Ordinary precedence -/

mutual

/-- What a factor stands for by ordinary precedence. -/
def Factor.standard : Factor → Expr
  | .literal text _ => .literal (String.ofList text)
  | .group inner => .parenthetical (groupLabel inner.spelling)
      (.join .add (inner.standardTerms.map (Expr.join .mul)))

/-- The terms of a level, each as the list of what its factors stand for. -/
def Level.standardTerms : Level → List (List Expr)
  | .single f => [[f.standard]]
  | .cons f .add rest => [f.standard] :: rest.standardTerms
  | .cons f .mul rest => rest.standardTerms.modifyHead (f.standard :: ·)

end

/-- The flat tree of a level by ordinary precedence. -/
def Level.standard (l : Level) : Expr :=
  l.sum Factor.standard

theorem Level.standardTerms_eq : ∀ l : Level, l.standardTerms = l.terms.map (·.map Factor.standard)
  | .single f => rfl
  | .cons f .add rest => by
      simp [standardTerms, terms, standardTerms_eq rest]
  | .cons f .mul rest => by
      obtain ⟨t, ts, -, tail, whole⟩ := exists_terms_cons_mul f rest
      rw [standardTerms, standardTerms_eq rest, whole, tail]
      rfl

theorem Factor.standard_group (inner : Level) :
    (Factor.group inner).standard = .parenthetical (groupLabel inner.spelling) inner.standard := by
  rw [standard, Level.standardTerms_eq, List.map_map]
  rfl

theorem Factor.root?_standard (f : Factor) : f.standard.root? = none := by
  cases f with
  | literal text valid => rfl
  | group inner => rw [standard_group, Expr.root?_parenthetical]

/-! ## All nesting levels -/

/-- The level has the property, and so have the levels in its groups, however deep. -/
inductive Level.Everywhere (P : Level → Prop) : Level → Prop where
  | intro {l : Level} : P l → (∀ inner, .group inner ∈ l.factors → inner.Everywhere P) →
      l.Everywhere P

namespace Level.Everywhere

variable {P : Level → Prop} {l inner : Level}

theorem here (everywhere : l.Everywhere P) : P l := by
  cases everywhere
  assumption

theorem inside (everywhere : l.Everywhere P) (member : .group inner ∈ l.factors) :
    inner.Everywhere P := by
  cases everywhere with
  | intro _ below => exact below inner member

theorem mono {Q : Level → Prop} (everywhere : l.Everywhere P) (weaker : ∀ m, P m → Q m) :
    l.Everywhere Q := by
  induction everywhere with
  | intro here _ ih => exact .intro (weaker _ here) ih

end Level.Everywhere

theorem length_spelling_of_mem_factors {f : Factor} : ∀ {l : Level}, f ∈ l.factors →
    f.spelling.length ≤ l.spelling.length
  | .single g, member => by simp_all [Level.factors, Level.spelling]
  | .cons g op rest, member => by
      rw [Level.spelling, List.length_append, List.length_cons]
      rcases List.mem_cons.1 member with rfl | later
      · omega
      · have := length_spelling_of_mem_factors later
        omega

/-- A property that a level inherits from the levels in its groups holds of every level. -/
theorem Level.induction_groups {P : Level → Prop}
    (step : ∀ l : Level, (∀ inner, .group inner ∈ l.factors → P inner) → P l) (l : Level) :
    P l := by
  induction size : l.spelling.length using Nat.strongRecOn generalizing l with
  | ind n ih =>
      subst size
      refine step l fun inner member => ih _ ?_ inner rfl
      have := length_spelling_of_mem_factors member
      simp only [Factor.spelling, List.length_append, List.length_cons, List.length_nil] at this
      omega

end OperatorTree.Grammar
