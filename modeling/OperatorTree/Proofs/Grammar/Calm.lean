/-
# OperatorTree.Proofs.Grammar.Calm -- levels that may be put in any order

A level is calm if it has at most two terms, or no group, or no `*` (`Level.Calm`).  None of
this depends on the order of its terms or of the factors in them.  In a calm level splits are
free, so where all levels are calm a text reads as the tree of ordinary precedence, and it still
does when siblings in that tree have been exchanged.

What the tree of ordinary precedence of calm levels is like can be said of the tree itself, node
by node (`Expr.CalmAt`); exchanges keep it (`Expr.all_calmAt_of_rearranged`).  And each such
tree, its parentheses relabelled, is the tree of ordinary precedence of calm levels again
(`Level.exists_stands`).
-/
import OperatorTree.Proofs.Expr.Inventory
import OperatorTree.Proofs.Expr.Relabelled
import OperatorTree.Proofs.Grammar.Operands
import OperatorTree.Proofs.Grammar.Precedence
import OperatorTree.Proofs.Tree.Rearranged

namespace OperatorTree

set_option autoImplicit false

namespace Expr

variable {e d : Expr} {es : List Expr}

/-- The expression is a pair of parentheses. -/
def IsGroup (e : Expr) : Prop :=
  e.value.kind = .parenthetical

/-- A factor of the expression is a pair of parentheses. -/
def HasGroup (e : Expr) : Prop :=
  ∃ d ∈ e.operands .mul, d.IsGroup

/-- The operands of a sum are at most two, or none has a group, or none is a product. -/
def CalmOperands (es : List Expr) : Prop :=
  es.length ≤ 2 ∨ (∀ d ∈ es, ¬ d.HasGroup) ∨ ∀ d ∈ es, d.root? ≠ some .mul

/-- The operands of a node are as ordinary precedence has them, and those of a sum are calm. -/
def CalmAt : Content → List Expr → Prop
  | .operator .add, operands => (∀ d ∈ operands, d.root? ≠ some .add) ∧ CalmOperands operands
  | .operator .mul, operands => ∀ d ∈ operands, d.root? = none
  | _, _ => True

theorem hasGroup_join_mul (nonempty : es ≠ []) (plain : ∀ d ∈ es, d.root? = none) :
    (join .mul es).HasGroup ↔ ∃ d ∈ es, d.IsGroup := by
  rw [HasGroup, operands_join nonempty fun d member => by simp [plain d member]]

theorem root?_join_mul_iff (nonempty : es ≠ []) (plain : ∀ d ∈ es, d.root? = none) :
    (join .mul es).root? = some .mul ↔ es.length ≠ 1 := by
  match es with
  | [d] => simp [plain d List.mem_cons_self]
  | _ :: _ :: _ => simp [join]

theorem all_join {P : Content → List Expr → Prop} {op : Operator} (nonempty : es ≠ [])
    (several : 2 ≤ es.length → P (.operator op) es) (each : ∀ d ∈ es, d.All P) :
    (join op es).All P := by
  match es with
  | [d] => exact each d List.mem_cons_self
  | _ :: _ :: _ => exact .node (several (by simp)) each

/-! ## Exchanges -/

theorem root?_of_exchange (exchange : Tree.Exchange e d) : d.root? = e.root? := by
  rw [root?, root?, exchange.value_eq]

/-- An exchange keeps the values of the operands, in some order. -/
theorem perm_values_of_exchange (op : Operator) (exchange : Tree.Exchange e d) :
    ((e.operands op).map Tree.value).Perm ((d.operands op).map Tree.value) := by
  have roots := root?_of_exchange exchange
  by_cases own : e.root? = some op
  · cases exchange with
    | here content before x between y after =>
        obtain rfl := Content.operator?_eq_some_iff.1 own
        rw [operands_operator, operands_operator]
        simp only [List.map_append, List.map_cons]
        exact Tree.perm_exchange ..
    | inside content before after step =>
        obtain rfl := Content.operator?_eq_some_iff.1 own
        rw [operands_operator, operands_operator]
        simp only [List.map_append, List.map_cons, step.value_eq]
        exact .refl _
  · rw [operands_of_ne own, operands_of_ne (roots ▸ own), List.map_singleton, List.map_singleton,
      exchange.value_eq]

theorem hasGroup_of_exchange (exchange : Tree.Exchange e d) : d.HasGroup ↔ e.HasGroup := by
  have values (e : Expr) : e.HasGroup ↔
      ∃ content ∈ (e.operands .mul).map Tree.value, content.kind = .parenthetical := by
    simp [HasGroup, IsGroup]
  rw [values, values]
  exact exists_congr fun content =>
    and_congr_left' (perm_values_of_exchange .mul exchange).mem_iff.symm

/-- Exchanges keep trees of calm levels. -/
theorem all_calmAt_of_rearranged (calm : e.All CalmAt) (rearranged : Tree.Rearranged e d) :
    d.All CalmAt := by
  refine calm.of_rearranged ?perm ?below rearranged
  case perm =>
    intro content cs ds perm here
    match content with
    | .literal _ | .parenthetical _ => trivial
    | .operator .mul => exact fun d member => here d (perm.mem_iff.2 member)
    | .operator .add =>
        refine ⟨fun d member => here.1 d (perm.mem_iff.2 member), ?_⟩
        refine here.2.imp (perm.length_eq ▸ ·) (Or.imp ?_ ?_)
        · exact fun none d member => none d (perm.mem_iff.2 member)
        · exact fun none d member => none d (perm.mem_iff.2 member)
  case below =>
    intro content before after c d exchange here
    -- What is asked of the operands is the same of both.
    have replace {Q : Expr → Prop} (same : Q d ↔ Q c) (each : ∀ x ∈ before ++ c :: after, Q x) :
        ∀ x ∈ before ++ d :: after, Q x := by
      simp only [List.forall_mem_append, List.forall_mem_cons] at each ⊢
      exact ⟨each.1, same.2 each.2.1, each.2.2⟩
    have roots := root?_of_exchange exchange
    match content with
    | .literal _ | .parenthetical _ => trivial
    | .operator .mul => exact replace (Q := (root? · = none)) (by rw [roots]) here
    | .operator .add =>
        refine ⟨replace (Q := (root? · ≠ some .add)) (by rw [roots]) here.1, ?_⟩
        refine here.2.imp (fun short => by simpa using short) (Or.imp ?_ ?_)
        · exact replace (Q := (¬ HasGroup ·)) (not_congr (hasGroup_of_exchange exchange))
        · exact replace (Q := (root? · ≠ some .mul)) (by rw [roots])

end Expr

namespace Grammar

variable {l : Level} {value : Factor → Expr} {e : Expr}

/-- What the factors stand for is no operator, and a group stands for a pair of parentheses. -/
structure Faithful (value : Factor → Expr) : Prop where
  root?_eq : ∀ f, (value f).root? = none
  isGroup_iff : ∀ f, (value f).IsGroup ↔ f.IsGroup

theorem faithful_standard : Faithful Factor.standard where
  root?_eq := Factor.root?_standard
  isGroup_iff f := by
    cases f with
    | literal text valid => exact iff_of_false nofun id
    | group inner =>
        rw [Factor.standard_group]
        exact iff_of_true rfl trivial

namespace Faithful

variable {t : List Factor} (faithful : Faithful value) (nonempty : t ≠ [])

include faithful nonempty

theorem hasGroup_product :
    (Expr.join .mul (t.map value)).HasGroup ↔ ∃ f ∈ t, f.IsGroup := by
  rw [Expr.hasGroup_join_mul (by simpa using nonempty) fun d member => by
    obtain ⟨f, -, rfl⟩ := List.mem_map.1 member
    exact faithful.root?_eq f]
  simp [faithful.isGroup_iff]

theorem root?_product :
    (Expr.join .mul (t.map value)).root? = some .mul ↔ t.length ≠ 1 := by
  rw [Expr.root?_join_mul_iff (by simpa using nonempty) fun d member => by
    obtain ⟨f, -, rfl⟩ := List.mem_map.1 member
    exact faithful.root?_eq f, List.length_map]

end Faithful

namespace Level

/-- The level has at most two terms, or no group, or no `*`. -/
def Calm (l : Level) : Prop :=
  l.terms.length ≤ 2 ∨ (∀ f ∈ l.factors, ¬ f.IsGroup) ∨ l.Uniform .add

theorem uniform_add_iff : l.Uniform .add ↔ ∀ t ∈ l.terms, t.length = 1 := by
  refine ⟨fun uniform t member => ?_, uniform_add_of_terms⟩
  rw [terms_of_uniform_add uniform] at member
  obtain ⟨f, -, rfl⟩ := List.mem_map.1 member
  rfl

/-- A level is calm if its products are. -/
theorem calm_iff (faithful : Faithful value) :
    l.Calm ↔ Expr.CalmOperands (l.products value) := by
  have groups : (∀ f ∈ l.factors, ¬ f.IsGroup) ↔ ∀ d ∈ l.products value, ¬ d.HasGroup := by
    rw [products, List.forall_mem_map, ← flatten_terms, List.forall_mem_flatten]
    refine forall₂_congr fun t member => ?_
    rw [faithful.hasGroup_product (ne_nil_of_mem_terms member)]
    simp
  have single : l.Uniform .add ↔ ∀ d ∈ l.products value, d.root? ≠ some .mul := by
    rw [products, List.forall_mem_map, uniform_add_iff]
    refine forall₂_congr fun t member => ?_
    rw [Ne, faithful.root?_product (ne_nil_of_mem_terms member), not_ne_iff]
  rw [Calm, Expr.CalmOperands, groups, single, products, List.length_map]

theorem Calm.splitsFreely (calm : l.Calm) : l.SplitsFreely := by
  rcases calm with short | literals | uniform
  · exact (groupsAtEnds_of_length_le short).splitsFreely
  · exact (everywhere_groupsAtEnds_of_literals literals).here.splitsFreely
  · exact uniform.splitsFreely

/-! ## From calm levels to trees -/

theorem all_calmAt_standard (calm : l.Everywhere Calm) : l.standard.All Expr.CalmAt := by
  induction calm with
  | @intro l here _ ih =>
      have factor : ∀ f ∈ l.factors, f.standard.All Expr.CalmAt := by
        intro f member
        cases f with
        | literal text valid => exact .node trivial (by simp)
        | group inner =>
            rw [Factor.standard_group]
            exact .node trivial fun e inside => List.mem_singleton.1 inside ▸ ih inner member
      refine Expr.all_join (products_ne_nil l) (fun _ => ⟨fun d member => ?_, ?_⟩)
        fun d member => ?_
      · exact root?_ne_of_mem_products (fun f _ => f.root?_standard) member
      · exact (calm_iff faithful_standard).1 here
      · obtain ⟨t, term, rfl⟩ := List.mem_map.1 member
        refine Expr.all_join (by simpa using ne_nil_of_mem_terms term) (fun _ x among => ?_)
          fun x among => ?_
        · obtain ⟨f, -, rfl⟩ := List.mem_map.1 among
          exact f.root?_standard
        · obtain ⟨f, inside, rfl⟩ := List.mem_map.1 among
          exact factor f (flatten_terms l ▸ List.mem_flatten.2 ⟨t, term, inside⟩)

/-! ## From trees to calm levels -/

/-- Several levels may be joined by one operator. -/
theorem exists_joined (op : Operator) {levels : List Level} (nonempty : levels ≠ []) :
    ∃ l : Level, l.spelling = [op.symbol].intercalate (levels.map spelling) ∧
      l.factors = levels.flatMap factors ∧ (op = .add → l.terms = levels.flatMap terms) ∧
      (op = .mul → (∀ m ∈ levels, m.Uniform .mul) → l.Uniform .mul) := by
  induction levels with
  | nil => exact absurd rfl nonempty
  | cons m levels ih =>
      by_cases last : levels = []
      · subst last
        exact ⟨m, by simp, by simp, by simp, fun _ each => each m List.mem_cons_self⟩
      · obtain ⟨l, spelled, factors, terms, uniform⟩ := ih last
        refine ⟨m.append op l, ?_, ?_, ?_, ?_⟩
        · have parts : levels.map spelling ≠ [] := by simpa using last
          rw [spelling_append, spelled, List.map_cons, List.intercalate_cons_of_ne_nil parts,
            List.append_assoc, List.singleton_append]
        · rw [factors_append, factors, List.flatMap_cons]
        · rintro rfl
          rw [terms_append_add, terms rfl, List.flatMap_cons]
        · rintro rfl each
          exact uniform_append.2 ⟨each m List.mem_cons_self, rfl,
            uniform rfl fun k later => each k (List.mem_cons_of_mem m later)⟩

/-- The level stands for the expression, its parentheses relabelled, and all levels are calm. -/
structure Stands (l : Level) (e : Expr) : Prop where
  standard_eq : l.standard = e.relabelled
  spelling_eq : l.spelling = e.spelling
  calm : l.Everywhere Calm

namespace Stands

variable {d : Expr}

theorem products_eq (stands : l.Stands d) (noSum : d.root? ≠ some .add) :
    l.products Factor.standard = [d.relabelled] := by
  rw [← operands_sum fun f _ => f.root?_standard]
  show l.standard.operands .add = _
  rw [stands.standard_eq, Expr.operands_of_ne (by rwa [Expr.root?_relabelled])]

theorem uniform (stands : l.Stands d) (plain : d.root? = none) : l.Uniform .mul := by
  have term : l.standard.IsTerm :=
    stands.standard_eq ▸ Expr.isTerm_of_root? (by rw [Expr.root?_relabelled, plain])
  exact uniform_of_isTerm_sum term

theorem factors_eq (stands : l.Stands d) (plain : d.root? = none) :
    l.factors.map Factor.standard = [d.relabelled] := by
  have product : d.relabelled = .join .mul (l.factors.map Factor.standard) :=
    stands.standard_eq.symm.trans (sum_of_uniform (stands.uniform plain))
  have operands : (Expr.join .mul (l.factors.map Factor.standard)).operands .mul =
      l.factors.map Factor.standard :=
    Expr.operands_join (by simpa using factors_ne_nil l) fun d member => by
      obtain ⟨f, -, rfl⟩ := List.mem_map.1 member
      simp [f.root?_standard]
  rw [← operands, ← product, Expr.operands_of_ne (by simp [plain])]

end Stands

theorem calmOperands_relabelled {es : List Expr} (calm : Expr.CalmOperands es) :
    Expr.CalmOperands (es.map Expr.relabelled) := by
  have groups (d : Expr) : d.relabelled.HasGroup ↔ d.HasGroup := by
    simp [Expr.HasGroup, Expr.IsGroup]
  simpa only [Expr.CalmOperands, List.length_map, List.forall_mem_map, groups,
    Expr.root?_relabelled] using calm

theorem stands_literal {label : String} (valid : IsLiteral label.toList) :
    (Level.single (.literal label.toList valid)).Stands (.literal label) where
  standard_eq := by
    rw [Expr.relabelled_literal]
    show Expr.literal (String.ofList label.toList) = _
    rw [String.ofList_toList]
  spelling_eq := rfl
  calm := .intro (.inl (by simp [terms])) (by simp [factors])

theorem Stands.group {inner : Expr} (stands : l.Stands inner) (label : String) :
    (Level.single (.group l)).Stands (.parenthetical label inner) where
  standard_eq := by
    have text : groupLabel l.spelling = Expr.text (.parenthetical label inner) := by
      simp [groupLabel, Expr.text, Expr.compose, stands.spelling_eq]
    rw [Expr.relabelled_parenthetical, ← text, ← stands.standard_eq]
    exact Factor.standard_group l
  spelling_eq := by
    simp [spelling, Factor.spelling, Expr.compose, stands.spelling_eq]
  calm := by
    refine .intro (.inl (by simp [terms])) fun m member => ?_
    obtain rfl : m = l := by simpa [factors] using member
    exact stands.calm

section Joined

variable {op : Operator} {operands : List Expr} {level : Expr → Level}
  (stands : ∀ d ∈ operands, (level d).Stands d)
  (factors_eq : l.factors = (operands.map level).flatMap factors)

include stands

theorem spelling_joined (spelled : l.spelling =
      [op.symbol].intercalate ((operands.map level).map spelling)) :
    l.spelling = Expr.spelling (.operator op operands) := by
  rw [spelled, List.map_map, Expr.spelling_node]
  exact congrArg _ (List.map_congr_left fun d member => (stands d member).spelling_eq)

include factors_eq

theorem calm_joined {inner : Level} (member : .group inner ∈ l.factors) :
    inner.Everywhere Calm := by
  rw [factors_eq, List.flatMap_map] at member
  obtain ⟨d, among, inside⟩ := List.mem_flatMap.1 member
  exact (stands d among).calm.inside inside

theorem factors_joined (plain : ∀ d ∈ operands, d.root? = none) :
    l.factors.map Factor.standard = operands.map Expr.relabelled := by
  rw [factors_eq, List.flatMap_map, List.map_flatMap, List.map_eq_flatMap]
  exact List.flatMap_congr fun d member => (stands d member).factors_eq (plain d member)

omit factors_eq

theorem products_joined (terms_eq : l.terms = (operands.map level).flatMap terms)
    (noSum : ∀ d ∈ operands, d.root? ≠ some .add) :
    l.products Factor.standard = operands.map Expr.relabelled := by
  rw [products, terms_eq, List.flatMap_map, List.map_flatMap, List.map_eq_flatMap]
  exact List.flatMap_congr fun d member => (stands d member).products_eq (noSum d member)

end Joined

/-- Levels for the operands make up a level for the operator applied to them. -/
theorem exists_stands_operator {op : Operator} {operands : List Expr} {level : Expr → Level}
    (several : 2 ≤ operands.length) (calm : Expr.CalmAt (.operator op) operands)
    (stands : ∀ d ∈ operands, (level d).Stands d) :
    ∃ l : Level, l.Stands (.operator op operands) := by
  have nonempty : operands.map level ≠ [] := by
    rw [Ne, List.map_eq_nil_iff]
    rintro rfl
    simp at several
  obtain ⟨l, spelled, factors, terms, uniform⟩ := exists_joined op nonempty
  have written := spelling_joined stands spelled
  have joined : Expr.join op (operands.map Expr.relabelled) =
      Expr.relabelled (.operator op operands) := by
    rw [Expr.relabelled_operator]
    exact Expr.join_of_two_le (by rwa [List.length_map])
  cases op with
  | mul =>
      have one : l.Uniform .mul := uniform rfl fun m member => by
        obtain ⟨d, among, rfl⟩ := List.mem_map.1 member
        exact (stands d among).uniform (calm d among)
      refine ⟨l, ?_, written, .intro (.inl ?_) fun _ => calm_joined stands factors⟩
      · rw [← joined, standard, sum_of_uniform one, factors_joined stands factors calm]
      · simp [terms_of_uniform_mul one]
  | add =>
      obtain ⟨noSum, here⟩ := calm
      have products := products_joined stands (terms rfl) noSum
      refine ⟨l, ?_, written, .intro ((calm_iff faithful_standard).2 ?_)
        fun _ => calm_joined stands factors⟩
      · rw [← joined, ← products]
        rfl
      · rw [products]
        exact calmOperands_relabelled here

/-- **A tree as ordinary precedence has it, in calm levels, is the tree of calm levels.** -/
theorem exists_stands (shaped : e.Shaped) (wide : e.Wide 2) (lettered : e.Lettered)
    (calm : e.All Expr.CalmAt) : ∃ l : Level, l.Stands e := by
  induction e using Tree.induction with
  | step content operands ih =>
      have each : ∀ d ∈ operands, ∃ l : Level, l.Stands d := fun d member =>
        ih d member (shaped.of_mem d member) (wide.of_mem d member) (lettered.of_mem d member)
          (calm.of_mem d member)
      cases content with
      | literal label =>
          obtain rfl : operands = [] := by simpa [Content.Fits] using shaped.here
          exact ⟨_, stands_literal (lettered.here label rfl).1⟩
      | parenthetical label =>
          obtain ⟨inner, rfl⟩ := List.length_eq_one_iff.1 shaped.here
          obtain ⟨m, stands⟩ := each inner List.mem_cons_self
          exact ⟨_, stands.group label⟩
      | operator op =>
          have : Nonempty Level := ⟨.single (.literal ['a'] (by decide))⟩
          choose! level stands using each
          exact exists_stands_operator (wide.here op rfl) calm.here stands

end Level

end Grammar

end OperatorTree
