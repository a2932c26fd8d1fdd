/-
# OperatorTree.Proofs.Grammar.Rearranged -- when rearranged trees read back

An expression reads back if its text reads as the expression itself, with its parentheses
relabelled.  What a text reads as does.  When siblings are exchanged in it, it may no longer: no
parentheses are written that are not there, and a group takes what follows it for its operand
unless it comes in the first term or late enough.

If all levels of the text are calm, whatever is rearranged reads back.  If some level is not,
it has three terms or more, among them one with a group and one with a `*`.  Then its last
operand can be moved to the front, if it is no term; and otherwise a term with a group can be
moved to the second place so that all that follows it becomes one operand
(`calm_of_readsBack`).  As a group reads as its contents do, the same is so of the levels inside
(`everywhere_calm_of_readsBack`).
-/
import OperatorTree.Proofs.Grammar.Calm
import OperatorTree.Proofs.Grammar.Inventory

namespace OperatorTree

set_option autoImplicit false

universe u

/-! ## Rearranged expressions -/

namespace Expr

variable {e d : Expr} (rearranged : Tree.Rearranged e d)

include rearranged

theorem Shaped.of_rearranged (shaped : e.Shaped) : d.Shaped :=
  Tree.All.length_of_rearranged (Q := Content.Fits) shaped rearranged

theorem Wide.of_rearranged {k : Nat} (wide : e.Wide k) : d.Wide k :=
  Tree.All.length_of_rearranged
    (Q := fun content n => ∀ op, content = Content.operator op → k ≤ n) wide rearranged

theorem Lettered.of_rearranged (lettered : e.Lettered) : d.Lettered :=
  Tree.All.length_of_rearranged (Q := fun content _ => ∀ label, content = Content.literal label →
    IsLiteral label.toList ∧ ' ' ∉ label.toList) lettered rearranged

end Expr

namespace Expr

variable {e : Expr}

/-- What holds of each node of a relabelled expression. -/
theorem all_of_all_relabelled {P : Content → List Expr → Prop} (all : e.relabelled.All P) :
    e.All fun content operands =>
      P (content.labelled (text (.node content operands))) (operands.map relabelled) := by
  induction e using Tree.induction with
  | step content operands ih =>
      rw [relabelled_node] at all
      exact .node all.here fun d member => ih d member (all.of_mem _ (List.mem_map_of_mem member))

theorem isTerm_relabelled : e.relabelled.IsTerm ↔ e.IsTerm := by
  simp [IsTerm]

theorem hasGroup_relabelled : e.relabelled.HasGroup ↔ e.HasGroup := by
  simp [HasGroup, IsGroup]

end Expr

namespace Grammar

open Level

variable {l : Level} {text : String} {e d : Expr}

/-- The text of the expression reads as the expression, its parentheses relabelled. -/
def ReadsBack (e : Expr) : Prop :=
  parse {} (Expr.text e) = .ok e.relabelled

/-! ## Calm levels -/

theorem Level.Stands.readsBack (stands : l.Stands e) (lettered : e.Lettered) : ReadsBack e := by
  have spelled : l.spelling = strip (Expr.text e) := by
    rw [strip_text lettered, stands.spelling_eq]
  rw [ReadsBack, ← stands.standard_eq]
  exact parse_of_everywhere_splitsFreely spelled (stands.calm.mono fun _ => Calm.splitsFreely)

/-- Where all levels of a text are calm, each rearrangement of what it reads as reads back. -/
theorem readsBack_of_rearranged (parsed : parse {} text = .ok e) (spelled : l.spelling = strip text)
    (calm : l.Everywhere Calm) (rearranged : Tree.Rearranged e d) : ReadsBack d := by
  have standard : e = l.standard := Except.ok.inj <| parsed.symm.trans <|
    parse_of_everywhere_splitsFreely spelled (calm.mono fun _ => Calm.splitsFreely)
  have kept : e.All Expr.CalmAt := standard ▸ all_calmAt_standard calm
  have lettered := (lettered_of_parse parsed).of_rearranged rearranged
  obtain ⟨m, stands⟩ := exists_stands ((shaped_of_parse parsed).of_rearranged rearranged)
    ((wide_of_parse parsed).of_rearranged rearranged) lettered
    (Expr.all_calmAt_of_rearranged kept rearranged)
  exact stands.readsBack lettered

/-! ## What reads back -/

theorem faithful_found : Faithful Factor.found where
  root?_eq := Factor.root?_found
  isGroup_iff f := by
    cases f with
    | literal text valid =>
        rw [Factor.found, tree_literal]
        exact iff_of_false nofun id
    | group inner =>
        rw [Factor.found, tree_group, Expr.flatten_parenthetical]
        exact iff_of_true rfl trivial

namespace ReadsBack

variable {x t u : Expr} {us others : List Expr}

theorem exists_level (reads : ReadsBack e) :
    ∃ l : Level, e.relabelled = (l.tree .additive).flatten := by
  obtain ⟨l, -, same⟩ := exists_level_of_parse reads
  exact ⟨l, same⟩

/-- An operand that is not the last one is a term. -/
theorem isTerm (reads : ReadsBack e) (same : e.operands .add = d :: others)
    (several : others ≠ []) : d.IsTerm := by
  obtain ⟨l, read⟩ := reads.exists_level
  have operands : e.relabelled.operands .add = d.relabelled :: others.map Expr.relabelled := by
    rw [Expr.operands_relabelled, same, List.map_cons]
  have outcome := flatten_tree_eq_or_bent .additive l
  rw [← read] at outcome
  rw [← Expr.isTerm_relabelled]
  rcases outcome with sum | bent
  · rw [sum, operands_sum fun f _ => f.root?_found] at operands
    exact isTerm_of_mem_products Factor.root?_found (operands ▸ List.mem_cons_self)
  · exact bent.isTerm_of_lt operands (by simpa using several)

/-- If all operands are terms, then what the text reads as is the sum of the terms of a level. -/
theorem exists_products (reads : ReadsBack e) (terms : ∀ d ∈ e.operands .add, d.IsTerm) :
    ∃ l : Level, e.relabelled = (l.tree .additive).flatten ∧
      l.products Factor.found = (e.operands .add).map Expr.relabelled := by
  obtain ⟨l, read⟩ := reads.exists_level
  have outcome := flatten_tree_eq_or_bent .additive l
  rw [← read] at outcome
  have sum : e.relabelled = l.sum Factor.found := by
    refine outcome.resolve_right ?_
    rintro ⟨before, last, split, -, noTerm⟩
    rw [Expr.operands_relabelled] at split
    obtain ⟨d, member, rfl⟩ := List.mem_map.1 (split ▸ List.mem_append_right before
      List.mem_cons_self : last ∈ (e.operands .add).map Expr.relabelled)
    exact noTerm (Expr.isTerm_relabelled.2 (terms d member))
  refine ⟨l, read, ?_⟩
  rw [← operands_sum fun f _ => f.root?_found, ← sum, Expr.operands_relabelled]

/-- In a sum of terms, a group is not in the second one of three or more, if that one or the
last is a product. -/
theorem root?_ne_mul (reads : ReadsBack e) (same : e.operands .add = x :: t :: (us ++ [u]))
    (terms : ∀ d ∈ e.operands .add, d.IsTerm) (group : t.HasGroup) :
    ¬ (t.root? = some .mul ∨ u.root? = some .mul) := by
  intro long
  obtain ⟨l, read, products⟩ := reads.exists_products terms
  rw [same, Level.products] at products
  obtain ⟨X, ts, split, -, products⟩ := List.map_eq_cons_iff.1 products
  obtain ⟨T, ts', rfl, termT, products⟩ := List.map_eq_cons_iff.1 products
  rw [List.map_append, List.map_singleton] at products
  obtain ⟨Us, ts'', rfl, -, products⟩ := List.map_eq_append_iff.1 products
  obtain ⟨U, rest, rfl, termU, nothing⟩ := List.map_eq_cons_iff.1 products
  obtain rfl := List.map_eq_nil_iff.1 nothing
  have someT : T ≠ [] := ne_nil_of_mem_terms (l := l) (by simp [split])
  have someU : U ≠ [] := ne_nil_of_mem_terms (l := l) (by simp [split])
  have groupT : ∃ f ∈ T, f.IsGroup :=
    (faithful_found.hasGroup_product someT).1 (termT ▸ Expr.hasGroup_relabelled.2 group)
  have longT : T.length ≠ 1 ∨ U.length ≠ 1 := by
    rw [← faithful_found.root?_product someT, ← faithful_found.root?_product someU, termT, termU,
      Expr.root?_relabelled, Expr.root?_relabelled]
    exact long
  -- Such a level reads as two operands, and here there are three or more.
  have two := length_operands_of_group split groupT longT
  rw [← read, Expr.operands_relabelled, same] at two
  simp at two

theorem groups (reads : ReadsBack e) : e.All fun content operands =>
    ∀ label inner, content = .parenthetical label → operands = [inner] → ReadsBack inner := by
  have all : e.relabelled.All fun content operands => ∀ label inner,
      content = .parenthetical label → operands = [inner] →
        parse {} (Expr.text inner) = .ok inner := by
    refine all_of_parse reads (by simp) (by simp) ?_
    rintro m spaceless label inner - ⟨⟩
    exact parse_text_read {} spaceless
  refine (Expr.all_of_all_relabelled all).mono ?_
  rintro content operands here label inner rfl rfl
  have read := here _ (Expr.relabelled inner) rfl rfl
  rwa [Expr.text_relabelled] at read

end ReadsBack

/-! ## Levels that are not calm -/

/-- Among three or more, one can be brought to the second place, and another one to the last
unless it is the same. -/
theorem exists_perm_second {α : Type u} {P Q : α → Prop} {xs : List α} (several : 2 < xs.length)
    (first : ∃ x ∈ xs, P x) (other : ∃ y ∈ xs, Q y) :
    ∃ a b ys c, xs.Perm (a :: b :: (ys ++ [c])) ∧ P b ∧ (Q b ∨ Q c) := by
  obtain ⟨b, member, here⟩ := first
  obtain ⟨before, after, rfl⟩ := List.append_of_mem member
  have perm : (before ++ b :: after).Perm (b :: (before ++ after)) := List.perm_middle
  rw [perm.length_eq] at several
  obtain ⟨y, among, there⟩ := other
  rcases List.mem_cons.1 (perm.mem_iff.1 among) with rfl | later
  · match rest : before ++ after with
    | [] | [_] => simp [rest] at several
    | a :: d :: zs =>
        obtain ⟨ys, c, ends⟩ : ∃ ys c, d :: zs = ys ++ [c] :=
          ⟨_, _, (List.dropLast_append_getLast (List.cons_ne_nil d zs)).symm⟩
        rw [rest, ends] at perm
        exact ⟨a, y, ys, c, perm.trans (.swap a y _), here, .inl there⟩
  · obtain ⟨left, right, split⟩ := List.append_of_mem later
    rw [split] at perm several
    match rest : left ++ right with
    | [] =>
        obtain ⟨rfl, rfl⟩ := List.append_eq_nil_iff.1 rest
        simp at several
    | a :: zs =>
        have moved : (left ++ y :: right).Perm (a :: (zs ++ [y])) := by
          refine List.perm_middle.trans ?_
          rw [rest]
          exact (List.perm_append_singleton y (a :: zs)).symm
        exact ⟨a, b, zs, y, perm.trans ((moved.cons b).trans (.swap a b _)), here, .inr there⟩

/-- A level of several terms reads as a sum of at least two operands. -/
theorem exists_operands_tree (several : ¬ l.Uniform .mul) :
    ∃ es, (l.tree .additive).flatten = .operator .add es ∧ 2 ≤ es.length := by
  have some {l : Level} {e : Expr} (outcome : SumOrBent Factor.found l e) :
      1 ≤ (e.operands .add).length := by
    rcases outcome with rfl | ⟨before, last, same, -, -⟩
    · rw [operands_sum fun f _ => f.root?_found]
      exact List.length_pos_iff.2 (products_ne_nil l)
    · simp [same]
  cases found : (l.cuts .add).find? fun cut => cut.2.IsProduct with
  | none => exact absurd (uniform_of_find?_eq_none found) several
  | some cut =>
      rw [tree_additive, found, Expr.flatten_operator]
      refine ⟨_, rfl, ?_⟩
      have left := some (flatten_tree_eq_or_bent .additive cut.1)
      have right := some (flatten_tree_eq_or_bent .product cut.2)
      simp only [List.flatMap_cons, List.flatMap_nil, List.append_nil, List.length_append]
      omega

/-- **A level is calm if all rearrangements of what it reads as read back.** -/
theorem calm_of_readsBack (every : ∀ d, Tree.Rearranged (l.read {}) d → ReadsBack d) : l.Calm := by
  by_contra restless
  have several : ¬ l.Uniform .mul := fun uniform =>
    restless (.inl (by simp [terms_of_uniform_mul uniform]))
  rw [calm_iff faithful_found] at restless
  obtain ⟨long, group, product⟩ : 2 < (l.products Factor.found).length ∧
      (∃ d ∈ l.products Factor.found, d.HasGroup) ∧
        ∃ d ∈ l.products Factor.found, d.root? = some .mul := by
    simpa [Expr.CalmOperands] using restless
  obtain ⟨es, read, two⟩ := exists_operands_tree several
  have rearranged {ds : List Expr} (perm : es.Perm ds) : ReadsBack (.operator .add ds) := by
    refine every _ ?_
    show Tree.Rearranged (l.tree .additive).flatten _
    rw [read]
    exact Tree.Rearranged.of_perm (.operator .add) [] perm
  have outcome := flatten_tree_eq_or_bent .additive l
  rw [read] at outcome
  rcases outcome with sum | ⟨before, last, split, -, noTerm⟩
  · have whole : es = l.products Factor.found := by
      rw [← operands_sum fun f _ => f.root?_found, ← sum, Expr.operands_operator]
    obtain ⟨x, d, ys, c, perm, hasGroup, isProduct⟩ := exists_perm_second long group product
    rw [← whole] at perm
    refine (rearranged perm).root?_ne_mul Expr.operands_operator (fun e member => ?_) hasGroup
      isProduct
    rw [Expr.operands_operator, ← perm.mem_iff, whole] at member
    exact isTerm_of_mem_products Factor.root?_found member
  · rw [Expr.operands_operator] at split
    have some : before ≠ [] := by
      rintro rfl
      simp [split] at two
    have front : es.Perm (last :: before) := split ▸ List.perm_append_singleton last before
    exact noTerm ((rearranged front).isTerm Expr.operands_operator some)

/-- So are all levels in its groups. -/
theorem everywhere_calm_of_readsBack
    (every : ∀ d, Tree.Rearranged (l.read {}) d → ReadsBack d) : l.Everywhere Calm := by
  induction l using Level.induction_groups with
  | step l ih =>
      refine .intro (calm_of_readsBack every) fun m member => ih m member fun d rearranged => ?_
      have groups := Tree.all_of_forall_rearranged fun d other => (every d other).groups
      refine Level.of_all_flatten_tree (by simp) .additive l groups member [d] ?_ _ d rfl rfl
      exact rearranged.below (.parenthetical (groupLabel m.spelling)) [] []

/-- **Exactly where all levels of a text are calm**, each rearrangement of what it reads as reads
back. -/
theorem forall_readsBack_iff (parsed : parse {} text = .ok e) :
    (∀ d, Tree.Rearranged e d → ReadsBack d) ↔
      ∃ l : Level, l.spelling = strip text ∧ l.Everywhere Calm := by
  constructor
  · intro every
    obtain ⟨l, spelled, rfl⟩ := exists_level_of_parse parsed
    exact ⟨l, spelled, everywhere_calm_of_readsBack every⟩
  · rintro ⟨l, spelled, calm⟩ d rearranged
    exact readsBack_of_rearranged parsed spelled calm rearranged

end Grammar

end OperatorTree
