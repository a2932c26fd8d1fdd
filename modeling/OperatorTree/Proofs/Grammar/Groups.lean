/-
# OperatorTree.Proofs.Grammar.Groups -- what stands in parentheses is read by itself

A group is read as its contents are read alone, wherever it stands.  The operators around
it decide which production comes to it and with which remainder of the text, but nothing
of that reaches inside: the contents are always searched as a whole expression, and a
group in a tree is the tree of its contents under a label that spells them
(`Level.all_tree`).  Flattening does not merge across parentheses, so the same is so of
the trees that are given out (`all_groups_of_parse`).

In the other direction, a text in parentheses reads as one pair of parentheses around
what the text reads as (`parse_parenthesized`).
-/
import OperatorTree.Proofs.Expr.Join
import OperatorTree.Proofs.Grammar.Language
import OperatorTree.Proofs.Grammar.Rereading
import OperatorTree.Proofs.Grammar.Terms

namespace OperatorTree.Grammar

set_option autoImplicit false

variable {settings : Settings} {text : String} {e : Expr}

/-! ## The nodes of the tree of a level -/

/-- The property holds of a node for each literal and each group that is spelled with
characters of the text. -/
structure OfParts (P : Content → List Expr → Prop) (text : List Char) : Prop where
  literal : ∀ part, IsLiteral part → part ⊆ text → P (.literal (String.ofList part)) []
  group : ∀ inner : Level, inner.spelling ⊆ text →
    P (.parenthetical (groupLabel inner.spelling)) [inner.tree .additive]

theorem OfParts.mono {P : Content → List Expr → Prop} {text part : List Char}
    (parts : OfParts P text) (inside : part ⊆ text) : OfParts P part where
  literal s valid sub := parts.literal s valid (List.Subset.trans sub inside)
  group inner sub := parts.group inner (List.Subset.trans sub inside)

/-- What holds of literals and groups in a level, and of an operator with two operands, holds
of every node of the tree, whichever production made it. -/
theorem Level.all_tree {P : Content → List Expr → Prop}
    (operator : ∀ op left right, P (.operator op) [left, right]) (p : Production) (l : Level)
    (parts : OfParts P l.spelling) : (l.tree p).All P := by
  have sides : ∀ {op : Operator} {l left right : Level}, (left, right) ∈ l.cuts op →
      left.spelling ⊆ l.spelling ∧ right.spelling ⊆ l.spelling := by
    intro op l left right member
    rw [mem_cuts.1 member, spelling_append]
    exact ⟨List.subset_append_left .., fun c inside => by simp [inside]⟩
  have pair : ∀ {op : Operator} {a b : Expr}, a.All P → b.All P → (Expr.operator op [a, b]).All P :=
    fun {op a b} left right => .node (operator op a b) (by simp [left, right])
  induction p, l using Level.tree.induct with
  | case1 l ih =>
      rw [tree_expression]
      exact ih parts
  | case2 l left right found ihLeft ihRight =>
      obtain ⟨insideLeft, insideRight⟩ := sides (List.mem_of_find?_eq_some found)
      rw [tree_additive, found]
      exact pair (ihLeft (parts.mono insideLeft)) (ihRight (parts.mono insideRight))
  | case3 l none ih =>
      rw [tree_additive, none]
      exact ih parts
  | case4 l left right found ihLeft ihRight =>
      obtain ⟨insideLeft, insideRight⟩ := sides (List.mem_of_find?_eq_some found)
      rw [tree_product, found]
      exact pair (ihLeft (parts.mono insideLeft)) (ihRight (parts.mono insideRight))
  | case5 l none ih =>
      rw [tree_product, none]
      exact ih parts
  | case6 text valid =>
      rw [tree_literal]
      exact .node (parts.literal text valid (List.Subset.refl _)) (by simp)
  | case7 inner ih =>
      have inside : inner.spelling ⊆ (single (.group inner)).spelling := fun c inside => by
        simp [spelling, Factor.spelling, inside]
      rw [tree_group]
      refine .node (parts.group inner inside) fun t member => ?_
      rw [List.mem_singleton.1 member, ← tree_expression]
      exact ih (parts.mono inside)
  | case8 f op rest ihFirst ihRest =>
      have first : (single f).spelling ⊆ (cons f op rest).spelling := List.subset_append_left ..
      have later : rest.spelling ⊆ (cons f op rest).spelling := fun c inside => by
        simp [spelling, inside]
      rw [tree_atom_cons]
      exact pair (ihFirst (parts.mono first)) (ihRest (parts.mono later))

/-! ## Texts in parentheses -/

/-- What a level reads as, with the settings. -/
def Level.read (settings : Settings) (l : Level) : Expr :=
  if settings.flatten then Expr.flatten (l.tree .additive) else l.tree .additive

/-- A text that reads is spelled by a level, and reads as the tree of it. -/
theorem exists_level_of_parse (parsed : parse settings text = .ok e) :
    ∃ l : Level, l.spelling = strip text ∧ e = l.read settings := by
  obtain ⟨l, spelled⟩ :=
    (isSome_found_expression_iff _).1 ((exists_parse_iff settings text).1 ⟨e, parsed⟩)
  exact ⟨l, spelled, Except.ok.inj (parsed.symm.trans (parse_of_spelling_eq l spelled))⟩

/-- A text that is a level in parentheses. -/
theorem parse_group (inner : Level) (spelled : (Factor.group inner).spelling = strip text) :
    parse settings text =
      .ok (.parenthetical (groupLabel inner.spelling) (inner.read settings)) := by
  rw [parse_of_spelling_eq (.single (.group inner)) spelled, Level.tree_additive_single,
    Level.tree_group, Level.read]
  cases settings.flatten with
  | false => rfl
  | true => rw [if_pos rfl, if_pos rfl, Expr.flatten_parenthetical]

/-- A text in parentheses reads as the pair of parentheses around what the text reads as. -/
theorem parse_parenthesized (parsed : parse settings text = .ok e) :
    parse settings ("(" ++ text ++ ")") =
      .ok (.parenthetical ("(" ++ String.ofList (strip text) ++ ")") e) := by
  obtain ⟨l, spelled, rfl⟩ := exists_level_of_parse parsed
  have whole : (Factor.group l).spelling = strip ("(" ++ text ++ ")") := by
    simp [Factor.spelling, spelled, strip]
  have label : groupLabel l.spelling = "(" ++ String.ofList (strip text) ++ ")" := by
    rw [← String.toList_inj]
    simp [groupLabel, spelled]
  rw [parse_group l whole, label]

theorem strip_groupLabel {inner : Level} (spaceless : ' ' ∉ inner.spelling) :
    strip (groupLabel inner.spelling) = (Factor.group inner).spelling := by
  have other : ∀ c ∈ inner.spelling, ¬ c = ' ' := fun c inside same => spaceless (same ▸ inside)
  simpa [strip, groupLabel, Factor.spelling] using other

/-- The label of a group of a text without spaces reads as the group. -/
theorem parse_groupLabel (settings : Settings) {inner : Level} (spaceless : ' ' ∉ inner.spelling) :
    parse settings (groupLabel inner.spelling) =
      .ok (.parenthetical (groupLabel inner.spelling) (inner.read settings)) :=
  parse_group inner (strip_groupLabel spaceless).symm

/-- What a level without spaces reads as is written as a text that reads as it. -/
theorem parse_text_read (settings : Settings) {l : Level} (spaceless : ' ' ∉ l.spelling) :
    parse settings (Expr.text (l.read settings)) = .ok (l.read settings) := by
  have whole : l.spelling = strip (String.ofList l.spelling) := by
    rw [strip_of_space_not_mem (by rwa [String.toList_ofList]), String.toList_ofList]
  exact parse_text (parse_of_spelling_eq l whole)

/-! ## The nodes of what a text reads as -/

/-- The nodes of what a text reads as, by the parts of the text that stand for them. -/
theorem all_parts_of_parse {P : Content → List Expr → Prop} (parsed : parse settings text = .ok e)
    (operator : ∀ op operands, P (.operator op) operands)
    (literal : ∀ part, IsLiteral part → part ⊆ strip text → P (.literal (String.ofList part)) [])
    (group : ∀ inner : Level, inner.spelling ⊆ strip text →
      P (.parenthetical (groupLabel inner.spelling)) [inner.read settings]) : e.All P := by
  obtain ⟨l, spelled, rfl⟩ := exists_level_of_parse parsed
  rw [← spelled] at literal group
  unfold Level.read at group ⊢
  cases flatten : settings.flatten with
  | false =>
      simp only [flatten] at group
      exact l.all_tree (fun op left right => operator op [left, right]) .additive ⟨literal, group⟩
  | true =>
      simp only [flatten, if_true] at group
      have merged := l.all_tree (P := fun content operands =>
        (∃ op, content = .operator op) ∨ P content (operands.map Expr.flatten))
        (fun op _ _ => .inl ⟨op, rfl⟩) .additive
        ⟨fun part valid inside => .inr (literal part valid inside),
          fun inner inside => .inr (group inner inside)⟩
      refine merged.flatten fun content operands here _ => ?_
      cases content with
      | operator op => exact operator op _
      | literal label | parenthetical label =>
          rw [Tree.mergeBelow_of_none rfl]
          exact here.resolve_left (by simp)

theorem space_not_mem_of_subset {part : List Char} (inside : part ⊆ strip text) : ' ' ∉ part := by
  intro space
  simpa [strip] using inside space

/-- The nodes of what a text reads as, by texts without spaces that stand for them. -/
theorem all_of_parse {P : Content → List Expr → Prop} (parsed : parse settings text = .ok e)
    (operator : ∀ op operands, P (.operator op) operands)
    (literal : ∀ part, IsLiteral part → ' ' ∉ part → P (.literal (String.ofList part)) [])
    (group : ∀ inner : Level, ' ' ∉ inner.spelling →
      P (.parenthetical (groupLabel inner.spelling)) [inner.read settings]) : e.All P :=
  all_parts_of_parse parsed operator
    (fun part valid inside => literal part valid (space_not_mem_of_subset inside))
    fun inner inside => group inner (space_not_mem_of_subset inside)

/-- **Each group of what a text reads as is what the label of the group reads as.** -/
theorem all_groups_of_parse (parsed : parse settings text = .ok e) :
    e.All fun content operands => ∀ label, content = .parenthetical label →
      parse settings label = .ok (.node content operands) := by
  refine all_of_parse parsed (by simp) (by simp) ?_
  rintro inner spaceless label ⟨⟩
  exact parse_groupLabel settings spaceless

/-- A property of all nodes that operators have anyway is one of all nodes of the operands. -/
theorem all_of_all_operands {P : Content → List Expr → Prop}
    (operator : ∀ op operands, P (.operator op) operands) (op : Operator)
    (each : ∀ d ∈ e.operands op, d.All P) : e.All P := by
  by_cases own : e.root? = some op
  · cases e with
    | node content operands =>
        obtain rfl := Content.operator?_eq_some_iff.1 own
        rw [Expr.operands_operator] at each
        exact .node (operator op operands) each
  · rw [Expr.operands_of_ne own] at each
    exact each e List.mem_cons_self

/-- Each group of a level is a node of the flattened tree of the level. -/
theorem Level.of_all_flatten_tree {P : Content → List Expr → Prop}
    (operator : ∀ op operands, P (.operator op) operands) (p : Production) (l : Level)
    (all : (l.tree p).flatten.All P) {m : Level} (member : .group m ∈ l.factors) :
    P (.parenthetical (groupLabel m.spelling)) [m.read {}] := by
  -- What is said of a flattened operator node is said of the operands that it was made of.
  have sides {op : Operator} {a b : Expr} (all : (Expr.operator op [a, b]).flatten.All P) :
      a.flatten.All P ∧ b.flatten.All P := by
    rw [Expr.flatten_operator] at all
    exact ⟨all_of_all_operands operator op fun d inside => all.of_mem d (by simp [inside]),
      all_of_all_operands operator op fun d inside => all.of_mem d (by simp [inside])⟩
  induction p, l using Level.tree.induct with
  | case1 l ih =>
      rw [tree_expression] at all
      exact ih all member
  | case2 l left right found ihLeft ihRight =>
      rw [tree_additive, found] at all
      rw [Level.mem_cuts.1 (List.mem_of_find?_eq_some found), factors_append,
        List.mem_append] at member
      exact member.elim (ihLeft (sides all).1) (ihRight (sides all).2)
  | case3 l none ih =>
      rw [tree_additive, none] at all
      exact ih all member
  | case4 l left right found ihLeft ihRight =>
      rw [tree_product, found] at all
      rw [Level.mem_cuts.1 (List.mem_of_find?_eq_some found), factors_append,
        List.mem_append] at member
      exact member.elim (ihLeft (sides all).1) (ihRight (sides all).2)
  | case5 l none ih =>
      rw [tree_product, none] at all
      exact ih all member
  | case6 text valid => simp [factors] at member
  | case7 inner ih =>
      obtain rfl : m = inner := by simpa [factors] using member
      rw [tree_group, Expr.flatten_parenthetical] at all
      exact all.here
  | case8 f op rest ihFirst ihRest =>
      rw [tree_atom_cons] at all
      rcases List.mem_cons.1 member with rfl | later
      · exact ihFirst (sides all).1 List.mem_cons_self
      · exact ihRest (sides all).2 later

/-- Literals of what a text reads as have literals without spaces for their labels. -/
theorem lettered_of_parse (parsed : parse settings text = .ok e) : e.Lettered := by
  refine all_of_parse parsed (by simp) ?_ (by simp)
  rintro part valid spaceless label ⟨⟩
  simpa using ⟨valid, spaceless⟩

end OperatorTree.Grammar
