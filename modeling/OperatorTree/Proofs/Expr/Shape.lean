/-
# OperatorTree.Proofs.Expr.Shape -- how many children the nodes of an expression have

Three properties of the nodes of an expression matter:

* `Expr.Shaped`: a literal has no child and a pair of parentheses has one;
* `Expr.Filled`: an operator has an operand;
* `Expr.Wide k`: an operator has at least `k` operands.

The rules of the grammar give each node the children of its kind, and operators two
operands each (`Reads.all`).  Flattening leaves operators as many operands as they had,
or more (`Wide.flatten`).
-/
import OperatorTree.Proofs.Grammar.Reading
import OperatorTree.Proofs.Tree.Flatten

namespace OperatorTree

set_option autoImplicit false

universe u

/-- A node with this content may have so many children. -/
def Content.Fits : Content → Nat → Prop
  | .literal _, n => n = 0
  | .operator _, _ => True
  | .parenthetical _, n => n = 1

theorem Content.fits_of_operator? {content : Content} {op : Operator}
    (isOperator : content.operator? = some op) (n : Nat) : content.Fits n := by
  rw [Content.operator?_eq_some_iff] at isOperator
  subst isOperator
  trivial

theorem Content.fits_of_relabel? {content new : Content} {text : String} {n : Nat}
    (relabelled : content.relabel? text = some new) (fits : content.Fits n) : new.Fits n := by
  cases content with
  | literal label =>
      simp only [relabel?, Option.some.injEq] at relabelled
      exact relabelled ▸ fits
  | operator op =>
      obtain ⟨named, -, rfl⟩ := Option.map_eq_some_iff.1 relabelled
      trivial
  | parenthetical label =>
      simp only [relabel?, Option.some.injEq] at relabelled
      exact relabelled ▸ fits

/-- A new label makes nothing an operator. -/
theorem Content.exists_operator_of_relabel? {content : Content} {op : Operator} {text : String}
    (relabelled : content.relabel? text = some (.operator op)) : ∃ op', content = .operator op' := by
  cases content with
  | operator op' => exact ⟨op', rfl⟩
  | literal label | parenthetical label => simp [relabel?] at relabelled

namespace Expr

/-- Literals have no child, and parentheses have one. -/
def Shaped (e : Expr) : Prop :=
  e.All fun content operands => content.Fits operands.length

/-- Operators have an operand. -/
def Filled (e : Expr) : Prop :=
  e.All fun content operands => ∀ op, content = .operator op → operands ≠ []

/-- Operators have at least `k` operands. -/
def Wide (k : Nat) (e : Expr) : Prop :=
  e.All fun content operands => ∀ op, content = .operator op → k ≤ operands.length

theorem wide_one_iff {e : Expr} : e.Wide 1 ↔ e.Filled := by
  simp only [Wide, Filled, Nat.one_le_iff_ne_zero, ne_eq, List.length_eq_zero_iff]

theorem Wide.filled {k : Nat} {e : Expr} (some : 1 ≤ k) (wide : e.Wide k) : e.Filled :=
  wide_one_iff.1 (wide.mono fun _ _ here op own => Nat.le_trans some (here op own))

/-! ## Flattening -/

theorem flatten_node (content : Content) (operands : List Expr) :
    Expr.flatten (.node content operands) =
      .node content (Tree.mergeBelow Content.operator? content (operands.map Expr.flatten)) :=
  Tree.flatten_node ..

theorem length_le_length_flatMap {α β : Type u} {f : α → List β} {xs : List α}
    (each : ∀ x ∈ xs, f x ≠ []) : xs.length ≤ (xs.flatMap f).length := by
  induction xs with
  | nil => exact Nat.le_refl _
  | cons x xs ih =>
      have first := List.length_pos_iff.2 (each x List.mem_cons_self)
      have others := ih fun y later => each y (List.mem_cons_of_mem x later)
      simp only [List.flatMap_cons, List.length_append, List.length_cons]
      omega

theorem Filled.merge_ne_nil {e : Expr} (filled : e.Filled) (op : Operator) :
    Tree.merge Content.operator? op e ≠ [] := by
  cases e with
  | node content operands =>
      unfold Tree.merge
      by_cases same : content.operator? = some op
      · rw [Tree.value_node, if_pos same]
        exact filled.here op (Content.operator?_eq_some_iff.1 same)
      · rw [Tree.value_node, if_neg same]
        simp

/-- Flattening takes no operand away: where one is merged, others take its place. -/
theorem Wide.flatten {k : Nat} {e : Expr} (some : 1 ≤ k) (wide : e.Wide k) :
    e.flatten.Wide k := by
  refine Tree.All.flatten wide fun content operands here each => ?_
  rintro op rfl
  calc k ≤ (operands.map Expr.flatten).length := by simpa using here op rfl
    _ ≤ ((operands.map Expr.flatten).flatMap (Tree.merge Content.operator? op)).length := by
      refine length_le_length_flatMap fun e member => ?_
      obtain ⟨d, among, rfl⟩ := List.mem_map.1 member
      exact Filled.merge_ne_nil (Wide.filled some (each d among)) op

theorem Filled.flatten {e : Expr} (filled : e.Filled) : e.flatten.Filled :=
  wide_one_iff.1 ((wide_one_iff.2 filled).flatten (Nat.le_refl 1))

end Expr

/-! ## Texts -/

namespace Grammar

/-- What holds of each literal, of an operator with two operands and of each group that is read
holds of every node of a tree that is read. -/
theorem Reads.all {P : Content → List Expr → Prop}
    (literal : ∀ text, IsLiteral text → P (.literal (String.ofList text)) [])
    (operator : ∀ op left right, P (.operator op) [left, right])
    (group : ∀ inner e, Reads .expression inner e → P (.parenthetical (groupLabel inner)) [e])
    {p : Production} {text : List Char} {e : Expr} (reads : Reads p text e) : e.All P := by
  induction reads with
  | expressionAdditive _ ih | expressionAtom _ ih | additiveProduct _ ih | productAtom _ ih =>
      exact ih
  | additiveSum _ _ left right | productProduct _ _ left right =>
      exact .node (operator ..) (by simp [left, right])
  | atomLiteral valid => exact .node (literal _ valid) (by simp)
  | atomGroup read inside => exact .node (group _ _ read) (by simp [inside])
  | atomOperator read _ inside operand =>
      have grouped : (Expr.parenthetical _ _).All P := .node (group _ _ read) (by simp [inside])
      exact .node (operator ..) (by simp [grouped, operand])

theorem Reads.shaped {p : Production} {text : List Char} {e : Expr} (reads : Reads p text e) :
    e.Shaped :=
  reads.all (fun _ _ => rfl) (fun _ _ _ => trivial) fun _ _ _ => rfl

theorem Reads.wide {p : Production} {text : List Char} {e : Expr} (reads : Reads p text e) :
    e.Wide 2 :=
  reads.all (by simp) (by simp) (by simp)

end Grammar

end OperatorTree
