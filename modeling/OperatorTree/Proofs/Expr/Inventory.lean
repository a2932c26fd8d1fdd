/-
# OperatorTree.Proofs.Expr.Inventory -- what is written, found again in the tree

The text of an expression is put together from its nodes, and each node can be found in
it: the runs between operators and parentheses are the labels of the literals
(`runs_spelling`), each opening parenthesis begins the text of one pair of parentheses
(`forall₂_openings_spelling`), and the operator characters are those between the operands
of the operators, one less than there are operands (`countP_spelling`).

None of this depends on how the operators bind, or on whether chains of one operator were
merged.  It does need that a literal is labelled by a literal, that operators have operands,
and for the parentheses that their labels are the texts they have now (`Grouped`).
-/
import Mathlib.Algebra.GroupWithZero.Nat
import Mathlib.Data.List.Forall2
import OperatorTree.Proofs.Expr.Spelling
import OperatorTree.Proofs.Grammar.Rereading
import OperatorTree.Proofs.Text.Brackets

namespace OperatorTree

set_option autoImplicit false

/-! ## Pieces of a text -/

namespace Text

/-- The longest pieces of a text without operators and parentheses, from left to right. -/
def runs (text : List Char) : List (List Char) :=
  (text.splitOnP (· ∈ ['+', '*', '(', ')'])).filter (· ≠ [])

theorem runs_nil : runs [] = [] := by
  simp [runs]

theorem runs_append_cons {c : Char} (between : c ∈ ['+', '*', '(', ')']) (left right : List Char) :
    runs (left ++ c :: right) = runs left ++ runs right := by
  rw [runs, List.splitOnP_append_cons left right (by simpa using between), List.filter_append]
  rfl

theorem runs_literal {text : List Char} (valid : IsLiteral text) : runs text = [text] := by
  have whole : ∀ c ∈ text, decide (c ∈ ['+', '*', '(', ')']) = false := by
    intro c member
    have allowed := valid.2 c member
    simp [Allowed, disallowed] at allowed
    simp [allowed]
  rw [runs, List.splitOnP_eq_singleton whole]
  simp [valid.1]

/-- How many operator characters there are in a text. -/
def symbols (text : List Char) : Nat :=
  text.countP fun c => c = '+' ∨ c = '*'

theorem symbols_append (left right : List Char) :
    symbols (left ++ right) = symbols left + symbols right :=
  List.countP_append

theorem symbols_literal {text : List Char} (valid : IsLiteral text) : symbols text = 0 := by
  rw [symbols, List.countP_eq_zero]
  intro c member
  have allowed := valid.2 c member
  simp [Allowed, disallowed] at allowed
  simp [allowed]

end Text

/-! ## Nodes of an expression -/

namespace Content

/-- The label of a literal. -/
def literal? : Content → Option String
  | literal label => some label
  | _ => none

/-- The label of a pair of parentheses. -/
def parenthetical? : Content → Option String
  | parenthetical label => some label
  | _ => none

end Content

namespace Expr

/-- The labels of the literals, from left to right. -/
def literals (e : Expr) : List String :=
  e.preorder.filterMap Content.literal?

/-- The labels of the pairs of parentheses, each before those inside it, from left to right. -/
def groups (e : Expr) : List String :=
  e.preorder.filterMap Content.parenthetical?

/-- The operator nodes in preorder, each with its operator and the number of its operands. -/
def arities (e : Expr) : List (Operator × Nat) :=
  e.fold fun content below =>
    (content.operator?.map fun op => (op, below.length)).toList ++ below.flatten

variable {e : Expr} {content : Content} {operands : List Expr}

theorem filterMap_preorder_node {α : Type} (f : Content → Option α) :
    (Tree.preorder (.node content operands)).filterMap f =
      (f content).toList ++ operands.flatMap fun e => e.preorder.filterMap f := by
  rw [Tree.preorder_node, List.filterMap_cons, List.filterMap_flatMap]
  cases f content <;> rfl

@[simp] theorem literals_node : literals (.node content operands) =
    content.literal?.toList ++ operands.flatMap literals :=
  filterMap_preorder_node _

@[simp] theorem groups_node : groups (.node content operands) =
    content.parenthetical?.toList ++ operands.flatMap groups :=
  filterMap_preorder_node _

@[simp] theorem arities_node : arities (.node content operands) =
    (content.operator?.map fun op => (op, operands.length)).toList ++
      operands.flatMap arities := by
  rw [arities, Tree.fold_node, List.length_map]
  rfl

/-! ## Literals -/

theorem runs_intercalate (op : Operator) (parts : List (List Char)) :
    Text.runs ([op.symbol].intercalate parts) = parts.flatMap Text.runs := by
  have between : op.symbol ∈ ['+', '*', '(', ')'] := by cases op <;> decide
  induction parts with
  | nil => exact Text.runs_nil
  | cons part parts ih =>
      by_cases last : parts = []
      · subst last
        rw [List.intercalate_singleton, List.flatMap_singleton]
      · rw [List.intercalate_cons_of_ne_nil last, List.append_assoc, List.singleton_append,
          Text.runs_append_cons between, ih, List.flatMap_cons]

/-- The runs of the text are the labels of the literals. -/
theorem runs_spelling (shaped : e.Shaped) (lettered : e.Lettered) :
    Text.runs e.spelling = e.literals.map String.toList := by
  induction e using Tree.induction with
  | step content operands ih =>
      have each : operands.flatMap (fun d => Text.runs (spelling d)) =
          (operands.flatMap literals).map String.toList := by
        rw [List.map_flatMap]
        exact List.flatMap_congr fun d member =>
          ih d member (shaped.of_mem d member) (lettered.of_mem d member)
      rw [spelling_node, literals_node]
      cases content with
      | literal label =>
          obtain rfl := List.length_eq_zero_iff.1 shaped.here
          exact Text.runs_literal (lettered.here label rfl).1
      | operator op =>
          rw [compose, runs_intercalate, List.flatMap_map, each]
          rfl
      | parenthetical label =>
          obtain ⟨inner, rfl⟩ := List.length_eq_one_iff.1 shaped.here
          have opened : Text.runs ('(' :: (spelling inner ++ [')'])) =
              Text.runs [] ++ Text.runs (spelling inner ++ [')']) :=
            Text.runs_append_cons (by decide) [] _
          have closed : Text.runs (spelling inner ++ [')']) =
              Text.runs (spelling inner) ++ Text.runs [] :=
            Text.runs_append_cons (by decide) _ []
          simpa [compose, opened, closed, Text.runs_nil, Content.literal?] using each

/-! ## Operators -/

/-- How many operands of operators there are beside the first ones. -/
def joints (e : Expr) : Nat :=
  (e.arities.map fun node => node.2 - 1).sum

@[simp] theorem joints_node : joints (.node content operands) =
    (content.operator?.elim 0 fun _ => operands.length - 1) + (operands.map joints).sum := by
  have below : ((operands.flatMap arities).map fun node => node.2 - 1).sum =
      (operands.map joints).sum := by
    rw [List.map_flatMap, List.flatMap_def, List.sum_flatten, List.map_map]
    rfl
  rw [joints, arities_node, List.map_append, List.sum_append, below]
  cases content.operator? <;> simp

theorem symbols_intercalate (op : Operator) {parts : List (List Char)} (some : parts ≠ []) :
    Text.symbols ([op.symbol].intercalate parts) =
      parts.length - 1 + (parts.map Text.symbols).sum := by
  have symbol : Text.symbols [op.symbol] = 1 := by cases op <;> decide
  induction parts with
  | nil => exact absurd rfl some
  | cons part parts ih =>
      by_cases last : parts = []
      · subst last
        simp
      · have := List.length_pos_iff.2 last
        rw [List.intercalate_cons_of_ne_nil last, Text.symbols_append, Text.symbols_append, symbol,
          ih last, List.map_cons, List.sum_cons, List.length_cons]
        omega

/-- The operator characters of the text are those between operands. -/
theorem symbols_spelling (shaped : e.Shaped) (filled : e.Filled) (lettered : e.Lettered) :
    Text.symbols e.spelling = e.joints := by
  induction e using Tree.induction with
  | step content operands ih =>
      have each : (operands.map spelling).map Text.symbols = operands.map joints := by
        rw [List.map_map]
        exact List.map_congr_left fun d member =>
          ih d member (shaped.of_mem d member) (filled.of_mem d member) (lettered.of_mem d member)
      rw [spelling_node, joints_node, ← each]
      cases content with
      | literal label =>
          obtain rfl := List.length_eq_zero_iff.1 shaped.here
          exact Text.symbols_literal (lettered.here label rfl).1
      | operator op =>
          have some : operands.map spelling ≠ [] := by simpa using filled.here op rfl
          rw [compose, symbols_intercalate op some, List.length_map]
          rfl
      | parenthetical label =>
          obtain ⟨inner, rfl⟩ := List.length_eq_one_iff.1 shaped.here
          have opening : Text.symbols ['('] = 0 := by decide
          have closing : Text.symbols [')'] = 0 := by decide
          rw [compose, ← List.singleton_append, Text.symbols_append, Text.symbols_append, opening,
            closing]
          simp [Content.operator?]

/-- If each operator has two operands, there is an operator node for each joint. -/
theorem joints_eq_length_arities
    (pairs : e.All fun content operands => ∀ op, content = .operator op → operands.length = 2) :
    e.joints = e.arities.length := by
  induction e using Tree.induction with
  | step content operands ih =>
      have each : operands.map joints = operands.map fun d => (arities d).length :=
        List.map_congr_left fun d member => ih d member (pairs.of_mem d member)
      rw [joints_node, arities_node, List.length_append, List.length_flatMap, each]
      cases content with
      | operator op => simp [Content.operator?, pairs.here op rfl]
      | literal label | parenthetical label => simp [Content.operator?]

/-! ## Parentheses -/

/-- The labels of parentheses are the texts that they have, from the opening one to the one
that closes it. -/
def Grouped (e : Expr) : Prop :=
  e.All fun content operands => ∀ label, content = .parenthetical label →
    Expr.text (.node content operands) = label ∧ Text.Enclosed label.toList

/-- The label of a pair of parentheses is what a text begins with. -/
def Begins (label : String) (text : List Char) : Prop :=
  label.toList <+: text ∧ Text.Enclosed label.toList

theorem forall₂_intercalate (op : Operator)
    (each : ∀ d ∈ operands, ∀ rest,
      List.Forall₂ Begins d.groups ((Text.openings d.spelling).map (· ++ rest)))
    (rest : List Char) :
    List.Forall₂ Begins (operands.flatMap groups)
      ((Text.openings ([op.symbol].intercalate (operands.map spelling))).map (· ++ rest)) := by
  have noOpening : op.symbol ≠ '(' := by cases op <;> decide
  induction operands with
  | nil => exact .nil
  | cons d operands ih =>
      have later := ih fun c member => each c (List.mem_cons_of_mem d member)
      have first := each d List.mem_cons_self
      by_cases last : operands = []
      · subst last
        simpa using first rest
      · have parts : operands.map spelling ≠ [] := by simpa using last
        rw [List.map_cons, List.intercalate_cons_of_ne_nil parts, List.append_assoc,
          List.singleton_append, Text.openings_append, Text.openings_cons_of_ne noOpening,
          List.map_append, List.map_map, List.flatMap_cons]
        refine List.rel_append ?_ later
        simpa only [Function.comp_def, List.append_assoc] using first _

/-- Each opening parenthesis of the text begins the label of one pair of parentheses. -/
theorem forall₂_openings_spelling (shaped : e.Shaped) (lettered : e.Lettered) (grouped : e.Grouped)
    (rest : List Char) :
    List.Forall₂ Begins e.groups ((Text.openings e.spelling).map (· ++ rest)) := by
  induction e using Tree.induction generalizing rest with
  | step content operands ih =>
      have each : ∀ d ∈ operands, ∀ rest,
          List.Forall₂ Begins (groups d) ((Text.openings (spelling d)).map (· ++ rest)) :=
        fun d member =>
          ih d member (shaped.of_mem d member) (lettered.of_mem d member) (grouped.of_mem d member)
      rw [groups_node]
      cases content with
      | literal label =>
          obtain rfl := List.length_eq_zero_iff.1 shaped.here
          have none : '(' ∉ label.toList := fun opening =>
            absurd ((lettered.here label rfl).1.2 _ opening) (by decide)
          rw [spelling_node, compose, Text.openings_of_not_mem none]
          exact .nil
      | operator op =>
          rw [spelling_node]
          exact forall₂_intercalate op each rest
      | parenthetical label =>
          obtain ⟨inner, rfl⟩ := List.length_eq_one_iff.1 shaped.here
          obtain ⟨written, enclosed⟩ := grouped.here label rfl
          have whole : label.toList = '(' :: (spelling inner ++ [')']) := by
            rw [← written, toList_text, spelling_node]
            simp [compose]
          have closing : Text.openings [')'] = [] := by decide
          have inside := each inner List.mem_cons_self ([')'] ++ rest)
          rw [spelling_node]
          simp only [compose, List.map_cons, List.map_nil, List.flatten_cons, List.flatten_nil,
            List.append_nil, List.cons_append, Text.openings_cons_opening, Text.openings_append,
            closing, List.map_map, Content.parenthetical?, Option.toList_some,
            List.nil_append, List.flatMap_cons, List.flatMap_nil]
          refine .cons ⟨?_, enclosed⟩ ?_
          · rw [whole]
            simp
          · simpa only [Function.comp_def, List.append_assoc] using inside

end Expr

end OperatorTree
