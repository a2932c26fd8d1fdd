/-
# OperatorTree.Grammar.Production -- the backtracking search for an expression

The grammar has four productions, each matched against a whole text:

    expression := additive | atom
    additive   := additive '+' product | product
    product    := product '*' product | atom
    atom       := group | group operator expression | literal

where a group is `( expression )` and its closing parenthesis is the one that
belongs to its opening one.  A binary production tries every cut of the text at
its symbol from left to right, the left part before the right one, and takes the
first cut where both parts match; only if none does it falls back to the next
production.  `search` performs exactly these trials and counts each use of a
production as an attempt, repeated and failing ones included.

Each production is used on a shorter text, or on the same text by a production
above it, so the search ends (`Production.measure`).  The equations
`search_expression`, `search_additive`, `search_product` and `search_atom` say
what each production does, and no proof needs to look further.
-/
import OperatorTree.Expr.Basic
import OperatorTree.Grammar.Cuts
import OperatorTree.Grammar.Search
import OperatorTree.Literal
import OperatorTree.Text.Brackets

namespace OperatorTree.Grammar

set_option autoImplicit false

/-- The productions of the grammar. -/
inductive Production where
  | expression
  | additive
  | product
  | atom
  deriving DecidableEq, Repr

namespace Production

/-- A production uses only lower ones on the same text. -/
def rank : Production → Nat
  | expression => 3
  | additive => 2
  | product => 1
  | atom => 0

/-- What a use of a production is smaller by than the use that it serves. -/
def measure (p : Production) (text : List Char) : Nat :=
  4 * text.length + p.rank

end Production

/-- The label of a group with the given contents. -/
def groupLabel (inner : List Char) : String :=
  String.ofList ('(' :: inner ++ [')'])

theorem length_of_group? {text inner rest : List Char}
    (grouped : Text.group? text = some (inner, rest)) :
    inner.length + rest.length + 2 = text.length := by
  rw [Text.eq_of_group? grouped]
  simp only [List.length_append, List.length_cons]
  omega

/-- Matches a production against a whole text, counting every use of a production. -/
def search : Production → List Char → Search Expr
  | .expression, text => .attempt (search .additive text <|> search .atom text)
  | .additive, text => .attempt
      (Search.first
        (fun i : { i // i ∈ cutPositions Operator.add.symbol text } => do
          let left ← search .additive (cutAt text i).1
          let right ← search .product (cutAt text i).2
          return .operator .add [left, right])
        (cutPositions Operator.add.symbol text).attach
      <|> search .product text)
  | .product, text => .attempt
      (Search.first
        (fun i : { i // i ∈ cutPositions Operator.mul.symbol text } => do
          let left ← search .product (cutAt text i).1
          let right ← search .product (cutAt text i).2
          return .operator .mul [left, right])
        (cutPositions Operator.mul.symbol text).attach
      <|> search .atom text)
  | .atom, text => .attempt
      (match _ : Text.group? text with
      | none => if IsLiteral text then pure (.literal (String.ofList text)) else .fail
      | some (inner, rest) => do
        let group := .parenthetical (groupLabel inner) (← search .expression inner)
        match _ : rest with
        | [] => return group
        | c :: operand =>
          match Operator.ofSymbol? c with
          | none => .fail
          | some op => return .operator op [group, ← search .expression operand])
termination_by p text => p.measure text
decreasing_by
  all_goals simp only [Production.measure, Production.rank]
  all_goals
    first
    | omega
    | have := length_of_mem_cutPositions i.2; omega
    | have := length_of_group? ‹Text.group? _ = _›
      subst_vars
      grind

/-! ## What each production does -/

/-- Matches two productions around an occurrence of an operator: the first cut of
the text at its symbol where both parts match. -/
def split (op : Operator) (left right : Production) (text : List Char) : Search Expr :=
  .first (fun cut => do
    let l ← search left cut.1
    let r ← search right cut.2
    return .operator op [l, r]) (cuts op.symbol text)

theorem first_attach_cutPositions (op : Operator) (left right : Production) (text : List Char) :
    Search.first (fun i : { i // i ∈ cutPositions op.symbol text } => do
      let l ← search left (cutAt text i).1
      let r ← search right (cutAt text i).2
      return Expr.operator op [l, r]) (cutPositions op.symbol text).attach =
        split op left right text := by
  rw [split, ← map_cutAt_cutPositions, Search.first_map]
  exact Search.first_attach (fun i => do
    let l ← search left (cutAt text i).1
    let r ← search right (cutAt text i).2
    return Expr.operator op [l, r]) _

/-- What may follow a group: nothing, or an operator and an expression. -/
def afterGroup (group : Expr) : List Char → Search Expr
  | [] => pure group
  | c :: operand =>
    match Operator.ofSymbol? c with
    | none => .fail
    | some op => return .operator op [group, ← search .expression operand]

theorem search_expression (text : List Char) :
    search .expression text = .attempt (search .additive text <|> search .atom text) := by
  rw [search]

theorem search_additive (text : List Char) :
    search .additive text =
      .attempt (split .add .additive .product text <|> search .product text) := by
  rw [search]
  exact congrArg (fun s => Search.attempt (s <|> _)) (first_attach_cutPositions ..)

theorem search_product (text : List Char) :
    search .product text =
      .attempt (split .mul .product .product text <|> search .atom text) := by
  rw [search]
  exact congrArg (fun s => Search.attempt (s <|> _)) (first_attach_cutPositions ..)

theorem search_atom (text : List Char) :
    search .atom text = .attempt
      (match Text.group? text with
      | none => if IsLiteral text then pure (.literal (String.ofList text)) else .fail
      | some (inner, rest) => do
        let e ← search .expression inner
        afterGroup (.parenthetical (groupLabel inner) e) rest) := by
  rw [search]
  congr 1
  split
  · rename_i none_; rw [none_]
  · rename_i inner rest grouped
    rw [grouped]
    congr 1
    funext e
    cases rest <;> rfl

end OperatorTree.Grammar
