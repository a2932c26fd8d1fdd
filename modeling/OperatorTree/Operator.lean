/-
# OperatorTree.Operator -- the two operators and the characters that write them

An operator is `+` or `*`.  Each has one symbol, and a label names an operator
exactly when it is that one character (`ofLabel?_eq_some_iff`), so relabelling
an operator node can only turn it into the other one.
-/

namespace OperatorTree

set_option autoImplicit false

/-- A binary operator. -/
inductive Operator where
  | add
  | mul
  deriving DecidableEq, Repr

namespace Operator

/-- The character that writes the operator. -/
def symbol : Operator → Char
  | add => '+'
  | mul => '*'

/-- The operator that a character writes, if it writes one. -/
def ofSymbol? (c : Char) : Option Operator :=
  if c = '+' then some add else if c = '*' then some mul else none

/-- The symbol as a text of one character. -/
def label (op : Operator) : String :=
  String.singleton op.symbol

/-- The operator that a label names: the label has to be one symbol and nothing else. -/
def ofLabel? (label : String) : Option Operator :=
  match label.toList with
  | [c] => ofSymbol? c
  | _ => none

@[simp] theorem ofSymbol?_symbol (op : Operator) : ofSymbol? op.symbol = some op := by
  cases op <;> rfl

/-- The symbols are characters of ASCII. -/
theorem toNat_symbol_lt (op : Operator) : op.symbol.toNat < 128 := by
  cases op <;> decide

theorem symbol_injective {a b : Operator} (same : a.symbol = b.symbol) : a = b := by
  have := congrArg ofSymbol? same
  simpa using this

theorem ofSymbol?_eq_some_iff {c : Char} {op : Operator} :
    ofSymbol? c = some op ↔ c = op.symbol := by
  constructor
  · intro named
    simp only [ofSymbol?] at named
    split at named
    · cases named; assumption
    · split at named
      · cases named; assumption
      · simp at named
  · rintro rfl
    exact ofSymbol?_symbol op

@[simp] theorem toList_label (op : Operator) : op.label.toList = [op.symbol] := by
  simp [label]

theorem ofLabel?_eq_some_iff {text : String} {op : Operator} :
    ofLabel? text = some op ↔ text = op.label := by
  rw [← String.toList_inj, toList_label, ofLabel?]
  split
  · rename_i c single
    simp [single, ofSymbol?_eq_some_iff]
  · rename_i several
    simp only [reduceCtorEq, false_iff]
    exact fun single => several _ single

end Operator

end OperatorTree
