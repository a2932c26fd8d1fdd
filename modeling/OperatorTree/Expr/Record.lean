/-
# OperatorTree.Expr.Record -- expressions written out field by field

The record form of a node names its kind, its label in quotes and the list of
its children, each again in record form.  It comes on one line
(`record`), or over several (`recordLines`) with one item to a line, four
spaces for each level, a comma after every item, and `[]` for an empty list.
-/
import OperatorTree.Expr.Basic
import OperatorTree.Text.Quoted

namespace OperatorTree

set_option autoImplicit false

namespace Operator

/-- The operator's name in record form. -/
def recordName : Operator → String
  | add => "Add"
  | mul => "Multiply"

end Operator

namespace Expr

/-! ## One line -/

/-- A kind on one line. -/
def kindRecord : Kind → String
  | .literal => "Literal"
  | .operator op => "Operator(" ++ op.recordName ++ ")"
  | .parenthetical => "Parenthetical"

/-- The record of a node on one line, given those of its children. -/
def nodeRecord (content : Content) (children : List (List Char)) : List Char :=
  "Expression \x7b kind: ".toList ++ (kindRecord content.kind).toList
    ++ ", label: ".toList ++ Text.quoted content.label.toList
    ++ ", children: [".toList ++ ", ".toList.intercalate children ++ "] \x7d".toList

/-- The characters of the record form on one line. -/
def recordChars (e : Expr) : List Char :=
  e.fold nodeRecord

/-- The record form on one line. -/
def record (e : Expr) : String :=
  String.ofList (recordChars e)

@[simp] theorem recordChars_node (content : Content) (children : List Expr) :
    recordChars (.node content children) = nodeRecord content (children.map recordChars) :=
  Tree.fold_node ..

/-! ## Several lines -/

/-- The start of a line at a level. -/
def margin (level : Nat) : List Char :=
  List.replicate (4 * level) ' '

/-- An item on a line of its own, with the comma that ends it. -/
def item (level : Nat) (text : List Char) : List Char :=
  margin level ++ text ++ [',', '\n']

/-- A kind over several lines, its closing line at the given level. -/
def kindLines (level : Nat) : Kind → List Char
  | .literal => "Literal".toList
  | .operator op =>
    "Operator(\n".toList ++ item (level + 1) op.recordName.toList ++ margin level ++ [')']
  | .parenthetical => "Parenthetical".toList

/-- A list over several lines, its closing line at the given level. -/
def listLines (level : Nat) : List (List Char) → List Char
  | [] => ['[', ']']
  | items => ['[', '\n'] ++ items.flatMap (item (level + 1)) ++ margin level ++ [']']

/-- The record of a node over several lines, its closing line at the given level.
The children come as functions of their own level. -/
def nodeLines (content : Content) (children : List (Nat → List Char)) (level : Nat) : List Char :=
  "Expression \x7b\n".toList
    ++ item (level + 1) ("kind: ".toList ++ kindLines (level + 1) content.kind)
    ++ item (level + 1) ("label: ".toList ++ Text.quoted content.label.toList)
    ++ item (level + 1) ("children: ".toList ++ listLines (level + 1) (children.map (· (level + 2))))
    ++ margin level ++ ['\x7d']

/-- The characters of the record form over several lines, from a level on. -/
def recordLinesFrom (level : Nat) (e : Expr) : List Char :=
  e.fold nodeLines level

/-- The record form over several lines. -/
def recordLines (e : Expr) : String :=
  String.ofList (recordLinesFrom 0 e)

@[simp] theorem recordLinesFrom_node (level : Nat) (content : Content) (children : List Expr) :
    recordLinesFrom level (.node content children) =
      nodeLines content (children.map fun c l => recordLinesFrom l c) level := by
  simp only [recordLinesFrom, Tree.fold_node]

end Expr

end OperatorTree
