/-
# OperatorTree.Session.Command -- what a session is asked, and what it answers

A command names its nodes by registers.  A change may set a register (`dst`) to
the node that it makes or finds; a question leaves the session as it is.  A
command is answered or refused, and on the way reports events.
-/
import OperatorTree.Grammar.Parse
import OperatorTree.Store.Edit

namespace OperatorTree.Session

set_option autoImplicit false

/-- Commands that may change the session. -/
inductive Change where
  /-- Makes a literal; any label will do. -/
  | literal (dst label : String)
  /-- Makes an operator node over two nodes. -/
  | operator (dst : String) (op : Operator) (left right : String)
  /-- Makes a pair of parentheses around a node. -/
  | parenthetical (dst label inner : String)
  /-- Reads a text and makes the nodes of its expression. -/
  | parse (dst : String) (settings : Grammar.Settings) (text : String)
  /-- Makes a literal if the label may be one. -/
  | validate (dst label : String)
  /-- Goes to the child at a position. -/
  | child (dst of : String) (index : Nat)
  /-- Goes to the parent. -/
  | parent (dst of : String)
  /-- Goes to the root. -/
  | root (dst of : String)
  /-- Names the same node again. -/
  | clone (dst of : String)
  /-- Copies the tree below a node into new nodes. -/
  | deepCopy (dst of : String)
  /-- Forgets a register. -/
  | drop (of : String)
  /-- Attaches a node as the last child of another one. -/
  | addChild (of child : String)
  /-- Gives a node a new label. -/
  | setLabel (of label : String)
  /-- Exchanges two siblings. -/
  | swap (a b : String)
  /-- Merges chains of one operator in the tree below a node. -/
  | flatten (of : String)
  /-- Changes nothing. -/
  | rest
  deriving DecidableEq, Repr

/-- Commands that only ask. -/
inductive Question where
  | kind (of : String)
  | operator (of : String)
  | label (of : String)
  | children (of : String)
  | childCount (of : String)
  | isRoot (of : String)
  | ancestors (of : String)
  /-- Whether two registers name one node. -/
  | same (a b : String)
  /-- Whether two nodes are equal in structure. -/
  | equal (a b : String)
  | text (of : String)
  | outline (of : String)
  | record (of : String)
  /-- Whether child lists and links agree in the tree below a node. -/
  | linked (of : String)
  deriving DecidableEq, Repr

/-- A command. -/
inductive Command where
  | change (c : Change)
  | question (q : Question)
  deriving DecidableEq, Repr

/-- The answer to a command. -/
inductive Answer where
  /-- The change was made. -/
  | done
  /-- There is nothing to set the register to, so nothing was changed. -/
  | absent
  | kind (k : Kind)
  | operator (op : Option Operator)
  | text (s : String)
  | labels (ls : List String)
  | count (n : Nat)
  | truth (b : Bool)
  /-- Nodes by their contents. -/
  | nodes (ns : List Content)
  deriving DecidableEq, Repr

/-- Why a command was refused. -/
inductive Refusal where
  /-- A register is not set. -/
  | noRegister (name : String)
  | node (e : NodeError)
  | parse (e : Grammar.ParseError)
  deriving DecidableEq, Repr

/-- What is reported while a command is carried out. -/
inductive Event where
  /-- A text without its spaces was searched for an expression. -/
  | parsed (input : String) (attempts : Nat) (matched : Bool)
  /-- A child was merged into its parent. -/
  | merged (index count : Nat)
  /-- Two siblings were exchanged. -/
  | swapped (this other : Nat)
  deriving DecidableEq, Repr

end OperatorTree.Session
