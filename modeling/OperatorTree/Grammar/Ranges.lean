/-
# OperatorTree.Grammar.Ranges -- the search made on ranges of bytes

The search as it runs on a text that is kept as bytes.  A production is used
between two positions, and nothing is copied: a cut is the position of one byte, and
what belongs to a group is found by counting its parentheses.  Whatever is matched is
made into nodes at once, by the same edits that make nodes otherwise, and what was
made for a match that fails later is not held by anything.

All that can go wrong stops the search with a `Fault`: a part of the text that is not
between two boundaries, a byte past the end, a node that is refused, and uses of
productions that are nested too deeply.  The search keeps a record of the productions
that it used and of the bytes that it read (`Work`).
-/
import OperatorTree.Grammar.Parse
import OperatorTree.Store.Edit
import OperatorTree.Text.Bytes

namespace OperatorTree.Grammar

set_option autoImplicit false

/-- What stops a search. -/
inductive Fault where
  /-- There is no such part of the text. -/
  | noSlice (start stop : Nat)
  /-- There is no byte at the position. -/
  | noByte (i : Nat)
  /-- The nodes do not go together. -/
  | refused (e : NodeError)
  /-- The uses of productions are nested too deeply. -/
  | tooDeep
  deriving DecidableEq, Repr

/-- A production is used from one position to another. -/
structure Use where
  production : Production
  start : Nat
  stop : Nat
  deriving DecidableEq, Repr

/-- A byte is read on behalf of a use that ends at `stop`. -/
structure Access where
  i : Nat
  stop : Nat
  deriving DecidableEq, Repr

/-- What a search has done. -/
structure Work where
  /-- The nodes that were there, and those that the search has made. -/
  store : Store
  /-- The uses of productions, in order. -/
  uses : List Use
  /-- The bytes that were read, in order. -/
  accesses : List Access
  deriving DecidableEq, Repr

/-- A search that may fail, which it goes on from, or stop with a fault. -/
abbrev Ranged := OptionT (StateT Work (Except Fault))

namespace Ranged

/-! ## Steps of a search -/

/-- Stops the search. -/
def fault {α : Type} (f : Fault) : Ranged α :=
  throwThe Fault f

/-- Counts a use of a production. -/
def use (p : Production) (start stop : Nat) : Ranged Unit :=
  modify fun w => { w with uses := w.uses ++ [⟨p, start, stop⟩] }

/-- Takes a part of the text. -/
def slice (input : List Char) (start stop : Nat) : Ranged (List Char) :=
  match Text.slice? input start stop with
  | none => fault (.noSlice start stop)
  | some part => pure part

/-- Reads a byte. -/
def byte (input : List Char) (i stop : Nat) : Ranged UInt8 := do
  modify fun w => { w with accesses := w.accesses ++ [⟨i, stop⟩] }
  match (Text.bytes input)[i]? with
  | none => fault (.noByte i)
  | some b => pure b

/-- Makes a node. -/
def make (edit : Store → Except NodeError NodeId × Store) : Ranged NodeId := do
  let w ← get
  match edit w.store with
  | (.error e, _) => fault (.refused e)
  | (.ok n, store) =>
    set { w with store }
    return n

/-- Makes a node without children. -/
def leaf (label : String) : Ranged NodeId :=
  make fun s =>
    let (n, s) := s.alloc (.literal label)
    (.ok n, s)

end Ranged

open Ranged

/-! ## Productions -/

/-- Matches two productions on the sides of a position, if there is the operator. -/
def cutRange (input : List Char) (op : Operator) (left right : Nat → Nat → Ranged NodeId)
    (start stop i : Nat) : Ranged NodeId := do
  let b ← byte input i stop
  guard (b = op.symbol.toUInt8)
  let l ← left start i
  let r ← right (i + 1) stop
  make (·.operator op l r)

/-- Tries the positions of a range, but for the first and the last one. -/
def splitRange (input : List Char) (op : Operator) (left right : Nat → Nat → Ranged NodeId)
    (start stop : Nat) : Ranged NodeId :=
  (List.range' (start + 1) (stop - 1 - (start + 1))).firstM
    (cutRange input op left right start stop)

/-- Matches what may follow the group that ends at `close`: nothing, or an operator and
an expression. -/
def restRange (input : List Char) (expression : Nat → Nat → Ranged NodeId) (group : NodeId)
    (close stop : Nat) : Ranged NodeId :=
  if close + 1 = stop then return group
  else do
    let b ← byte input (close + 1) stop
    let op ← (Operator.ofSymbol? (Char.ofUInt8 b)).getM
    let rest ← expression (close + 2) stop
    make (·.operator op group rest)

/-- Matches the group that ends at `close`, and what may follow it. -/
def groupRange (input : List Char) (expression : Nat → Nat → Ranged NodeId)
    (start close stop : Nat) : Ranged NodeId := do
  let inner ← expression (start + 1) close
  let contents ← slice input (start + 1) close
  let group ← make (·.parenthetical (groupLabel contents) inner)
  restRange input expression group close stop

/-- Matches a literal, or a group and what may follow it. -/
def atomRange (input : List Char) (expression : Nat → Nat → Ranged NodeId) (start stop : Nat) :
    Ranged NodeId := do
  let text ← slice input start stop
  if text.head? = some '(' then
    let offset ← (Text.matchingParenthesis text).getM
    groupRange input expression start (start + offset) stop
  else
    guard (IsLiteral text)
    leaf (String.ofList text)

/-- Matches a production from one position to another, with uses of productions
nested no deeper than `depth`. -/
def searchRange (input : List Char) : Nat → Production → Nat → Nat → Ranged NodeId
  | 0, _, _, _ => fault .tooDeep
  | depth + 1, p, start, stop => do
    use p start stop
    match p with
    | .expression =>
      searchRange input depth .additive start stop <|> searchRange input depth .atom start stop
    | .additive =>
      splitRange input .add (searchRange input depth .additive) (searchRange input depth .product)
          start stop <|>
        searchRange input depth .product start stop
    | .product =>
      splitRange input .mul (searchRange input depth .product) (searchRange input depth .product)
          start stop <|>
        searchRange input depth .atom start stop
    | .atom => atomRange input (searchRange input depth .expression) start stop

/-- The search for the expression that a text is, spaces dropped, with the nodes put
into the store. -/
def searchBytes (depth : Nat) (text : String) (store : Store) :
    Except Fault (Option NodeId × Work) :=
  let input := strip text
  (searchRange input depth .expression 0 (Text.size input)).run.run ⟨store, [], []⟩

end OperatorTree.Grammar
