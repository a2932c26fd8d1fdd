/-
# OperatorTree.Store.Edit -- attaching, relabelling and exchanging nodes

Every edit checks first and then changes.  A refused edit gives the reason
(`NodeError`); the store that comes with the answer is the store afterwards in
either case.  A refused `operator` or `parenthetical` may leave behind the node
that it had made, without children and without a parent.

A node may be attached below another one if that one can take a child, if no
cycle comes about, and if the node has no parent yet; the reasons are looked for
in this order (`refusal?`).
-/
import OperatorTree.Store.Navigation

namespace OperatorTree

set_option autoImplicit false

/-- Why an edit was refused. -/
inductive NodeError where
  | notSiblings
  | detached
  | literalHasNoChildren
  | parentheticalAlreadyFilled
  | alreadyAttached
  | wouldCreateCycle
  | invalidOperatorLabel (label : String)
  deriving DecidableEq, Repr

namespace NodeError

/-- The reason in words. -/
def message : NodeError → String
  | notSiblings => "nodes do not share a parent"
  | detached => "node has no parent"
  | literalHasNoChildren => "literals cannot have children"
  | parentheticalAlreadyFilled => "parenthetical already has its child"
  | alreadyAttached => "node is already attached to a parent"
  | wouldCreateCycle => "attaching this node would create a cycle"
  | invalidOperatorLabel label => "'" ++ label ++ "' is not an operator label"

end NodeError

namespace Store

/-! ## Attaching -/

/-- Why the node `p` cannot take any further child, if it cannot. -/
def full? (s : Store) (p : NodeId) : Option NodeError :=
  match s.content p with
  | .literal _ => some .literalHasNoChildren
  | .parenthetical _ => if s.children p = [] then none else some .parentheticalAlreadyFilled
  | .operator _ => none

/-- Why the node `c` cannot become a child of `p`, if it cannot. -/
def refusal? (s : Store) (p c : NodeId) : Option NodeError :=
  match s.full? p with
  | some e => some e
  | none =>
    if c = p ∨ c ∈ s.ancestors p then some .wouldCreateCycle
    else if s.IsRoot c then none
    else some .alreadyAttached

/-- Puts `c` last among the children of `p`. -/
def attach (s : Store) (p c : NodeId) : Store :=
  let s := s.setParent c (some p)
  s.setChildren p (s.children p ++ [c])

/-- Puts `c` last among the children of `p`, unless there is a reason against it. -/
def addChild (s : Store) (p c : NodeId) : Except NodeError Unit × Store :=
  match s.refusal? p c with
  | some e => (.error e, s)
  | none => (.ok (), s.attach p c)

/-- Makes an operator node over two different nodes. -/
def operator (s : Store) (op : Operator) (left right : NodeId) : Except NodeError NodeId × Store :=
  if left = right then (.error .alreadyAttached, s)
  else
    let (n, s) := s.alloc (.operator op)
    match s.refusal? n left, s.refusal? n right with
    | some e, _ => (.error e, s)
    | none, some e => (.error e, s)
    | none, none => (.ok n, (s.attach n left).attach n right)

/-- Makes a pair of parentheses around a node. -/
def parenthetical (s : Store) (label : String) (inner : NodeId) : Except NodeError NodeId × Store :=
  let (n, s) := s.alloc (.parenthetical label)
  match s.addChild n inner with
  | (.error e, s) => (.error e, s)
  | (.ok (), s) => (.ok n, s)

/-! ## Relabelling -/

/-- Gives a node a new label.  An operator node takes only the label of an operator. -/
def setLabel (s : Store) (n : NodeId) (label : String) : Except NodeError Unit × Store :=
  match (s.content n).relabel? label with
  | none => (.error (.invalidOperatorLabel label), s)
  | some content => (.ok (), s.setContent n content)

/-! ## Exchanging -/

/-- Exchanges two siblings, and answers with the positions that they had. -/
def swap (s : Store) (a b : NodeId) : Except NodeError (Nat × Nat) × Store :=
  match s.parent? a, s.parent? b with
  | some p, some q =>
    if p = q then
      let children := s.children p
      match children.idxOf? a, children.idxOf? b with
      | some i, some j => (.ok (i, j), s.setChildren p ((children.set i b).set j a))
      | _, _ => (.error .notSiblings, s)
    else (.error .notSiblings, s)
  | _, _ => (.error .detached, s)

end Store

end OperatorTree
