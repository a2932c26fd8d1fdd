/-
# OperatorTree.Session.Report -- what a session shows of itself

The report of a session has a row for each register: the tree below the node
that it names, and the node's parent, by its label and by the registers that
name that very parent.  It is shown after a change that was made and after a
refusal, and not with the answer to a question or when there was nothing to set
a register to.
-/
import OperatorTree.Expr.Entries
import OperatorTree.Session.Run

namespace OperatorTree.Session

set_option autoImplicit false

/-- What is shown of the parent of a node. -/
structure ParentView where
  label : String
  /-- The registers that name the parent, in order. -/
  registers : List String
  deriving DecidableEq, Repr

/-- What is shown of a register. -/
structure View where
  name : String
  /-- The tree below the node, as the list of its nodes. -/
  entries : List Expr.Entry
  /-- The parent of the node, if it has one. -/
  parent : Option ParentView
  deriving DecidableEq, Repr

/-- What is shown of a node under a name. -/
def view (s : Session) (name : String) (n : NodeId) : View where
  name := name
  entries := (s.store.expr n).entries
  parent := (s.store.parent? n).map fun p => ⟨(s.store.content p).label, s.namesOf p⟩

/-- The rows of all registers. -/
def report (s : Session) : List View :=
  s.registers.map fun (name, n) => s.view name n

/-- The report that goes with the outcome of a command, if one does. -/
def Outcome.report? (o : Outcome) : Option (List View) :=
  match o.answer with
  | .ok .done | .error _ => some o.session.report
  | .ok _ => none

end OperatorTree.Session
