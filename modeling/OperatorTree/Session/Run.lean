/-
# OperatorTree.Session.Run -- carrying out commands

`run` carries out one command: it reads the registers in the order in which the
command names them, asks the store, sets the destination if there is one, and
then settles the session, so whatever the change let go of is removed before the
next command.  A destination is set after the new node has been found, so it may
be the register that the command reads.  A refused command sets no register.
-/
import OperatorTree.Expr.Outline
import OperatorTree.Expr.Record
import OperatorTree.Expr.Text
import OperatorTree.Session.Basic
import OperatorTree.Session.Command
import OperatorTree.Store.Compare
import OperatorTree.Store.Copy
import OperatorTree.Store.Flatten

namespace OperatorTree.Session

set_option autoImplicit false

/-- What comes of a command. -/
structure Outcome where
  answer : Except Refusal Answer
  events : List Event
  /-- The session afterwards. -/
  session : Session

/-! ## Steps of a command -/

/-- A command that is refused and leaves the session as it is. -/
def refused (s : Session) (e : Refusal) : Outcome :=
  ⟨.error e, [], s⟩

/-- A change that succeeds. -/
def done (s : Session) : Outcome :=
  ⟨.ok .done, [], s⟩

/-- Goes on with the node that a register names. -/
def withNode (s : Session) (name : String) (next : NodeId → Outcome) : Outcome :=
  match s.node? name with
  | none => s.refused (.noRegister name)
  | some n => next n

/-- Sets a register to a node, or answers that there is none. -/
def assignOr (s : Session) (dst : String) : Option NodeId → Outcome
  | none => ⟨.ok .absent, [], s⟩
  | some n => (s.assign dst n).done

/-- Sets a register to a node of a new store. -/
def assignNew (s : Session) (dst : String) : NodeId × Store → Outcome
  | (n, store) => ({ s with store }.assign dst n).done

/-- Goes on with the store after an edit, unless the edit was refused. -/
def edited {α : Type} (s : Session) (edit : Except NodeError α × Store)
    (next : α → Session → Outcome) : Outcome :=
  match edit with
  | (.error e, store) => { s with store }.refused (.node e)
  | (.ok a, store) => next a { s with store }

/-- The event of a merge. -/
def mergeEvent (m : Merge) : Event :=
  .merged m.index m.count

/-- Makes the nodes of the expression that a text is, and flattens them in place. -/
def parseInto (s : Session) (dst : String) (settings : Grammar.Settings) (text : String) :
    Outcome :=
  let input := String.ofList (Grammar.strip text)
  let search := Grammar.searchText text
  let parsed := Event.parsed input search.attempts search.found.isSome
  match search.found with
  | none => ⟨.error (.parse ⟨input⟩), [parsed], s⟩
  | some e =>
    let (n, store) := s.store.plant e
    let (merges, store) := if settings.flatten then store.flatten n else ([], store)
    ⟨.ok .done, parsed :: merges.map mergeEvent, { s with store }.assign dst n⟩

/-! ## Commands -/

/-- Makes a change, and leaves the session unsettled. -/
def perform (s : Session) : Change → Outcome
  | .literal dst label => s.assignNew dst (s.store.alloc (.literal label))
  | .operator dst op left right =>
    s.withNode left fun l => s.withNode right fun r =>
      s.edited (s.store.operator op l r) fun n s => (s.assign dst n).done
  | .parenthetical dst label inner =>
    s.withNode inner fun i =>
      s.edited (s.store.parenthetical label i) fun n s => (s.assign dst n).done
  | .parse dst settings text => s.parseInto dst settings text
  | .validate dst label =>
    if IsLiteral label.toList then s.assignNew dst (s.store.alloc (.literal label))
    else s.assignOr dst none
  | .child dst of index => s.withNode of fun n => s.assignOr dst (s.store.child? n index)
  | .parent dst of => s.withNode of fun n => s.assignOr dst (s.store.parent? n)
  | .root dst of => s.withNode of fun n => s.assignOr dst (some (s.store.root n))
  | .clone dst of => s.withNode of fun n => s.assignOr dst (some n)
  | .deepCopy dst of => s.withNode of fun n => s.assignNew dst (s.store.deepCopy n)
  | .drop of => s.withNode of fun _ => (s.forget of).done
  | .addChild of child =>
    s.withNode of fun p => s.withNode child fun c =>
      s.edited (s.store.addChild p c) fun _ s => s.done
  | .setLabel of label =>
    s.withNode of fun n => s.edited (s.store.setLabel n label) fun _ s => s.done
  | .swap a b =>
    s.withNode a fun m => s.withNode b fun n =>
      s.edited (s.store.swap m n) fun positions s =>
        ⟨.ok .done, [.swapped positions.1 positions.2], s⟩
  | .flatten of =>
    s.withNode of fun n =>
      let (merges, store) := s.store.flatten n
      ⟨.ok .done, merges.map mergeEvent, { s with store }⟩
  | .rest => s.done

/-- The node that a register names, or the refusal for one that is not set. -/
def resolve (s : Session) (name : String) : Except Refusal NodeId :=
  match s.node? name with
  | none => .error (.noRegister name)
  | some n => .ok n

/-- Answers a question. -/
def ask (s : Session) : Question → Except Refusal Answer
  | .kind of => return .kind (s.store.content (← s.resolve of)).kind
  | .operator of => return .operator (s.store.operator? (← s.resolve of))
  | .label of => return .text (s.store.content (← s.resolve of)).label
  | .children of =>
    return .labels ((s.store.children (← s.resolve of)).map fun c => (s.store.content c).label)
  | .childCount of => return .count (s.store.children (← s.resolve of)).length
  | .isRoot of => return .truth (decide (s.store.IsRoot (← s.resolve of)))
  | .ancestors of => return .nodes ((s.store.ancestors (← s.resolve of)).map s.store.content)
  | .same a b => return .truth ((← s.resolve a) == (← s.resolve b))
  | .equal a b => return .truth (s.store.equal (← s.resolve a) (← s.resolve b))
  | .text of => return .text (s.store.expr (← s.resolve of)).text
  | .outline of => return .text (s.store.expr (← s.resolve of)).outline
  | .record of => return .text (s.store.expr (← s.resolve of)).record
  | .linked of => return .truth (decide (s.store.Linked (← s.resolve of)))

/-- Carries out a command. -/
def run (s : Session) : Command → Outcome
  | .change c =>
    let outcome := s.perform c
    { outcome with session := outcome.session.settle }
  | .question q => ⟨s.ask q, [], s⟩

end OperatorTree.Session
