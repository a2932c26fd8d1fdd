/-
# OperatorTree.Store.Basic -- nodes that hold and link to each other

A store is a set of nodes, each under a number of its own.  A node holds its
content and its list of children, and has a link up to its parent.  The two are
stored apart: a child list keeps its members in the store, while a link does
not, so a link may name a node that is gone.  `parent?` reads a link as nothing
in that case.

Numbers are handed out in order and never reused, so a number names the same
node for ever or nothing at all.

A store is seen through `node?`.  Each of the three primitive changes has one
lemma that says what it does to that view: `node?_alloc` (a new node without
children or parent), `node?_modify` (one node rewritten) and `node?_erase` (one
node gone).
-/
import OperatorTree.Expr.Basic

namespace OperatorTree

set_option autoImplicit false

/-- The number of a node. -/
abbrev NodeId := Nat

/-- A node as the store keeps it. -/
structure Node where
  content : Content
  /-- The children, in order. -/
  children : List NodeId
  /-- The link to the parent.  The node it names may be gone. -/
  parent : Option NodeId
  deriving DecidableEq, Repr

/-- A store of nodes. -/
structure Store where
  /-- The node under each number, if it is still there. -/
  slots : Array (Option Node)
  deriving DecidableEq, Repr

namespace Store

/-- The store without nodes. -/
def empty : Store := ⟨#[]⟩

/-- The node under a number, if there is one. -/
def node? (s : Store) (n : NodeId) : Option Node :=
  s.slots[n]?.join

/-- A node is live while the store has it. -/
def Live (s : Store) (n : NodeId) : Prop :=
  (s.node? n).isSome = true

instance (s : Store) (n : NodeId) : Decidable (s.Live n) :=
  inferInstanceAs (Decidable (_ = true))

/-- The numbers of the live nodes, in order. -/
def live (s : Store) : List NodeId :=
  (List.range s.slots.size).filter fun n => s.Live n

/-! ## Reading a node -/

/-- What a node holds.  A number without a node reads as an empty literal. -/
def content (s : Store) (n : NodeId) : Content :=
  match s.node? n with
  | some node => node.content
  | none => .literal ""

/-- The children of a node, in order. -/
def children (s : Store) (n : NodeId) : List NodeId :=
  match s.node? n with
  | some node => node.children
  | none => []

/-- The parent of a node, if it has one that is live. -/
def parent? (s : Store) (n : NodeId) : Option NodeId :=
  match s.node? n with
  | some node => node.parent.filter fun p => s.Live p
  | none => none

/-- The operator of an operator node. -/
def operator? (s : Store) (n : NodeId) : Option Operator :=
  (s.content n).operator?

/-! ## Primitive changes -/

/-- Adds a node without children or parent, under a new number. -/
def alloc (s : Store) (content : Content) : NodeId × Store :=
  (s.slots.size, ⟨s.slots.push (some ⟨content, [], none⟩)⟩)

/-- Rewrites one node. -/
def modify (s : Store) (n : NodeId) (f : Node → Node) : Store :=
  ⟨s.slots.modify n (Option.map f)⟩

/-- Removes one node. -/
def erase (s : Store) (n : NodeId) : Store :=
  ⟨s.slots.setIfInBounds n none⟩

/-- Replaces the content of a node. -/
def setContent (s : Store) (n : NodeId) (content : Content) : Store :=
  s.modify n ({ · with content })

/-- Replaces the child list of a node. -/
def setChildren (s : Store) (n : NodeId) (children : List NodeId) : Store :=
  s.modify n ({ · with children })

/-- Replaces the link of a node to its parent. -/
def setParent (s : Store) (n : NodeId) (parent : Option NodeId) : Store :=
  s.modify n ({ · with parent })

/-- Replaces the links of several nodes. -/
def setParents (s : Store) (ns : List NodeId) (parent : Option NodeId) : Store :=
  ns.foldl (fun s n => s.setParent n parent) s

/-! ## What the changes do to the view -/

theorem node?_eq_none_of_size_le {s : Store} {n : NodeId} (beyond : s.slots.size ≤ n) :
    s.node? n = none := by
  simp [node?, Array.getElem?_eq_none beyond]

theorem lt_size_of_live {s : Store} {n : NodeId} (live : s.Live n) : n < s.slots.size := by
  apply Nat.lt_of_not_le
  intro beyond
  simp [Live, node?_eq_none_of_size_le beyond] at live

theorem mem_live {s : Store} {n : NodeId} : n ∈ s.live ↔ s.Live n := by
  simpa [Store.live] using lt_size_of_live

@[simp] theorem node?_empty (n : NodeId) : empty.node? n = none := by
  simp [node?, empty]

theorem node?_alloc (s : Store) (content : Content) (n : NodeId) :
    (s.alloc content).2.node? n =
      if n = (s.alloc content).1 then some ⟨content, [], none⟩ else s.node? n := by
  simp only [node?, alloc, Array.getElem?_push]
  split <;> simp_all

theorem node?_modify (s : Store) (m : NodeId) (f : Node → Node) (n : NodeId) :
    (s.modify m f).node? n = if m = n then (s.node? n).map f else s.node? n := by
  simp only [node?, modify, Array.getElem?_modify]
  split
  · cases s.slots[n]? with
    | none => rfl
    | some slot => cases slot <;> rfl
  · rfl

theorem node?_erase (s : Store) (m n : NodeId) :
    (s.erase m).node? n = if m = n then none else s.node? n := by
  simp only [node?, erase, Array.getElem?_setIfInBounds]
  split
  · split <;> rfl
  · rfl

@[simp] theorem live_modify (s : Store) (m : NodeId) (f : Node → Node) (n : NodeId) :
    (s.modify m f).Live n ↔ s.Live n := by
  simp only [Live, node?_modify]
  split <;> simp

end Store

end OperatorTree
