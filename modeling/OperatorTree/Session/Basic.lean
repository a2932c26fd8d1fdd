/-
# OperatorTree.Session.Basic -- named registers, and how long a node lives

A session is a store together with registers, each naming a node.  Several
registers may name one node.

A node lives exactly while something holds it: a register that names it, or a
live node that lists it as a child.  A link up to a parent holds nothing.
`Session.settle` removes the nodes that nothing holds, again and again, because
a node that goes lets go of its children.  What is left is settled: every live
node is held.
-/
import OperatorTree.Store.Basic

namespace OperatorTree

set_option autoImplicit false

/-- A store with named nodes. -/
structure Session where
  store : Store
  /-- The registers that are set, each once, with the nodes they name. -/
  registers : List (String × NodeId)
  deriving DecidableEq, Repr

namespace Session

/-- The session with no register set and no node. -/
def empty : Session := ⟨.empty, []⟩

/-! ## Registers -/

/-- The node that a register names, if it is set. -/
def node? (s : Session) (name : String) : Option NodeId :=
  s.registers.lookup name

/-- Forgets a register. -/
def forget (s : Session) (name : String) : Session :=
  { s with registers := s.registers.filter (·.1 ≠ name) }

/-- Lets a register name a node, in place of what it named before. -/
def assign (s : Session) (name : String) (n : NodeId) : Session :=
  { s with registers := (name, n) :: s.registers.filter (·.1 ≠ name) }

/-- The registers that name a node, in the order of their names. -/
def namesOf (s : Session) (n : NodeId) : List String :=
  ((s.registers.filter (·.2 = n)).map (·.1)).mergeSort (· ≤ ·)

/-! ## Lifetimes -/

/-- The nodes that are named or listed, each as often as it is. -/
def held (s : Session) : List NodeId :=
  s.registers.map (·.2) ++ s.store.live.flatMap s.store.children

/-- A row of marks, one for each number below `size`: whether the number is in the list. -/
def marks (size : Nat) (ns : List NodeId) : Array Bool :=
  ns.foldl (fun row n => row.setIfInBounds n true) (Array.replicate size false)

/-- The live nodes that nothing holds. -/
def loose (s : Session) : List NodeId :=
  let held := marks s.store.slots.size s.held
  s.store.live.filter fun n => held[n]? ≠ some true

/-- Removes the nodes that nothing holds. -/
def sweep (s : Session) : Session :=
  { s with store := s.loose.foldl .erase s.store }

theorem live_foldl_erase (s : Store) (ns : List NodeId) (n : NodeId) :
    (ns.foldl .erase s).Live n ↔ s.Live n ∧ n ∉ ns := by
  induction ns generalizing s with
  | nil => simp
  | cons m ns ih =>
    rw [List.foldl_cons, ih]
    simp only [Store.Live, Store.node?_erase, List.mem_cons]
    by_cases same : m = n
    · subst same; simp
    · simp [same, Ne.symm same]

theorem getElem?_foldl_mark (row : Array Bool) (ns : List NodeId) (n : NodeId) :
    (ns.foldl (fun row n => row.setIfInBounds n true) row)[n]? =
      if n ∈ ns then row[n]?.map fun _ => true else row[n]? := by
  induction ns generalizing row with
  | nil => simp
  | cons m ns ih =>
    rw [List.foldl_cons, ih, Array.getElem?_setIfInBounds]
    grind

theorem getElem?_marks {size : Nat} {ns : List NodeId} {n : NodeId} (inside : n < size) :
    (marks size ns)[n]? = some (decide (n ∈ ns)) := by
  simp only [marks, getElem?_foldl_mark, Array.getElem?_replicate, inside, if_true]
  split <;> simp_all

theorem mem_loose {s : Session} {n : NodeId} : n ∈ s.loose ↔ s.store.Live n ∧ n ∉ s.held := by
  simp only [loose, List.mem_filter, Store.mem_live]
  refine and_congr_right fun live => ?_
  simp [getElem?_marks (Store.lt_size_of_live live)]

theorem live_sweep (s : Session) (n : NodeId) :
    s.sweep.store.Live n ↔ s.store.Live n ∧ n ∈ s.held := by
  simp only [sweep, live_foldl_erase, mem_loose]
  grind

theorem size_foldl_erase (s : Store) (ns : List NodeId) :
    (ns.foldl .erase s).slots.size = s.slots.size := by
  induction ns generalizing s with
  | nil => rfl
  | cons n ns ih => rw [List.foldl_cons, ih, Store.erase, Array.size_setIfInBounds]

/-- Sweeping keeps the nodes that are held, in their order. -/
theorem store_live_sweep (s : Session) :
    s.sweep.store.live = s.store.live.filter (· ∈ s.held) := by
  rw [Store.live, Store.live, sweep, size_foldl_erase, List.filter_filter]
  refine List.filter_congr fun n _ => ?_
  rw [← Bool.decide_and, decide_eq_decide, and_comm]
  exact live_sweep s n

/-- Sweeping removes a node whenever there is one to remove. -/
theorem length_live_sweep_lt {s : Session} (unsettled : s.loose ≠ []) :
    s.sweep.store.live.length < s.store.live.length := by
  obtain ⟨n, more, found⟩ := List.exists_cons_of_ne_nil unsettled
  obtain ⟨live, free⟩ := mem_loose.1 (found ▸ List.mem_cons_self : n ∈ s.loose)
  rw [store_live_sweep, List.length_filter_lt_length_iff_exists]
  exact ⟨n, Store.mem_live.2 live, by simpa using free⟩

/-- Removes the nodes that nothing holds, until every live node is held. -/
def settle (s : Session) : Session :=
  if s.loose = [] then s else s.sweep.settle
termination_by s.store.live.length
decreasing_by exact length_live_sweep_lt ‹_›

end Session

end OperatorTree
