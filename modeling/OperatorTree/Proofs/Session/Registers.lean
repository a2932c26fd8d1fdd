/-
# OperatorTree.Proofs.Session.Registers -- the registers that a command names

A command reads and sets registers by their names (`Change.names`).  It edits no
nodes but those that some of these name (`Change.edits`), and whatever it does to
the store, all that it does to the registers is to forget one of them, its target,
or to set it (`reassigned_perform`).  So every other register stays, and as no
register is ever set twice, one that is set names exactly the node that it is set
to (`Reachable.node?_eq_some_iff`).  The target of a change that was made names the
node that was found or made, or nothing if it was to be forgotten (`lands_perform`).
-/
import OperatorTree.Proofs.Session.Reachable

namespace OperatorTree.Session

set_option autoImplicit false

variable {s : Session} {name : String}

/-! ## Names -/

/-- The registers that a change reads or sets. -/
def Change.names : Change → List String
  | .literal dst _ | .parse dst _ _ | .validate dst _ => [dst]
  | .operator dst _ left right => [dst, left, right]
  | .parenthetical dst _ inner => [dst, inner]
  | .child dst of _ | .parent dst of | .root dst of | .clone dst of | .deepCopy dst of => [dst, of]
  | .drop of | .setLabel of _ | .flatten of => [of]
  | .addChild of added => [of, added]
  | .swap a b => [a, b]
  | .rest => []

/-- The registers by which a command can change anything.  A question cannot. -/
def Command.names : Command → List String
  | .change c => c.names
  | .question _ => []

/-- The register that a change sets, or forgets. -/
def Change.target? : Change → Option String
  | .literal dst _ | .operator dst _ _ _ | .parenthetical dst _ _ | .parse dst _ _
  | .validate dst _ | .child dst _ _ | .parent dst _ | .root dst _ | .clone dst _
  | .deepCopy dst _ | .drop dst => some dst
  | .addChild _ _ | .setLabel _ _ | .swap _ _ | .flatten _ | .rest => none

/-- The registers that name the nodes that a change edits. -/
def Change.edits : Change → List String
  | .operator _ _ left right => [left, right]
  | .parenthetical _ _ inner => [inner]
  | .setLabel of _ | .flatten of => [of]
  | .addChild of added => [of, added]
  | .swap a b => [a, b]
  | .literal _ _ | .parse _ _ _ | .validate _ _ | .child _ _ _ | .parent _ _ | .root _ _
  | .clone _ _ | .deepCopy _ _ | .drop _ | .rest => []

theorem Change.mem_names_of_target? {c : Change} (target : c.target? = some name) :
    name ∈ c.names := by
  cases c <;> simp_all [target?, names]

theorem Change.mem_names_of_mem_edits {c : Change} (edited : name ∈ c.edits) : name ∈ c.names := by
  cases c <;> simp_all [edits, names]

/-- The registers stay as they are, or one of `names` is forgotten, or set. -/
inductive Reassigned (names : List String) (registers : List (String × NodeId)) :
    List (String × NodeId) → Prop where
  | same : Reassigned names registers registers
  | forget {name : String} : name ∈ names →
      Reassigned names registers (registers.filter (·.1 ≠ name))
  | assign {name : String} (n : NodeId) : name ∈ names →
      Reassigned names registers ((name, n) :: registers.filter (·.1 ≠ name))

/-! ## What a change does to the registers -/

namespace Reassigned

variable {names : List String} {registers after : List (String × NodeId)}

/-- A register that is not among the names stays as it is, set or not. -/
theorem mem_iff (reassigned : Reassigned names registers after) {entry : String × NodeId}
    (other : entry.1 ∉ names) : entry ∈ after ↔ entry ∈ registers := by
  have ne {name : String} (named : name ∈ names) : entry.1 ≠ name :=
    fun same => other (same ▸ named)
  cases reassigned with
  | same => rfl
  | forget named => simp [ne named]
  | @assign name n named =>
      have old : entry ≠ (name, n) := fun same => ne named (congrArg Prod.fst same)
      simp [ne named, old]

/-- Each register is set once. -/
theorem nodup (reassigned : Reassigned names registers after)
    (once : (registers.map (·.1)).Nodup) : (after.map (·.1)).Nodup := by
  have kept (name : String) : ((registers.filter (·.1 ≠ name)).map (·.1)).Nodup :=
    once.sublist (List.filter_sublist.map _)
  cases reassigned with
  | same => exact once
  | forget named => exact kept _
  | @assign name n named =>
      rw [List.map_cons, List.nodup_cons]
      refine ⟨fun member => ?_, kept name⟩
      obtain ⟨entry, inside, same⟩ := List.mem_map.1 member
      simpa [same] using (List.mem_filter.1 inside).2

theorem withNode {next : NodeId → Outcome}
    (later : ∀ n, Reassigned names s.registers (next n).session.registers) :
    Reassigned names s.registers (s.withNode name next).session.registers :=
  of_withNode (P := (Reassigned names s.registers ·.session.registers)) .same fun n _ => later n

theorem assignOr (named : name ∈ names) (found : Option NodeId) :
    Reassigned names s.registers (s.assignOr name found).session.registers :=
  of_assignOr (P := (Reassigned names s.registers ·.session.registers)) .same fun n _ =>
    .assign n named

theorem assignNew (named : name ∈ names) (made : NodeId × Store) :
    Reassigned names s.registers (s.assignNew name made).session.registers :=
  .assign made.1 named

theorem edited {α : Type} {edit : Except NodeError α × Store} {next : α → Session → Outcome}
    (later : ∀ a s', s'.registers = s.registers →
      Reassigned names s.registers (next a s').session.registers) :
    Reassigned names s.registers (s.edited edit next).session.registers :=
  of_edited (P := (Reassigned names s.registers ·.session.registers)) (fun _ _ => .same)
    fun a _ => later a _ rfl

/-- An edit of which the result is not named. -/
theorem edited_done {α : Type} {edit : Except NodeError α × Store} {next : α → Session → Outcome}
    (kept : ∀ a s', (next a s').session = s') :
    Reassigned names s.registers (s.edited edit next).session.registers := by
  refine edited fun a s' same => ?_
  rw [kept, same]
  exact .same

/-- An edit of which the result is named. -/
theorem edited_assign (named : name ∈ names) {edit : Except NodeError NodeId × Store} :
    Reassigned names s.registers
      (s.edited edit fun n s' => (s'.assign name n).done).session.registers := by
  refine edited fun n s' same => ?_
  show Reassigned names s.registers ((name, n) :: s'.registers.filter (·.1 ≠ name))
  rw [same]
  exact .assign n named

end Reassigned

theorem reassigned_perform (s : Session) (c : Change) :
    Reassigned c.target?.toList s.registers (s.perform c).session.registers := by
  cases c with
  | literal dst label => exact .assignNew (by simp [Change.target?]) _
  | operator dst op left right =>
      exact .withNode fun _ => .withNode fun _ => .edited_assign (by simp [Change.target?])
  | parenthetical dst label inner =>
      exact .withNode fun _ => .edited_assign (by simp [Change.target?])
  | parse dst settings text =>
      show Reassigned _ _ (s.parseInto dst settings text).session.registers
      cases found : (Grammar.searchText text).found with
      | none =>
          rw [session_parseInto_of_none found]
          exact .same
      | some e =>
          rw [session_parseInto_of_found found]
          exact .assignNew (by simp [Change.target?]) _
  | validate dst label =>
      by_cases valid : IsLiteral label.toList
      · simp only [Session.perform, if_pos valid]
        exact .assignNew (by simp [Change.target?]) _
      · simp only [Session.perform, if_neg valid]
        exact .same
  | child dst of index => exact .withNode fun _ => .assignOr (by simp [Change.target?]) _
  | parent dst of => exact .withNode fun _ => .assignOr (by simp [Change.target?]) _
  | root dst of => exact .withNode fun _ => .assignOr (by simp [Change.target?]) _
  | clone dst of => exact .withNode fun _ => .assignOr (by simp [Change.target?]) _
  | deepCopy dst of => exact .withNode fun _ => .assignNew (by simp [Change.target?]) _
  | drop of => exact .withNode fun _ => .forget (by simp [Change.target?])
  | addChild of child => exact .withNode fun _ => .withNode fun _ => .edited_done fun _ _ => rfl
  | setLabel of label => exact .withNode fun _ => .edited_done fun _ _ => rfl
  | swap a b => exact .withNode fun _ => .withNode fun _ => .edited_done fun _ _ => rfl
  | flatten of => exact .withNode fun _ => .same
  | rest => exact .same

/-! ## What the target names -/

/-- The node to which a change sets its register: the one that it finds, or the new one,
which takes the next number.  There is none if it forgets the register, or sets none. -/
def setTo? (s : Session) : Change → Option NodeId
  | .literal _ _ | .operator _ _ _ _ | .parenthetical _ _ _ | .parse _ _ _ | .validate _ _
  | .deepCopy _ _ => some s.store.slots.size
  | .child _ of index => (s.node? of).bind (s.store.child? · index)
  | .parent _ of => (s.node? of).bind s.store.parent?
  | .root _ of => (s.node? of).map s.store.root
  | .clone _ of => s.node? of
  | .drop _ | .addChild _ _ | .setLabel _ _ | .swap _ _ | .flatten _ | .rest => none

/-- The register names the node, or nothing, if the change was made; if it was not, all
registers are as they were. -/
structure Lands (s : Session) (name : String) (found : Option NodeId) (o : Outcome) : Prop where
  done : o.answer = .ok .done → o.session.node? name = found
  kept : o.answer ≠ .ok .done → o.session.registers = s.registers

namespace Lands

variable {of : String} {found : Option NodeId} {o : Outcome}

theorem of_done (made : o.answer = .ok .done) (set : o.session.node? name = found) :
    Lands s name found o :=
  ⟨fun _ => set, fun undone => absurd made undone⟩

theorem of_not_done (undone : o.answer ≠ .ok .done) (same : o.session.registers = s.registers) :
    Lands s name found o :=
  ⟨fun made => absurd made undone, fun _ => same⟩

theorem withNode {next : NodeId → Outcome}
    (later : ∀ n, s.node? of = some n → Lands s name found (next n)) :
    Lands s name found (s.withNode of next) :=
  of_withNode (P := Lands s name found) (.of_not_done (by simp [refused]) rfl) later

theorem assignOr (s : Session) (name : String) (found : Option NodeId) :
    Lands s name found (s.assignOr name found) := by
  cases found with
  | none => exact .of_not_done (by simp [Session.assignOr]) rfl
  | some n => exact .of_done rfl (node?_assign s name n)

/-- A step that looks a node up from the one that a register names. -/
theorem withNode_assignOr {find : NodeId → Option NodeId}
    (same : ∀ n, s.node? of = some n → found = find n) :
    Lands s name found (s.withNode of fun n => s.assignOr name (find n)) := by
  refine withNode fun n named => ?_
  rw [same n named]
  exact assignOr s name (find n)

theorem assignNew (s : Session) (name : String) (made : NodeId × Store) :
    Lands s name (some made.1) (s.assignNew name made) :=
  .of_done rfl (node?_assign _ name made.1)

theorem edited_assign {edit : Except NodeError NodeId × Store} {n : NodeId}
    (new : ∀ m, edit.1 = .ok m → m = n) :
    Lands s name (some n) (s.edited edit fun m s' => (s'.assign name m).done) := by
  refine of_edited (P := Lands s name (some n)) (fun e _ => ?_) fun m made => ?_
  · exact .of_not_done (by simp [refused]) rfl
  · exact .of_done rfl (new m made ▸ node?_assign _ name m)

theorem parseInto (s : Session) (dst : String) (settings : Grammar.Settings) (text : String) :
    Lands s dst (some s.store.slots.size) (s.parseInto dst settings text) := by
  cases found : (Grammar.searchText text).found with
  | none =>
      refine .of_not_done (by simp [Session.parseInto, found]) ?_
      rw [session_parseInto_of_none found]
  | some e =>
      refine .of_done (by simp [Session.parseInto, found]) ?_
      rw [session_parseInto_of_found found, ← Store.plant_fst s.store e]
      exact node?_assign _ dst _

end Lands

/-- **A change that is made sets its target, or forgets it**, and one that is not made
leaves all registers alone. -/
theorem lands_perform (s : Session) {c : Change} (target : c.target? = some name) :
    Lands s name (s.setTo? c) (s.perform c) := by
  cases c with
  | literal dst label =>
      cases target
      exact .assignNew s name (s.store.alloc (.literal label))
  | operator dst op left right =>
      cases target
      exact .withNode fun _ _ => .withNode fun _ _ => .edited_assign fun _ made =>
        Store.eq_size_of_operator made
  | parenthetical dst label inner =>
      cases target
      exact .withNode fun _ _ => .edited_assign fun _ made => Store.eq_size_of_parenthetical made
  | parse dst settings text =>
      cases target
      exact .parseInto ..
  | validate dst label =>
      cases target
      by_cases valid : IsLiteral label.toList
      · simp only [Session.perform, if_pos valid]
        exact .assignNew s name (s.store.alloc (.literal label))
      · simp only [Session.perform, if_neg valid]
        exact .of_not_done (by simp [Session.assignOr]) rfl
  | child dst of index =>
      cases target
      exact .withNode_assignOr fun n named => by simp [setTo?, named]
  | parent dst of =>
      cases target
      exact .withNode_assignOr fun n named => by simp [setTo?, named]
  | root dst of =>
      cases target
      exact .withNode_assignOr fun n named => by simp [setTo?, named]
  | clone dst of =>
      cases target
      exact .withNode_assignOr fun n named => named
  | deepCopy dst of =>
      cases target
      refine .withNode fun n _ => ?_
      rw [setTo?, ← Store.plant_fst s.store (s.store.expr n)]
      exact .assignNew ..
  | drop of =>
      cases target
      exact .withNode fun _ _ => .of_done rfl (node?_forget s name)
  | addChild | setLabel | swap | flatten | rest => cases target

/-! ## Reachable sessions -/

theorem Reachable.nodup_registers (reachable : s.Reachable) :
    (s.registers.map (·.1)).Nodup := by
  induction reachable with
  | empty => exact List.nodup_nil
  | @step s command _ ih =>
      cases command with
      | question q => exact ih
      | change c =>
          show ((s.perform c).session.settle.registers.map (·.1)).Nodup
          rw [registers_settle]
          exact (reassigned_perform s c).nodup ih

/-- A register that is set names the node that it is set to. -/
theorem Reachable.node?_of_mem (reachable : s.Reachable) {entry : String × NodeId}
    (member : entry ∈ s.registers) : s.node? entry.1 = some entry.2 := by
  have once := reachable.nodup_registers
  obtain ⟨before, after, split⟩ := List.append_of_mem member
  refine List.lookup_eq_some_iff.2 ⟨before, after, split, fun other inside => ?_⟩
  rw [split, List.map_append, List.map_cons] at once
  have differ := (List.nodup_append.1 once).2.2 other.1 (List.mem_map_of_mem inside) entry.1
    List.mem_cons_self
  simpa using Ne.symm differ

theorem Reachable.node?_eq_some_iff (reachable : s.Reachable) {n : NodeId} :
    s.node? name = some n ↔ (name, n) ∈ s.registers :=
  ⟨mem_registers_of_node?, reachable.node?_of_mem⟩

end OperatorTree.Session
