/-
# OperatorTree.Proofs.Session.Arity -- which operators have two children

An operator node is made over two operands, and a text gives every operator two or
more.  No edit takes a child away from an operator but a merge, and that puts others
in its place: a flattening leaves every operator of the tree as many children as it
had, or more (`IsForest.wideAt_flatten`).  So operators with less than two children
come from one thing only.  A node that is merged keeps its operator and loses its
children, and a register may still name it.

`Tidy` is what leads to no such node: whenever a tree is flattened, no register names
a node that is merged.  In a tidy session every operator has two children or more
(`Tidy.wide`), and a step that is not tidy leaves one without any (`Emptied`).  That one
brings in nothing when it is merged again, so a new operator over it can be left with
one child (`Reachable.arity_of_flatten`).
-/
import OperatorTree.Proofs.Session.Flattening
import OperatorTree.Proofs.Session.Parsing
import OperatorTree.Proofs.Session.Release
import OperatorTree.Proofs.Store.Build

namespace OperatorTree

set_option autoImplicit false

open Relation

/-! ## Operators of a store -/

namespace Store

variable {s s' : Store} {A : NodeId → Prop} {m n p : NodeId}

/-- If the node is an operator, it has two children or more. -/
def WideAt (s : Store) (n : NodeId) : Prop :=
  ∀ op, s.content n = .operator op → 2 ≤ (s.children n).length

/-- Every operator has two children or more. -/
def Wide (s : Store) : Prop :=
  ∀ n, s.Live n → s.WideAt n

theorem WideAt.congr (wide : s.WideAt n) (content : s'.content n = s.content n)
    (children : (s.children n).length ≤ (s'.children n).length) : s'.WideAt n :=
  fun op own => Nat.le_trans (wide op (content ▸ own)) children

theorem wideAt_of_node?_eq (same : s'.node? n = s.node? n) (wide : s.WideAt n) : s'.WideAt n :=
  wide.congr (content_of_node?_eq same) (by rw [children_of_node?_eq same])

theorem IsForest.wide_expr_iff (forest : s.IsForest) :
    (s.expr n).Wide 2 ↔ ∀ m, ReflTransGen s.Lists n m → s.WideAt m := by
  simp only [Expr.Wide, forest.all_expr_iff, List.length_map, WideAt]

/-- A flattening leaves every operator of the tree at least two children, if they had them. -/
theorem IsForest.wideAt_flatten (forest : s.IsForest)
    (wide : ∀ m, ReflTransGen s.Lists n m → s.WideAt m)
    (below : ReflTransGen (s.flatten n).2.Lists n m) : (s.flatten n).2.WideAt m := by
  refine (regrouped_flatten forest n).forest.wide_expr_iff.1 ?_ m below
  rw [expr_flatten forest]
  exact Expr.Wide.flatten (by decide) (forest.wide_expr_iff.2 wide)

/-- A child without children is merged like any other, and nothing takes its place. -/
theorem IsForest.children_flatten_of_childless {op : Operator} {x : NodeId} (forest : s.IsForest)
    (own : s.operator? n = some op) (listed : s.children n = [x, m])
    (other : s.operator? x ≠ some op) (inner : s.operator? m = some op)
    (childless : s.children m = []) : (s.flatten n).2.children n = [x] := by
  have flattened := flattened_flatten forest n
  have forest' := flattened.regrouped.forest
  have leaf : (s.tree m).flatten s.operator? = .node m [] := by
    rw [forest.tree_eq, childless, List.map_nil, Tree.flatten_node]
    simp [Tree.mergeBelow, inner]
  have trees := flattened.tree_eq
  rw [forest'.tree_eq, forest.tree_eq, listed, Tree.flatten_node, Tree.node.injEq] at trees
  have left : ((s.flatten n).2.children n).map (s.flatten n).2.tree =
      [(s.tree x).flatten s.operator?] := by
    rw [trees.2]
    simp [Tree.mergeBelow, Tree.merge, own, leaf, inner, forest.value_tree, other]
  -- The trees agree, so the nodes at their roots do.
  obtain ⟨c, alone, tree⟩ := List.map_eq_singleton_iff.1 left
  have same := congrArg Tree.value tree
  rw [forest'.value_tree, Tree.value_flatten, forest.value_tree] at same
  rw [alone, same]

/-- The node has no parent, and is an operator without children. -/
structure Emptied (s : Store) (op : Operator) (m : NodeId) : Prop where
  live : s.Live m
  root : s.IsRoot m
  content_eq : s.content m = .operator op
  children_eq : s.children m = []

namespace Emptied

variable {op : Operator} {x : NodeId}

/-- It stays as it is when it is flattened. -/
theorem flatten (emptied : s.Emptied op m) (forest : s.IsForest) :
    (s.flatten m).2.content m = .operator op ∧ (s.flatten m).2.children m = [] :=
  ⟨((regrouped_flatten forest m).content_eq m).trans emptied.content_eq,
    (mergeRun_flatten_below forest m).children_eq_nil_of_eq_nil forest emptied.children_eq⟩

/-- A new operator over another root and this one is left with the other root alone when
it is flattened. -/
theorem operator (emptied : s.Emptied op m) (sound : s.Sound) (live : s.Live x)
    (root : s.IsRoot x) (other : s.operator? x ≠ some op) :
    ∃ sum made, s.operator op x m = (.ok sum, made) ∧
      (made.flatten sum).2.content sum = .operator op ∧
      (made.flatten sum).2.children sum = [x] := by
  have inner : s.operator? m = some op := operator?_eq_some_iff.2 emptied.content_eq
  have apart : m ≠ x := fun same => other (same ▸ inner)
  have allowed : (s.operator op x m).1 = .ok s.slots.size :=
    ((sound.forest.accepted live root).operator op m emptied.live emptied.root apart).1
  have forest' : (s.operator op x m).2.IsForest := (sound.operator live emptied.live).forest
  have new := newOver_operator live emptied.live allowed
  have old {k : NodeId} (liveK : s.Live k) :
      (s.operator op x m).2.children k = s.children k ∧
        (s.operator op x m).2.operator? k = s.operator? k := by
    obtain ⟨children, content⟩ := new.others k (Nat.ne_of_lt (lt_size_of_live liveK))
    exact ⟨children, congrArg Content.operator? content⟩
  refine ⟨s.slots.size, (s.operator op x m).2, Prod.ext allowed rfl, ?content, ?children⟩
  case content => exact ((regrouped_flatten forest' _).content_eq _).trans new.content_eq
  case children =>
    refine forest'.children_flatten_of_childless (operator?_eq_some_iff.2 new.content_eq)
      new.children_eq ?_ ((old emptied.live).2.trans inner)
      ((old emptied.live).1.trans emptied.children_eq)
    rwa [(old live).2]

end Emptied

namespace Wide

variable {a b c : NodeId} {label : String}

theorem addChild (wide : s.Wide) (livePar : s.Live p) : (s.addChild p c).2.Wide := by
  unfold Store.addChild
  cases s.refusal? p c with
  | some e => exact wide
  | none =>
      intro n live
      refine (wide n (live_attach.1 live)).congr content_attach ?_
      rw [children_attach livePar]
      by_cases here : n = p
      · simp [here]
      · simp [here]

theorem setLabel (wide : s.Wide) (live : s.Live m) : (s.setLabel m label).2.Wide := by
  rcases s.setLabel_cases m label with ⟨e, result⟩ | ⟨content, relabelled, result⟩
  · rw [result]
    exact wide
  · rw [result]
    intro n liveN op own
    have before := wide n ((live_setContent content).1 liveN)
    show 2 ≤ ((s.setContent m content).children n).length
    rw [children_setContent]
    by_cases here : n = m
    · subst here
      rw [content_setContent content live, if_pos rfl] at own
      obtain ⟨op', old⟩ := Content.exists_operator_of_relabel? (own ▸ relabelled)
      exact before op' old
    · rw [content_setContent content live, if_neg here] at own
      exact before op own

theorem swap (wide : s.Wide) : (s.swap a b).2.Wide := by
  rcases s.swap_cases a b with ⟨e, result⟩ | ⟨p, i, j, parentA, -, -, -, result⟩
  · rw [result]
    exact wide
  · rw [result]
    intro n live
    refine (wide n ((live_setChildren _).1 live)).congr (content_setChildren _) ?_
    rw [children_setChildren _ (parent?_eq_some_iff.1 parentA).2]
    by_cases here : n = p
    · simp [here]
    · simp [here]

end Wide

namespace Extends

/-- From a node that was there, child lists lead to no node to which they did not before. -/
theorem below_of_below (extended : Extends A s s') (forest : s.IsForest) (live : s.Live n)
    (below : ReflTransGen s'.Lists n m) : ReflTransGen s.Lists n m := by
  induction below with
  | refl => exact .refl
  | @tail b c _ listed ih =>
      rw [Lists, extended.children_eq b (lt_size_of_live (forest.live_of_below live ih))] at listed
      exact ih.tail listed

theorem wideAt (extended : Extends A s s') (wide : s.Wide) (live : s.Live n) : s'.WideAt n :=
  (wide n live).congr (extended.content_eq n (lt_size_of_live live))
    (by rw [extended.children_eq n (lt_size_of_live live)])

/-- A new node over nodes that were there adds no other operator than itself. -/
theorem wideAt_new (extended : Extends A s s') (forest : s.IsForest) (wide : s.Wide)
    (here : s'.WideAt n) (each : ∀ c ∈ s'.children n, s.Live c)
    (below : ReflTransGen s'.Lists n m) : s'.WideAt m := by
  rcases ReflTransGen.cases_head below with rfl | ⟨c, listed, below⟩
  · exact here
  · have live := each c listed
    exact extended.wideAt wide
      (forest.live_of_below live (extended.below_of_below forest live below))

end Extends

end Store

namespace Session

variable {s s' : Session} {A : NodeId → Prop} {c : Change} {m n : NodeId} {name : String}

open Store

/-- Every operator to which a register leads has two children or more. -/
def WideHeld (s : Session) : Prop :=
  ∀ n, s.Reaches n → s.store.WideAt n

/-- Settling leaves the nodes to which registers lead as they are. -/
theorem SoundHeld.wide_settle (sound : s.SoundHeld) (wide : s.WideHeld) : s.settle.store.Wide := by
  intro n live
  have reached : s.Reaches n := sound.live_settle_iff.1 live
  exact wideAt_of_node?_eq (sound.node?_settle reached) (wide n reached)

namespace WideHeld

theorem assign (wide : s.WideHeld) (dst : String)
    (new : ∀ m, ReflTransGen s.store.Lists n m → s.store.WideAt m) : (s.assign dst n).WideHeld := by
  rintro m ⟨entry, member, way⟩
  rcases List.mem_cons.1 member with rfl | other
  · exact new m way
  · exact wide m ⟨entry, (List.mem_filter.1 other).1, way⟩

theorem forget (wide : s.WideHeld) (name : String) : (s.forget name).WideHeld := by
  rintro m ⟨entry, member, way⟩
  exact wide m ⟨entry, (List.mem_filter.1 member).1, way⟩

end WideHeld

/-! ## Changes -/

namespace Sound

variable (sound : s.Sound) (wide : s.store.Wide)

include sound wide

theorem wideHeld : s.WideHeld :=
  fun n reached => wide n (sound.soundHeld.live_of_reaches reached)

/-- New nodes do no harm while no register leads to them. -/
theorem wideHeld_withStore {store : Store} (extended : Extends A s.store store) :
    ({ s with store } : Session).WideHeld := by
  rintro n ⟨entry, member, way⟩
  have live := sound.named entry member
  have below := extended.below_of_below sound.store.forest live way
  exact extended.wideAt wide (sound.store.forest.live_of_below live below)

theorem wideHeld_assign (dst : String) (live : s.store.Live n) : (s.assign dst n).WideHeld :=
  (sound.wideHeld wide).assign dst fun m below =>
    wide m (sound.store.forest.live_of_below live below)

theorem wideHeld_withNode {next : NodeId → Outcome}
    (later : ∀ n, s.node? name = some n → s.store.Live n → (next n).session.WideHeld) :
    (s.withNode name next).session.WideHeld :=
  of_withNode (P := (·.session.WideHeld)) (sound.wideHeld wide) fun n named =>
    later n named (sound.live_of_node? named)

theorem wideHeld_assignOr (dst : String) {found : Option NodeId}
    (live : ∀ n, found = some n → s.store.Live n) :
    (s.assignOr dst found).session.WideHeld :=
  of_assignOr (P := (·.session.WideHeld)) (sound.wideHeld wide) fun n present =>
    sound.wideHeld_assign wide dst (live n present)

theorem wideHeld_literal (dst label : String) :
    (s.assignNew dst (s.store.alloc (.literal label))).session.WideHeld := by
  have extended : Extends (fun _ => False) s.store (s.store.alloc (.literal label)).2 :=
    sound.store.forest.extends_alloc _
  refine (sound.wideHeld_withStore wide extended).assign dst fun m below => ?_
  refine extended.wideAt_new sound.store.forest wide ?_ ?_ below
  · intro op own
    exact Content.noConfusion (content_alloc_new.symm.trans own)
  · show ∀ c ∈ (s.store.alloc (.literal label)).2.children s.store.slots.size, _
    rw [children_alloc_new]
    simp

theorem wideHeld_operator (dst : String) (op : Operator) {left right : NodeId}
    (liveL : s.store.Live left) (liveR : s.store.Live right) :
    (s.edited (s.store.operator op left right) fun n s =>
      (s.assign dst n).done).session.WideHeld := by
  have forest := sound.store.forest
  have extended := forest.extends_operator op liveL liveR
  rcases s.store.operator_cases op left right with ⟨e, result⟩ | ⟨e, result⟩ | ⟨-, -, -, result⟩
  · rw [result]
    exact sound.wideHeld wide
  · rw [result] at extended ⊢
    exact sound.wideHeld_withStore wide extended
  · rw [result] at extended ⊢
    refine (sound.wideHeld_withStore wide extended).assign dst fun m below => ?_
    have children : (((s.store.alloc (.operator op)).2.attach s.store.slots.size left).attach
        s.store.slots.size right).children s.store.slots.size = [left, right] :=
      (((NewOver.alloc s.store (.operator op)).attach liveL).attach liveR).children_eq
    refine extended.wideAt_new forest wide (n := s.store.slots.size) ?_ ?_ below
    · intro _ _
      rw [children]
      exact Nat.le_refl _
    · rw [children]
      simp [liveL, liveR]

theorem wideHeld_parenthetical (dst label : String) {inner : NodeId} (live : s.store.Live inner) :
    (s.edited (s.store.parenthetical label inner) fun n s =>
      (s.assign dst n).done).session.WideHeld := by
  have forest := sound.store.forest
  have extended := forest.extends_parenthetical label live
  rcases s.store.parenthetical_cases label inner with ⟨e, result⟩ | ⟨-, result⟩
  · rw [result] at extended ⊢
    exact sound.wideHeld_withStore wide extended
  · rw [result] at extended ⊢
    refine (sound.wideHeld_withStore wide extended).assign dst fun m below => ?_
    refine extended.wideAt_new forest wide (n := s.store.slots.size) ?_ ?_ below
    · intro op own
      rw [content_attach, content_alloc_new] at own
      cases own
    · rw [children_attach live_alloc_new, if_pos rfl, children_alloc_new]
      simp [live]

/-- What is planted has as many operands as the expression. -/
theorem wideHeld_planted (dst : String) {made : NodeId × Store} (forest : made.2.IsForest)
    (confined : Confined (s.store.slots.size ≤ ·) s.store made.2)
    (wideExpr : (made.2.expr made.1).Wide 2) : (s.assignNew dst made).session.WideHeld := by
  have extended : Extends (fun _ => False) s.store made.2 := confined.extends
  exact (sound.wideHeld_withStore wide extended).assign dst (forest.wide_expr_iff.1 wideExpr)

theorem wideHeld_parseInto (dst : String) (settings : Grammar.Settings) (text : String) :
    (s.parseInto dst settings text).session.WideHeld := by
  have forest := sound.store.forest
  cases found : (Grammar.searchText text).found with
  | none =>
      rw [session_parseInto_of_none found]
      exact sound.wideHeld wide
  | some e =>
      rw [session_parseInto_of_found found]
      have reads := Grammar.reads_of_found _ _ _ found
      refine sound.wideHeld_planted wide dst (sound.plantedFor settings reads.shaped).1.forest
        (confined_plantFor forest.owned_new forest settings e) ?_
      rw [expr_plantFor forest]
      split
      · exact reads.wide.flatten (by decide)
      · exact reads.wide

omit wide in
/-- An edit of which the result is not named. -/
theorem wideHeld_edited {α : Type} {edit : Except NodeError α × Store}
    {next : α → Session → Outcome} (after : edit.2.Sound)
    (kept : ∀ m, s.store.Live m → edit.2.Live m) (wide : edit.2.Wide)
    (same : ∀ a s', (next a s').session = s') : (s.edited edit next).session.WideHeld := by
  have whole := (sound.withStore after kept).wideHeld wide
  refine of_edited (P := (·.session.WideHeld)) (fun _ _ => whole) fun a _ => ?_
  rw [same]
  exact whole

/-- A flattening leaves the registers no operator with fewer children, if they name no
node that is merged: such a node is loose then. -/
theorem wideHeld_flatten (liveN : s.store.Live n)
    (unnamed : ∀ m, s.MergedBelow n m → ∀ entry ∈ s.registers, entry.2 ≠ m) :
    ({ s with store := (s.store.flatten n).2 } : Session).WideHeld := by
  intro m reached
  have forest := sound.store.forest
  have regrouped := regrouped_flatten forest n
  have after := sound.withStore (sound.store.regrouped regrouped)
    fun m live => (regrouped.live_iff m).2 live
  have live : s.store.Live m :=
    (regrouped.live_iff m).1 (after.soundHeld.live_of_reaches reached)
  have stays : ¬ s.MergedBelow n m := by
    intro merged
    obtain ⟨below, gone⟩ := sound.mergedBelow_iff.1 merged
    rcases mem_held.1 reached.mem_held with ⟨entry, member, same⟩ | ⟨p, listed⟩
    · exact unnamed m merged entry member same
    · exact regrouped.forest.not_mem_of_isRoot (isRoot_of_merged forest below gone) listed
  by_cases below : ReflTransGen s.store.Lists n m
  · have left : ReflTransGen (s.store.flatten n).2.Lists n m := by
      by_contra gone
      exact stays (sound.mergedBelow_iff.2 ⟨below, gone⟩)
    exact forest.wideAt_flatten (fun x way => wide x (forest.live_of_below liveN way)) left
  · exact wideAt_of_node?_eq (node?_flatten forest below) (wide m live)

end Sound

/-! ## Sessions without emptied operators -/

/-- No register names a node that the command merges. -/
def NamesNoMerged (s : Session) (command : Command) : Prop :=
  ∀ name n, command = .change (.flatten name) → s.node? name = some n →
    ∀ m, s.MergedBelow n m → ∀ entry ∈ s.registers, entry.2 ≠ m

theorem Sound.wideHeld_perform (sound : s.Sound) (wide : s.store.Wide)
    (unnamed : s.NamesNoMerged (.change c)) : (s.perform c).session.WideHeld := by
  have forest := sound.store.forest
  cases c with
  | literal dst label => exact sound.wideHeld_literal wide dst label
  | operator dst op left right =>
      refine sound.wideHeld_withNode wide fun l _ liveL => ?_
      refine sound.wideHeld_withNode wide fun r _ liveR => ?_
      exact sound.wideHeld_operator wide dst op liveL liveR
  | parenthetical dst label inner =>
      refine sound.wideHeld_withNode wide fun i _ live => ?_
      exact sound.wideHeld_parenthetical wide dst label live
  | parse dst settings text => exact sound.wideHeld_parseInto wide dst settings text
  | validate dst label =>
      by_cases valid : IsLiteral label.toList
      · simp only [Session.perform, if_pos valid]
        exact sound.wideHeld_literal wide dst label
      · simp only [Session.perform, if_neg valid]
        exact sound.wideHeld wide
  | child dst of index =>
      refine sound.wideHeld_withNode wide fun n _ _ => ?_
      exact sound.wideHeld_assignOr wide dst fun c found =>
        forest.live_of_mem (mem_children_of_child? found)
  | parent dst of =>
      refine sound.wideHeld_withNode wide fun n _ _ => ?_
      exact sound.wideHeld_assignOr wide dst fun p above => (parent?_eq_some_iff.1 above).2
  | root dst of =>
      refine sound.wideHeld_withNode wide fun n _ live => ?_
      exact sound.wideHeld_assign wide dst (sound.store.forest.live_root live)
  | clone dst of =>
      exact sound.wideHeld_withNode wide fun n _ live => sound.wideHeld_assign wide dst live
  | deepCopy dst of =>
      refine sound.wideHeld_withNode wide fun n _ live => ?_
      have planted := planted_deepCopy forest n
      refine sound.wideHeld_planted wide dst planted.forest
        (forest.owned_new.planted forest planted) ?_
      rw [planted.expr_eq]
      exact forest.wide_expr_iff.2 fun m below => wide m (forest.live_of_below live below)
  | drop of =>
      exact sound.wideHeld_withNode wide fun _ _ _ => (sound.wideHeld wide).forget of
  | addChild of child =>
      refine sound.wideHeld_withNode wide fun p _ liveP => ?_
      refine sound.wideHeld_withNode wide fun c _ liveC => ?_
      exact sound.wideHeld_edited (sound.store.addChild liveP liveC)
        (fun _ live => live_addChild.2 live) (wide.addChild liveP) fun _ _ => rfl
  | setLabel of label =>
      refine sound.wideHeld_withNode wide fun n _ live => ?_
      exact sound.wideHeld_edited (sound.store.setLabel live label)
        (fun _ before => (live_setLabel label).2 before) (wide.setLabel live) fun _ _ => rfl
  | swap a b =>
      refine sound.wideHeld_withNode wide fun m _ _ => ?_
      refine sound.wideHeld_withNode wide fun n _ _ => ?_
      exact sound.wideHeld_edited (sound.store.swap m n) (fun _ live => (live_swap m n).2 live)
        wide.swap fun _ _ => rfl
  | flatten of =>
      refine sound.wideHeld_withNode wide fun n named live => ?_
      exact sound.wideHeld_flatten wide live (unnamed of n rfl named)
  | rest => exact sound.wideHeld wide

theorem Sound.wide_run (sound : s.Sound) (wide : s.store.Wide) {command : Command}
    (unnamed : s.NamesNoMerged command) : (s.run command).session.store.Wide := by
  cases command with
  | question q => exact wide
  | change c => exact (sound.perform c).wide_settle (sound.wideHeld_perform wide unnamed)

/-- The sessions to which commands lead that merge no node that a register names. -/
inductive Tidy : Session → Prop where
  | empty : Tidy .empty
  | step {s : Session} (command : Command) : Tidy s → s.NamesNoMerged command →
      Tidy (s.run command).session

namespace Tidy

theorem reachable (tidy : s.Tidy) : s.Reachable := by
  induction tidy with
  | empty => exact .empty
  | step command _ _ ih => exact ih.step command

/-- A change that lets go of nothing leads on as it is. -/
theorem perform (tidy : s.Tidy) (c : Change) (unnamed : s.NamesNoMerged (.change c))
    (none : (s.perform c).session.loose = []) : (s.perform c).session.Tidy := by
  have next := tidy.step (.change c) unnamed
  simp only [Session.run, settle_of_loose_eq_nil none] at next
  exact next

/-- In a tidy session every operator has two children or more. -/
theorem wide (tidy : s.Tidy) : s.store.Wide := by
  induction tidy with
  | empty => exact fun n live => absurd live (by simp [Store.Live, Session.empty])
  | step command before unnamed ih => exact before.reachable.sound.wide_run ih unnamed

end Tidy

/-- A node that a register names is still there after a flattening. -/
theorem Reachable.node?_run_flatten_of_named (reachable : s.Reachable) {other : String}
    (named : s.node? name = some n) (kept : s.node? other = some m) :
    (s.run (.change (.flatten name))).session.store.node? m = (s.store.flatten n).2.node? m := by
  rw [reachable.node?_run_flatten named, if_neg]
  intro loose
  obtain ⟨entry, member, same⟩ := exists_mem_registers_of_node? kept
  exact ((reachable.mem_loose_flatten named).1 loose).2 entry member same

/-- A node that is merged while a register names it is left as an operator without
children. -/
theorem Reachable.emptied_of_mergedBelow (reachable : s.Reachable) {other : String}
    (named : s.node? name = some n) (kept : s.node? other = some m) (merged : s.MergedBelow n m) :
    let after := (s.run (.change (.flatten name))).session
    after.node? other = some m ∧ ∃ op, after.store.Emptied op m := by
  intro after
  have forest := reachable.sound.store.forest
  have held := reachable.sound.perform (.flatten name)
  have same := reachable.node?_run_flatten_of_named named kept
  obtain ⟨below, gone⟩ := reachable.sound.mergedBelow_iff.1 merged
  obtain ⟨-, p, op, -, -, own⟩ := merged
  have kept' : (s.perform (.flatten name)).session.node? other = some m := by
    rw [session_perform_flatten named]
    exact kept
  have named' : after.node? other = some m := (node?_settle _ other).trans kept'
  have root : (s.perform (.flatten name)).session.store.IsRoot m := by
    rw [session_perform_flatten named]
    exact Store.isRoot_of_merged forest below gone
  refine ⟨named', op, ?live, held.isRoot_settle (reaches_of_node? kept') root, ?content, ?children⟩
  case live => exact (reachable.step _).sound.live_of_node? named'
  case content =>
    rw [content_of_node?_eq same, (regrouped_flatten forest n).content_eq]
    exact operator?_eq_some_iff.1 own
  case children =>
    rw [children_of_node?_eq same]
    exact children_eq_nil_of_merged forest below gone

/-- **Two children after flattening, and when not.**  If the operators of a tree have
two children or more each, they have them after the tree was flattened.  In a tidy
session all of them do, so every tree is as it should be when it was flattened.  But a
node that is merged while a register names it stays, as an operator without children,
and flattening it once more does not change that.  A new operator of its kind may be
made over it and another root, and is left with that root alone when it is flattened. -/
theorem Reachable.arity_of_flatten (reachable : s.Reachable) :
    (∀ n, (∀ m ∈ (s.store.tree n).preorder, s.store.WideAt m) →
      ∀ m ∈ ((s.store.flatten n).2.tree n).preorder, (s.store.flatten n).2.WideAt m) ∧
    (s.Tidy → ∀ n, s.store.Live n →
      ∀ m ∈ ((s.store.flatten n).2.tree n).preorder, (s.store.flatten n).2.WideAt m) ∧
    ∀ name other n m, s.node? name = some n → s.node? other = some m → s.MergedBelow n m →
      let after := (s.run (.change (.flatten name))).session
      after.node? other = some m ∧ ∃ op, (after.store.flatten m).2.content m = .operator op ∧
        (after.store.flatten m).2.children m = [] ∧
        ∀ x, after.store.Live x → after.store.IsRoot x → after.store.operator? x ≠ some op →
          ∃ sum made, after.store.operator op x m = (.ok sum, made) ∧
            (made.flatten sum).2.content sum = .operator op ∧
            (made.flatten sum).2.children sum = [x] := by
  have forest := reachable.sound.store.forest
  have keeps (n : NodeId) (wide : ∀ m ∈ (s.store.tree n).preorder, s.store.WideAt m) :
      ∀ m ∈ ((s.store.flatten n).2.tree n).preorder, (s.store.flatten n).2.WideAt m := by
    simp only [forest.mem_preorder_tree] at wide
    simp only [(regrouped_flatten forest n).forest.mem_preorder_tree]
    exact fun m below => forest.wideAt_flatten wide below
  refine ⟨keeps, fun tidy n live => keeps n fun m member => ?tidy, ?merged⟩
  case tidy =>
    exact tidy.wide m (forest.live_of_below live (forest.mem_preorder_tree.1 member))
  case merged =>
    intro name other n m named kept merged after
    have sound' : after.store.Sound := (reachable.step _).sound.store
    obtain ⟨named', op, emptied⟩ := reachable.emptied_of_mergedBelow named kept merged
    obtain ⟨content, childless⟩ := emptied.flatten sound'.forest
    exact ⟨named', op, content, childless, fun x => emptied.operator sound'⟩

/-- The sum `a + (b + c)`, without the parentheses and with a register on the inner sum,
beside a literal `x` that is added to the inner sum afterwards. -/
theorem arity_of_flattened_sum :
    let s := ((((((empty.perform (.literal "a" "a")).session.perform
      (.literal "b" "b")).session.perform (.literal "c" "c")).session.perform
      (.operator "inner" .add "b" "c")).session.perform
      (.operator "sum" .add "a" "inner")).session.perform (.literal "x" "x")).session
    let after := (s.run (.change (.flatten "sum"))).session
    s.Reachable ∧ s.Tidy ∧ (s.store.flatten 4).2.WideAt 4 ∧ after.node? "inner" = some 3 ∧
      (after.store.flatten 3).2.children 3 = [] ∧
      ∃ outer made, after.store.operator .add 5 3 = (.ok outer, made) ∧
        (made.flatten outer).2.children outer = [5] := by
  intro s after
  have tidy : s.Tidy :=
    (((((Tidy.empty.perform _ (by simp [NamesNoMerged]) (by decide)).perform _
      (by simp [NamesNoMerged]) (by decide)).perform _
      (by simp [NamesNoMerged]) (by decide)).perform _
      (by simp [NamesNoMerged]) (by decide)).perform _
      (by simp [NamesNoMerged]) (by decide)).perform _
      (by simp [NamesNoMerged]) (by decide)
  obtain ⟨-, wide, merged⟩ := tidy.reachable.arity_of_flatten
  have inner : s.MergedBelow 4 3 :=
    ⟨.single (by decide : (3 : NodeId) ∈ s.store.children 4),
      4, .add, by decide, by decide, by decide⟩
  obtain ⟨named, op, content, childless, anew⟩ :=
    merged "sum" "inner" 4 3 (by decide) (by decide) inner
  have settled : after = (s.perform (.flatten "sum")).session :=
    settle_of_loose_eq_nil (by decide)
  have fresh : after.store.Live 5 ∧ after.store.IsRoot 5 ∧
      after.store.operator? 5 = none ∧ (after.store.flatten 3).2.content 3 = .operator .add := by
    rw [settled]
    decide
  obtain ⟨live, root, literal, sum⟩ := fresh
  obtain rfl : .add = op := Content.operator.inj (sum.symm.trans content)
  obtain ⟨outer, made, result, -, alone⟩ := anew 5 live root (literal.trans_ne nofun)
  exact ⟨tidy.reachable, tidy, wide tidy 4 (by decide) 4 (by decide), named,
    childless, outer, made, result, alone⟩

/-- It is not so that every operator has two children when a tree was flattened.  The
inner sum, flattened again, has none.  Nor is it so of an operator that was just made
over two operands: a new sum of `x` and the inner sum is left with one child. -/
theorem emptied_operator_after_flatten :
    (¬ ∀ (s : Session) (n : NodeId), s.Reachable → s.store.Live n →
      ∀ m ∈ ((s.store.flatten n).2.tree n).preorder, (s.store.flatten n).2.WideAt m) ∧
    ¬ ∀ (s : Session) (op : Operator) (x m n : NodeId) (made : Store), s.Reachable →
      s.store.operator op x m = (.ok n, made) → (made.flatten n).2.WideAt n := by
  let s := (((((((empty.perform (.literal "a" "a")).session.perform
    (.literal "b" "b")).session.perform (.literal "c" "c")).session.perform
    (.operator "inner" .add "b" "c")).session.perform
    (.operator "sum" .add "a" "inner")).session.perform (.flatten "sum")).session.perform
    (.literal "x" "x")).session
  have reachable : s.Reachable :=
    ((((((Reachable.empty.perform _ (by decide)).perform _ (by decide)).perform _
      (by decide)).perform _ (by decide)).perform _ (by decide)).perform _
      (by decide)).perform _ (by decide)
  refine ⟨fun wide => ?inner, fun wide => ?outer⟩
  case inner =>
    have enough := wide s 3 reachable (by decide) 3 (by decide) .add
      (by decide)
    exact absurd enough (by decide)
  case outer =>
    have enough := wide s .add 5 3 6 _ reachable (Prod.ext rfl rfl) .add (by decide)
    exact absurd enough (by decide)

end Session

end OperatorTree
