/-
# OperatorTree.Proofs.Session.Reachable -- the invariant of every session

A session is reachable when commands lead to it from the empty one, made or
refused, in any order (`Reachable`).  Every change turns a sound session into
one that is sound in what is held (`Sound.perform`), and settling makes that
sound again, so every reachable session is sound (`Reachable.sound`).

The steps that commands have in common are taken apart once (`of_withNode`,
`of_assignOr`, `of_edited`); whatever is shown of all commands goes through these.

`Reachable.tree_invariant` says what this means for the nodes: child lists and
parents agree, no node is listed twice, no way down comes back, and literals and
parentheses have as many children as they should.
-/
import OperatorTree.Proofs.Session.Settle
import OperatorTree.Proofs.Store.Roots
import OperatorTree.Session.Run

namespace OperatorTree.Session

set_option autoImplicit false

variable {s : Session} {name : String} {n : NodeId}

/-! ## Registers -/

theorem mem_registers_of_node? (set : s.node? name = some n) : (name, n) ∈ s.registers := by
  obtain ⟨before, after, split, -⟩ := List.lookup_eq_some_iff.1 set
  rw [split]
  exact List.mem_append_right _ List.mem_cons_self

theorem exists_mem_registers_of_node? (set : s.node? name = some n) :
    ∃ entry ∈ s.registers, entry.2 = n :=
  ⟨(name, n), mem_registers_of_node? set, rfl⟩

theorem node?_assign (s : Session) (name : String) (n : NodeId) :
    (s.assign name n).node? name = some n := by
  simp [assign, node?]

theorem node?_forget (s : Session) (name : String) : (s.forget name).node? name = none := by
  rw [node?, List.lookup_eq_none_iff]
  intro entry member
  have other : entry.1 ≠ name := of_decide_eq_true (List.mem_filter.1 member).2
  exact bne_iff_ne.2 other.symm

/-! ## Steps of a command -/

/-- A step that needs a node is refused, or goes on with the node. -/
theorem of_withNode {P : Outcome → Prop} {next : NodeId → Outcome}
    (unset : P (s.refused (.noRegister name))) (set : ∀ n, s.node? name = some n → P (next n)) :
    P (s.withNode name next) := by
  unfold withNode
  cases named : s.node? name with
  | none => exact unset
  | some n => exact set n named

theorem of_assignOr {P : Outcome → Prop} {dst : String} {found : Option NodeId}
    (absent : P ⟨.ok .absent, [], s⟩) (present : ∀ n, found = some n → P (s.assign dst n).done) :
    P (s.assignOr dst found) := by
  cases found with
  | none => exact absent
  | some n => exact present n rfl

/-- A step that edits is refused, or goes on with the result, and in either case with
the store after the edit. -/
theorem of_edited {P : Outcome → Prop} {α : Type} {edit : Except NodeError α × Store}
    {next : α → Session → Outcome}
    (refused : ∀ e, edit.1 = .error e → P (({ s with store := edit.2 } : Session).refused (.node e)))
    (made : ∀ a, edit.1 = .ok a → P (next a { s with store := edit.2 })) :
    P (s.edited edit next) := by
  obtain ⟨result, store⟩ := edit
  cases result with
  | error e => exact refused e rfl
  | ok a => exact made a rfl

theorem store_edited {α : Type} {edit : Except NodeError α × Store} {next : α → Session → Outcome}
    (kept : ∀ a s', (next a s').session.store = s'.store) :
    (s.edited edit next).session.store = edit.2 :=
  of_edited (P := (·.session.store = edit.2)) (fun _ _ => rfl) fun a _ => kept a _

/-! ## Reading a text -/

/-- Makes the nodes of an expression, and flattens them in place if the settings ask for it. -/
def plantFor (settings : Grammar.Settings) (e : Expr) (store : Store) : NodeId × Store :=
  let planted := store.plant e
  (planted.1, if settings.flatten then (planted.2.flatten planted.1).2 else planted.2)

section PlantFor

variable {settings : Grammar.Settings} {e : Expr} {store : Store}

theorem plantFor_of_flatten (merge : settings.flatten = true) :
    plantFor settings e store =
      ((store.plant e).1, ((store.plant e).2.flatten (store.plant e).1).2) := by
  simp [plantFor, merge]

theorem plantFor_of_not_flatten (keep : ¬ settings.flatten = true) :
    plantFor settings e store = store.plant e := by
  simp [plantFor, keep]

end PlantFor

section ParseInto

variable {dst text : String} {settings : Grammar.Settings}

theorem session_parseInto_of_none (none : (Grammar.searchText text).found = none) :
    (s.parseInto dst settings text).session = s := by
  simp [parseInto, none]

theorem session_parseInto_of_found {e : Expr} (found : (Grammar.searchText text).found = some e) :
    (s.parseInto dst settings text).session =
      (s.assignNew dst (plantFor settings e s.store)).session := by
  simp only [parseInto, found, plantFor, assignNew, done]
  by_cases merge : settings.flatten = true
  · simp [merge]
  · simp [merge]

end ParseInto

namespace Sound

theorem live_of_node? (sound : s.Sound) (set : s.node? name = some n) : s.store.Live n := by
  obtain ⟨entry, member, rfl⟩ := exists_mem_registers_of_node? set
  exact sound.named entry member

/-- Another sound store may take the place of the store if it has kept the nodes. -/
theorem withStore (sound : s.Sound) {store : Store} (after : store.Sound)
    (kept : ∀ m, s.store.Live m → store.Live m) : ({ s with store } : Session).Sound where
  store := after
  named entry member := kept _ (sound.named entry member)

theorem assign (sound : s.Sound) (dst : String) (live : s.store.Live n) :
    (s.assign dst n).Sound where
  store := sound.store
  named entry member := by
    rcases List.mem_cons.1 member with rfl | other
    · exact live
    · exact sound.named entry (List.mem_filter.1 other).1

theorem forget (sound : s.Sound) (name : String) : (s.forget name).Sound where
  store := sound.store
  named entry member := sound.named entry (List.mem_filter.1 member).1

/-- A new node of any content does no harm while nothing holds it. -/
theorem soundHeld_alloc (sound : s.Sound) (content : Content) :
    ({ s with store := (s.store.alloc content).2 } : Session).SoundHeld where
  forest := sound.store.forest.alloc content
  named entry member := (Store.live_alloc content).2 (.inr (sound.named entry member))
  fits m held := by
    have live : s.store.Live m := by
      refine sound.live_of_mem_held (mem_held.2 ?_)
      rcases mem_held.1 held with named | ⟨p, listed⟩
      · exact .inl named
      · rw [Store.children_alloc] at listed
        exact .inr ⟨p, listed⟩
    have old : m ≠ s.store.slots.size := Nat.ne_of_lt (Store.lt_size_of_live live)
    exact Store.fitsAt_alloc_of_ne (sound.store.fits m live) old

/-! ### Steps of a command -/

theorem withNode (sound : s.Sound) {next : NodeId → Outcome}
    (later : ∀ n, s.store.Live n → (next n).session.SoundHeld) :
    (s.withNode name next).session.SoundHeld :=
  of_withNode (P := (·.session.SoundHeld)) sound.soundHeld fun n set =>
    later n (sound.live_of_node? set)

theorem assignOr (sound : s.Sound) (dst : String) {found : Option NodeId}
    (live : ∀ n, found = some n → s.store.Live n) :
    (s.assignOr dst found).session.SoundHeld :=
  of_assignOr (P := (·.session.SoundHeld)) sound.soundHeld fun n present =>
    (sound.assign dst (live n present)).soundHeld

theorem assignNew (sound : s.Sound) (dst : String) {made : NodeId × Store} (after : made.2.Sound)
    (kept : ∀ m, s.store.Live m → made.2.Live m) (live : made.2.Live made.1) :
    (s.assignNew dst made).session.SoundHeld :=
  ((sound.withStore after kept).assign dst live).soundHeld

theorem edited {α : Type} (sound : s.Sound) {edit : Except NodeError α × Store}
    {next : α → Session → Outcome} (after : edit.2.Sound)
    (kept : ∀ m, s.store.Live m → edit.2.Live m)
    (later : ∀ a, edit.1 = .ok a → ({ s with store := edit.2 } : Session).Sound →
      (next a { s with store := edit.2 }).session.SoundHeld) :
    (s.edited edit next).session.SoundHeld := by
  have whole := sound.withStore after kept
  exact of_edited (P := (·.session.SoundHeld)) (fun _ _ => whole.soundHeld) fun a made =>
    later a made whole

/-! ## Changes -/

theorem literal (sound : s.Sound) (dst label : String) :
    (s.assignNew dst (s.store.alloc (.literal label))).session.SoundHeld :=
  sound.assignNew dst (sound.store.alloc rfl) (fun _ live => (Store.live_alloc _).2 (.inr live))
    Store.live_alloc_new

theorem operator (sound : s.Sound) (dst : String) (op : Operator) {left right : NodeId}
    (liveLeft : s.store.Live left) (liveRight : s.store.Live right) :
    (s.edited (s.store.operator op left right) fun n s =>
      (s.assign dst n).done).session.SoundHeld := by
  have after : (s.store.operator op left right).2.Sound := sound.store.operator liveLeft liveRight
  rcases s.store.operator_cases op left right with
    ⟨e, refused⟩ | ⟨e, refused⟩ | ⟨-, -, -, made⟩
  · rw [refused]
    exact sound.soundHeld
  · rw [refused]
    exact sound.soundHeld_alloc _
  · rw [made] at after ⊢
    refine sound.edited after (fun m live => ?_) fun n result whole => ?_
    · rw [Store.live_attach, Store.live_attach]
      exact (Store.live_alloc _).2 (.inr live)
    · cases result
      refine (whole.assign dst ?_).soundHeld
      show Store.Live _ _
      rw [Store.live_attach, Store.live_attach]
      exact Store.live_alloc_new

theorem parenthetical (sound : s.Sound) (dst label : String) {inner : NodeId}
    (live : s.store.Live inner) :
    (s.edited (s.store.parenthetical label inner) fun n s =>
      (s.assign dst n).done).session.SoundHeld := by
  rcases s.store.parenthetical_cases label inner with ⟨e, refused⟩ | ⟨allowed, made⟩
  · rw [refused]
    exact sound.soundHeld_alloc _
  · rw [made]
    refine sound.edited (sound.store.parenthetical live allowed) (fun m before => ?_)
      fun n result whole => ?_
    · rw [Store.live_attach]
      exact (Store.live_alloc _).2 (.inr before)
    · cases result
      refine (whole.assign dst ?_).soundHeld
      show Store.Live _ _
      rw [Store.live_attach]
      exact Store.live_alloc_new

/-- New nodes for an expression do no harm if the expression is shaped. -/
theorem planted (sound : s.Sound) {e : Expr} (shaped : e.Shaped) :
    (s.store.plant e).2.Sound ∧ (∀ m, s.store.Live m → (s.store.plant e).2.Live m) ∧
      (s.store.plant e).2.Live (s.store.plant e).1 := by
  have planted := Store.planted_plant e sound.store.forest
  refine ⟨sound.store.planted shaped planted, fun m live => ?_, planted.live⟩
  exact (Store.live_of_node?_eq (planted.old m (Store.lt_size_of_live live))).2 live

theorem plantedFor (sound : s.Sound) (settings : Grammar.Settings) {e : Expr} (shaped : e.Shaped) :
    (plantFor settings e s.store).2.Sound ∧
      (∀ m, s.store.Live m → (plantFor settings e s.store).2.Live m) ∧
      (plantFor settings e s.store).2.Live (plantFor settings e s.store).1 := by
  obtain ⟨after, kept, live⟩ := sound.planted shaped
  by_cases merge : settings.flatten = true
  · rw [plantFor_of_flatten merge]
    have regrouped := Store.regrouped_flatten after.forest (s.store.plant e).1
    refine ⟨after.regrouped regrouped, fun m before => ?_, ?_⟩
    · exact (regrouped.live_iff m).2 (kept m before)
    · exact (regrouped.live_iff _).2 live
  · rw [plantFor_of_not_flatten merge]
    exact ⟨after, kept, live⟩

theorem parseInto (sound : s.Sound) (dst : String) (settings : Grammar.Settings) (text : String) :
    (s.parseInto dst settings text).session.SoundHeld := by
  cases found : (Grammar.searchText text).found with
  | none =>
      rw [session_parseInto_of_none found]
      exact sound.soundHeld
  | some e =>
      rw [session_parseInto_of_found found]
      have reads := Grammar.reads_of_found _ _ _ found
      obtain ⟨after, kept, live⟩ := sound.plantedFor settings reads.shaped
      exact sound.assignNew dst after kept live

/-- Whatever a change does, what is held afterwards is sound. -/
theorem perform (sound : s.Sound) (c : Change) : (s.perform c).session.SoundHeld := by
  cases c with
  | literal dst label => exact sound.literal dst label
  | operator dst op left right =>
      apply sound.withNode
      intro l liveL
      apply sound.withNode
      intro r liveR
      exact sound.operator dst op liveL liveR
  | parenthetical dst label inner =>
      exact sound.withNode fun i live => sound.parenthetical dst label live
  | parse dst settings text => exact sound.parseInto dst settings text
  | validate dst label =>
      by_cases valid : IsLiteral label.toList
      · simp only [Session.perform, if_pos valid]
        exact sound.literal dst label
      · simp only [Session.perform, if_neg valid]
        exact sound.soundHeld
  | child dst of index =>
      apply sound.withNode
      intro n _
      apply sound.assignOr dst
      intro c found
      exact sound.store.forest.live_of_mem (Store.mem_children_of_child? found)
  | parent dst of =>
      apply sound.withNode
      intro n _
      apply sound.assignOr dst
      intro p above
      exact (Store.parent?_eq_some_iff.1 above).2
  | root dst of =>
      apply sound.withNode
      intro n live
      apply sound.assignOr dst
      intro r top
      cases top
      exact sound.store.forest.live_root live
  | clone dst of =>
      apply sound.withNode
      intro n live
      apply sound.assignOr dst
      intro m same
      cases same
      exact live
  | deepCopy dst of =>
      apply sound.withNode
      intro n live
      obtain ⟨after, kept, liveCopy⟩ := sound.planted (sound.store.shaped_expr live)
      exact sound.assignNew dst after kept liveCopy
  | drop of => exact sound.withNode fun _ _ => (sound.forget of).soundHeld
  | addChild of child =>
      apply sound.withNode
      intro p liveP
      apply sound.withNode
      intro c liveC
      exact sound.edited (sound.store.addChild liveP liveC)
        (fun _ live => Store.live_addChild.2 live) fun _ _ whole => whole.soundHeld
  | setLabel of label =>
      apply sound.withNode
      intro n live
      exact sound.edited (sound.store.setLabel live label)
        (fun _ before => (Store.live_setLabel label).2 before) fun _ _ whole => whole.soundHeld
  | swap a b =>
      apply sound.withNode
      intro m _
      apply sound.withNode
      intro n _
      exact sound.edited (sound.store.swap m n) (fun _ live => (Store.live_swap m n).2 live)
        fun _ _ whole => whole.soundHeld
  | flatten of =>
      apply sound.withNode
      intro n _
      have regrouped := Store.regrouped_flatten sound.store.forest n
      exact (sound.withStore (sound.store.regrouped regrouped) fun m live =>
        (regrouped.live_iff m).2 live).soundHeld
  | rest => exact sound.soundHeld

/-- A command leads from a sound session to a sound session. -/
theorem run (sound : s.Sound) (command : Command) : (s.run command).session.Sound := by
  cases command with
  | change c =>
      show (s.perform c).session.settle.Sound
      exact (sound.perform c).settle
  | question q => exact sound

end Sound

/-! ## Reachable sessions -/

/-- The sessions to which commands lead from the empty one. -/
inductive Reachable : Session → Prop where
  | empty : Reachable .empty
  | step {s : Session} (command : Command) : Reachable s → Reachable (s.run command).session

theorem Reachable.sound (reachable : s.Reachable) : s.Sound := by
  induction reachable with
  | empty => exact sound_empty
  | step command _ ih => exact ih.run command

/-- In a reachable session nothing is loose. -/
theorem Reachable.loose_eq_nil (reachable : s.Reachable) : s.loose = [] := by
  induction reachable with
  | empty => rfl
  | step command _ ih =>
      cases command with
      | change c => exact loose_settle _
      | question q => exact ih

/-- In a reachable session every live node is held. -/
theorem Reachable.held_of_live (reachable : s.Reachable) (live : s.store.Live n) : n ∈ s.held :=
  mem_held_of_loose_eq_nil reachable.loose_eq_nil live

/-- A change that lets go of nothing leads on as it is. -/
theorem Reachable.perform (reachable : s.Reachable) (c : Change)
    (none : (s.perform c).session.loose = []) : (s.perform c).session.Reachable := by
  have next := reachable.step (.change c)
  simp only [Session.run, settle_of_loose_eq_nil none] at next
  exact next

/-- **Every reachable session is a forest of well-shaped trees.**  A node is in
the child list of another exactly when the other is its parent; no node is
listed twice, in one list or in two; no way down, and so no way up, comes back
to where it started; and a literal has no child, a pair of parentheses one. -/
theorem Reachable.tree_invariant (reachable : s.Reachable) :
    (∀ n p, s.store.Live n → s.store.Live p →
      (n ∈ s.store.children p ↔ s.store.parent? n = some p)) ∧
    (∀ p, (s.store.children p).Nodup) ∧
    (∀ n p q, n ∈ s.store.children p → n ∈ s.store.children q → p = q) ∧
    (∀ n, ¬ Relation.TransGen (fun p c => c ∈ s.store.children p) n n) ∧
    (∀ n, n ∉ s.store.ancestors n) ∧
    (∀ n label, s.store.Live n → s.store.content n = .literal label → s.store.children n = []) ∧
    (∀ n label, s.store.Live n → s.store.content n = .parenthetical label →
      ∃ c, s.store.children n = [c]) := by
  have sound := reachable.sound.store
  have forest := sound.forest
  refine ⟨?agree, forest.nodup_children, ?once, forest.acyclic, ?up, ?literal, ?parenthetical⟩
  case agree =>
    intro n p _ _
    exact forest.mem_children_iff_parent?
  case once =>
    intro n p q first second
    exact forest.eq_of_mem_of_mem first second
  case up =>
    intro n member
    exact forest.acyclic n (forest.mem_ancestors_iff.1 member)
  case literal =>
    intro n label live content
    have fits := sound.fits n live
    rw [Store.FitsAt, content] at fits
    exact List.eq_nil_of_length_eq_zero fits
  case parenthetical =>
    intro n label live content
    have fits := sound.fits n live
    rw [Store.FitsAt, content] at fits
    exact List.length_eq_one_iff.1 fits

theorem tree_invariant_of_parentheses :
    let s := ((empty.perform (.literal "a" "x")).session.perform
      (.parenthetical "p" "x" "a")).session
    s.Reachable ∧ s.store.Live 0 ∧ s.store.Live 1 ∧ s.store.parent? 0 = some 1 ∧
      0 ∈ s.store.children 1 ∧ s.store.children 0 = [] ∧ ∃ c, s.store.children 1 = [c] := by
  have first : ((empty.perform (.literal "a" "x")).session).Reachable :=
    Reachable.empty.perform _ (by decide)
  have reachable := first.perform (.parenthetical "p" "x" "a") (by decide)
  obtain ⟨agree, -, -, -, -, literal, parenthetical⟩ := reachable.tree_invariant
  refine ⟨reachable, by decide, by decide, by decide, ?_, ?_, ?_⟩
  · exact (agree 0 1 (by decide) (by decide)).2 (by decide)
  · exact literal 0 "x" (by decide) (by decide)
  · exact parenthetical 1 "x" (by decide) (by decide)

end OperatorTree.Session
