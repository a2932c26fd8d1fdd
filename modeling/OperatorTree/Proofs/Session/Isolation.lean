/-
# OperatorTree.Proofs.Session.Isolation -- commands on one tree leave the others alone

A command names its nodes by registers.  If the registers that it reads or sets
name members of an owned set only, it changes members only
(`Reachable.confined_run`).  Two things can happen to a node.  An edit can change
it, and the edits are confined to the set.  Or it can go, when the last that holds
it lets go of it; but a node outside is held by a register that the command does
not name, or listed by another node outside, and neither lets go.

By induction this holds of runs of any length (`RunWithin.confined`).  The tree of
a node with all nodes made later is owned, so a run within it leaves every other
tree as it was.  The tree of a deep copy is made of new nodes, so runs within the
copy and runs within the original do not see each other.
-/
import OperatorTree.Proofs.Session.Registers
import OperatorTree.Proofs.Store.Compare
import OperatorTree.Proofs.Store.Footprint

namespace OperatorTree.Session

set_option autoImplicit false

open Relation Store

variable {s s' : Session} {A : NodeId → Prop} {m n : NodeId} {name : String}

/-- Of the registers with these names, those that are set name members. -/
def NamesInside (s : Session) (names : List String) (A : NodeId → Prop) : Prop :=
  ∀ name ∈ names, ∀ n, s.node? name = some n → A n

theorem NamesInside.edits {c : Change} (inside : s.NamesInside c.names A) :
    s.NamesInside c.edits A :=
  fun name edited => inside name (Change.mem_names_of_mem_edits edited)

/-! ## What a change does before the session is settled -/

section Perform

variable (owned : s.store.Owned A)

include owned

theorem confined_withNode {next : NodeId → Outcome}
    (later : ∀ n, s.node? name = some n → Confined A s.store (next n).session.store) :
    Confined A s.store (s.withNode name next).session.store :=
  of_withNode (P := (Confined A s.store ·.session.store)) (.refl owned.closed) later

theorem confined_assignOr (dst : String) (found : Option NodeId) :
    Confined A s.store (s.assignOr dst found).session.store :=
  of_assignOr (P := (Confined A s.store ·.session.store)) (.refl owned.closed) fun _ _ =>
    .refl owned.closed

omit owned in
theorem confined_edited {α : Type} {edit : Except NodeError α × Store}
    {next : α → Session → Outcome} (confined : Confined A s.store edit.2)
    (kept : ∀ a s', (next a s').session.store = s'.store) :
    Confined A s.store (s.edited edit next).session.store := by
  rw [store_edited kept]
  exact confined

theorem confined_plantFor (forest : s.store.IsForest) (settings : Grammar.Settings) (e : Expr) :
    Confined A s.store (plantFor settings e s.store).2 := by
  have planted := planted_plant e forest
  have new := owned.planted forest planted
  by_cases merge : settings.flatten = true
  · rw [plantFor_of_flatten merge]
    have inside : A (s.store.plant e).1 := owned.new _ (Nat.le_of_eq planted.new.symm)
    exact new.trans ((new.owned owned).flatten planted.forest inside)
  · rw [plantFor_of_not_flatten merge]
    exact new

theorem confined_parseInto (forest : s.store.IsForest) (dst : String)
    (settings : Grammar.Settings) (text : String) :
    Confined A s.store (s.parseInto dst settings text).session.store := by
  cases found : (Grammar.searchText text).found with
  | none =>
      rw [session_parseInto_of_none found]
      exact .refl owned.closed
  | some e =>
      rw [session_parseInto_of_found found]
      exact confined_plantFor owned forest settings e

/-- The nodes that are edited are members, so nothing but members changes. -/
theorem Sound.confined_perform (sound : s.Sound) {c : Change} (inside : s.NamesInside c.edits A) :
    Confined A s.store (s.perform c).session.store := by
  have forest := sound.store.forest
  cases c with
  | literal dst label => exact owned.alloc _
  | operator dst op left right =>
      refine confined_withNode owned fun l namedL => confined_withNode owned fun r namedR => ?_
      have insideL : A l := inside left (by simp [Change.edits]) l namedL
      have insideR : A r := inside right (by simp [Change.edits]) r namedR
      exact confined_edited (owned.operator op insideL insideR) fun _ _ => rfl
  | parenthetical dst label inner =>
      refine confined_withNode owned fun i namedI => ?_
      have insideI : A i := inside inner (by simp [Change.edits]) i namedI
      exact confined_edited (owned.parenthetical label insideI) fun _ _ => rfl
  | parse dst settings text => exact confined_parseInto owned forest dst settings text
  | validate dst label =>
      by_cases valid : IsLiteral label.toList
      · simp only [Session.perform, if_pos valid]
        exact owned.alloc _
      · simp only [Session.perform, if_neg valid]
        exact confined_assignOr owned dst none
  | child dst of index => exact confined_withNode owned fun n _ => confined_assignOr owned dst _
  | parent dst of => exact confined_withNode owned fun n _ => confined_assignOr owned dst _
  | root dst of => exact confined_withNode owned fun n _ => confined_assignOr owned dst _
  | clone dst of => exact confined_withNode owned fun n _ => confined_assignOr owned dst _
  | deepCopy dst of =>
      exact confined_withNode owned fun n _ => owned.planted forest (planted_deepCopy forest n)
  | drop of => exact confined_withNode owned fun _ _ => .refl owned.closed
  | addChild of added =>
      refine confined_withNode owned fun p namedP => confined_withNode owned fun c namedC => ?_
      have insideP : A p := inside of (by simp [Change.edits]) p namedP
      have insideC : A c := inside added (by simp [Change.edits]) c namedC
      exact confined_edited (owned.addChild (sound.live_of_node? namedP) insideP insideC)
        fun _ _ => rfl
  | setLabel of label =>
      refine confined_withNode owned fun n namedN => ?_
      have insideN : A n := inside of (by simp [Change.edits]) n namedN
      exact confined_edited (owned.setLabel insideN label) fun _ _ => rfl
  | swap a b =>
      refine confined_withNode owned fun x namedX => confined_withNode owned fun y namedY => ?_
      have insideX : A x := inside a (by simp [Change.edits]) x namedX
      have insideY : A y := inside b (by simp [Change.edits]) y namedY
      exact confined_edited (owned.swap insideX insideY) fun _ _ => rfl
  | flatten of =>
      refine confined_withNode owned fun n namedN => ?_
      exact owned.flatten forest (inside of (by simp [Change.edits]) n namedN)
  | rest => exact .refl owned.closed

end Perform

/-! ## What goes when the session is settled -/

/-- Each node outside is held by a register or by another node outside. -/
def HeldOutside (s : Session) (A : NodeId → Prop) : Prop :=
  ∀ n, ¬ A n → s.store.Live n →
    (∃ entry ∈ s.registers, entry.2 = n) ∨ ∃ p, ¬ A p ∧ n ∈ s.store.children p

namespace HeldOutside

theorem node?_sweep (held : s.HeldOutside A) (out : ¬ A n) :
    s.sweep.store.node? n = s.store.node? n := by
  apply node?_foldl_erase_of_not_mem
  intro loose
  obtain ⟨live, free⟩ := mem_loose.1 loose
  refine free (mem_held.2 ((held n out live).imp_right ?_))
  rintro ⟨p, -, listed⟩
  exact ⟨p, listed⟩

theorem sweep (held : s.HeldOutside A) : s.sweep.HeldOutside A := by
  intro n out live
  rw [live_of_node?_eq (held.node?_sweep out)] at live
  refine (held n out live).imp_right ?_
  rintro ⟨p, outP, listed⟩
  exact ⟨p, outP, by rwa [children_of_node?_eq (held.node?_sweep outP)]⟩

theorem confined_sweep (held : s.HeldOutside A) (closed : s.store.Closed A) :
    Confined A s.store s.sweep.store where
  outside _ out := held.node?_sweep out
  size_le := Nat.le_of_eq (size_foldl_erase s.store s.loose).symm
  closed p c inside listed := by
    rw [Session.sweep, children_foldl_erase] at listed
    by_cases gone : p ∈ s.loose
    · simp [gone] at listed
    · rw [if_neg gone] at listed
      exact closed p c inside listed

theorem confined_settle (held : s.HeldOutside A) (closed : s.store.Closed A) :
    Confined A s.store s.settle.store := by
  induction s using Session.settle.induct with
  | case1 s none =>
      rw [settle_of_loose_eq_nil none]
      exact .refl closed
  | case2 s unsettled ih =>
      rw [settle, if_neg unsettled]
      have swept := held.confined_sweep closed
      exact swept.trans (ih held.sweep swept.closed)

end HeldOutside

/-- A change lets go of no node outside. -/
theorem Reachable.heldOutside_perform (reachable : s.Reachable) (owned : s.store.Owned A)
    {c : Change} (inside : s.NamesInside c.names A) : (s.perform c).session.HeldOutside A := by
  have confined := reachable.sound.confined_perform owned inside.edits
  intro n out live
  rw [live_of_node?_eq (confined.outside n out)] at live
  rcases mem_held.1 (reachable.held_of_live live) with ⟨entry, member, rfl⟩ | ⟨p, listed⟩
  · refine .inl ⟨entry, ((reassigned_perform s c).mem_iff fun target => ?_).2 member, rfl⟩
    have named := Change.mem_names_of_target? (Option.mem_toList.1 target)
    exact out (inside entry.1 named entry.2 (reachable.node?_of_mem member))
  · have outP : ¬ A p := fun insideP => out (owned.closed p n insideP listed)
    exact .inr ⟨p, outP, by rwa [children_of_node?_eq (confined.outside p outP)]⟩

/-- A command that names members only changes members only. -/
theorem Reachable.confined_run (reachable : s.Reachable) (owned : s.store.Owned A)
    {command : Command} (inside : s.NamesInside command.names A) :
    Confined A s.store (s.run command).session.store := by
  cases command with
  | question q => exact .refl owned.closed
  | change c =>
      have confined := reachable.sound.confined_perform owned inside.edits
      exact confined.trans
        ((reachable.heldOutside_perform owned inside).confined_settle confined.closed)

/-! ## Runs -/

/-- A run of commands, each of which names members only when its turn comes. -/
inductive RunWithin (A : NodeId → Prop) (s : Session) : Session → Prop where
  | done : RunWithin A s s
  | step {s' : Session} (command : Command) : RunWithin A s s' → s'.NamesInside command.names A →
      RunWithin A s (s'.run command).session

namespace RunWithin

theorem reachable (run : RunWithin A s s') (reachable : s.Reachable) : s'.Reachable := by
  induction run with
  | done => exact reachable
  | step command _ _ ih => exact ih.step command

theorem confined (run : RunWithin A s s') (reachable : s.Reachable) (owned : s.store.Owned A) :
    Confined A s.store s'.store := by
  induction run with
  | done => exact .refl owned.closed
  | step command before inside ih =>
      exact ih.trans ((before.reachable reachable).confined_run (ih.owned owned) inside)

/-- A run within one tree keeps every node that is not of this tree. -/
theorem kept (run : RunWithin (s.store.TreeAndNew n) s s') (reachable : s.Reachable)
    (live : s.store.Live m) (out : m ∉ (s.store.tree n).preorder) :
    s.store.Kept s'.store m := by
  have forest := reachable.sound.store.forest
  have owned := forest.owned n
  refine (run.confined reachable owned).kept owned.closed forest
    (run.reachable reachable).sound.store.forest live ?_
  rintro (below | beyond)
  · exact out below
  · exact absurd (lt_size_of_live live) (Nat.not_lt.2 beyond)

/-- A run within one tree keeps every tree that has no node in common with it. -/
theorem kept_tree (run : RunWithin (s.store.TreeAndNew n) s s') (reachable : s.Reachable)
    (live : s.store.Live m)
    (apart : ∀ k ∈ (s.store.tree m).preorder, k ∉ (s.store.tree n).preorder) :
    ∀ k ∈ (s.store.tree m).preorder, s.store.Kept s'.store k := by
  intro k member
  have forest := reachable.sound.store.forest
  have below := forest.mem_preorder_tree.1 member
  exact run.kept reachable (forest.live_of_below live below) (apart k member)

end RunWithin

/-! ## Deep copies -/

/-- What a session becomes when an unset register is set to a deep copy of `n`. -/
def withCopy (s : Session) (dst : String) (n : NodeId) : Session :=
  ⟨(s.store.deepCopy n).2, (dst, (s.store.deepCopy n).1) :: s.registers⟩

/-- All new nodes are held by the new register, and all others as before. -/
theorem Reachable.loose_withCopy (reachable : s.Reachable) (dst : String) (n : NodeId) :
    (s.withCopy dst n).loose = [] := by
  have planted := planted_deepCopy reachable.sound.store.forest n
  refine List.eq_nil_iff_forall_not_mem.2 fun m loose => ?_
  obtain ⟨live, free⟩ := mem_loose.1 loose
  refine free (mem_held.2 ?_)
  by_cases old : m < s.store.slots.size
  · have before := (live_of_node?_eq (planted.old m old)).1 live
    rcases mem_held.1 (reachable.held_of_live before) with ⟨entry, member, same⟩ | ⟨p, listed⟩
    · exact .inl ⟨entry, List.mem_cons_of_mem _ member, same⟩
    · have oldP := planted.old p (lt_size_of_live (live_of_mem_children listed))
      refine .inr ⟨p, ?_⟩
      show m ∈ (s.store.deepCopy n).2.children p
      rwa [children_of_node?_eq oldP]
  · rcases ReflTransGen.cases_tail (planted.below m (Nat.not_lt.1 old) live) with
      top | ⟨p, -, listed⟩
    · exact .inl ⟨_, List.mem_cons_self, top.symm⟩
    · exact .inr ⟨p, listed⟩

theorem Reachable.run_deepCopy (reachable : s.Reachable) {dst of : String}
    (named : s.node? of = some n) (unset : s.node? dst = none) :
    s.run (.change (.deepCopy dst of)) = ⟨.ok .done, [], s.withCopy dst n⟩ := by
  have others : s.registers.filter (·.1 ≠ dst) = s.registers := by
    refine List.filter_eq_self.2 fun entry member => decide_eq_true fun same => ?_
    have set := reachable.node?_of_mem member
    rw [same, unset] at set
    cases set
  have performed : s.perform (.deepCopy dst of) = ⟨.ok .done, [], s.withCopy dst n⟩ := by
    simp only [Session.perform, withNode, named, assignNew, assign, done, others, withCopy]
  simp only [Session.run, performed, settle_of_loose_eq_nil (reachable.loose_withCopy dst n)]

/-- A new tree has no node in common with the tree of a node that was there. -/
theorem Sound.apart_deepCopy (sound : s.Sound) (live : s.store.Live n)
    (member : m ∈ ((s.store.deepCopy n).2.tree n).preorder) :
    m ∉ ((s.store.deepCopy n).2.tree (s.store.deepCopy n).1).preorder := by
  have forest := sound.store.forest
  have planted := planted_deepCopy forest n
  rw [planted.forest.mem_preorder_tree] at member ⊢
  exact planted.not_below_of_below forest live member

/-- **Trees are isolated from each other, and deep copies from what they copy.**
A deep copy is a root that is equal in structure to what it copies; its nodes are
new, its links agree, and every node that was there stays as it was.  A run of
commands that name nodes of one tree only, or nodes made since the run began,
leaves every tree that has no node in common with it as it was: the same nodes in
the same order, each with its content, its children and its parent.  So after a
copy was made neither a run within the copy changes a node of the original nor a
run within the original a node of the copy. -/
theorem Reachable.isolated (reachable : s.Reachable) :
    (∀ n, s.store.Live n →
      let copy := (s.store.deepCopy n).1
      let after := (s.store.deepCopy n).2
      after.IsRoot copy ∧ after.equal copy n = true ∧ after.expr copy = s.store.expr n ∧
      (∀ m ∈ (after.tree copy).preorder, s.store.slots.size ≤ m ∧ after.Live m) ∧
      (∀ m c, c ∈ after.children m ↔ after.parent? c = some m) ∧
      (∀ m, s.store.Live m → s.store.Kept after m)) ∧
    (∀ n₁ n₂ s', s.store.Live n₁ →
      (∀ m ∈ (s.store.tree n₁).preorder, m ∉ (s.store.tree n₂).preorder) →
      RunWithin (s.store.TreeAndNew n₂) s s' →
      s'.store.tree n₁ = s.store.tree n₁ ∧
        ∀ m ∈ (s.store.tree n₁).preorder, s.store.Kept s'.store m) ∧
    (∀ dst of n, s.node? of = some n → s.node? dst = none →
      let made := s.run (.change (.deepCopy dst of))
      let copy := (s.store.deepCopy n).1
      let store := (s.store.deepCopy n).2
      made = ⟨.ok .done, [], ⟨store, (dst, copy) :: s.registers⟩⟩ ∧
      (∀ s', RunWithin (store.TreeAndNew copy) made.session s' →
        ∀ m ∈ (store.tree n).preorder, store.Kept s'.store m) ∧
      ∀ s', RunWithin (store.TreeAndNew n) made.session s' →
        ∀ m ∈ (store.tree copy).preorder, store.Kept s'.store m) := by
  have forest := reachable.sound.store.forest
  refine ⟨?copies, ?trees, ?both⟩
  case copies =>
    intro n live copy after
    have planted := planted_deepCopy forest n
    refine ⟨isRoot_of_link?_eq_none planted.unlinked, equal_deepCopy forest live, planted.expr_eq,
      fun m member => ?_, fun _ _ => planted.forest.mem_children_iff_parent?, fun m before =>
        planted.kept forest before⟩
    refine ⟨planted.size_le_of_mem_tree forest member, ?_⟩
    rw [planted.forest.mem_preorder_tree] at member
    exact planted.forest.live_of_below planted.live member
  case trees =>
    intro n₁ n₂ s' live apart run
    have kept := run.kept_tree reachable live apart
    refine ⟨?_, kept⟩
    apply tree_congr forest (run.reachable reachable).sound.store.forest
    intro m below
    exact (kept m (forest.mem_preorder_tree.2 below)).children_eq
  case both =>
    intro dst of n named unset made copy store
    have result : made = ⟨.ok .done, [], s.withCopy dst n⟩ := reachable.run_deepCopy named unset
    have reachable' : (s.withCopy dst n).Reachable := by
      have next := reachable.step (.change (.deepCopy dst of))
      rwa [reachable.run_deepCopy named unset] at next
    have live : s.store.Live n := reachable.sound.live_of_node? named
    have planted := planted_deepCopy forest n
    have liveN : store.Live n := (planted.kept forest live).live
    have apart : ∀ m ∈ (store.tree n).preorder, m ∉ (store.tree copy).preorder := fun m member =>
      reachable.sound.apart_deepCopy live member
    refine ⟨result, fun s' run => ?_, fun s' run => ?_⟩
    · rw [result] at run
      exact RunWithin.kept_tree (s := s.withCopy dst n) run reachable' liveN apart
    · rw [result] at run
      exact RunWithin.kept_tree (s := s.withCopy dst n) run reachable' planted.live
        fun m inside member => apart m member inside

/-- The copy of the sum `a + b` is made a product and then forgotten; the sum stays. -/
theorem isolated_copy_of_sum :
    let s := (((empty.perform (.literal "a" "a")).session.perform
      (.literal "b" "b")).session.perform (.operator "sum" .add "a" "b")).session
    let copied := (s.run (.change (.deepCopy "copy" "sum"))).session
    let relabelled := (copied.run (.change (.setLabel "copy" "*"))).session
    let dropped := (relabelled.run (.change (.drop "copy"))).session
    s.Reachable ∧ (s.store.deepCopy 2).2.children 3 = [4, 5] ∧
      (s.store.deepCopy 2).2.IsRoot 3 ∧ (s.store.deepCopy 2).2.equal 3 2 = true ∧
      dropped.store.content 2 = .operator .add ∧ dropped.store.children 2 = [0, 1] := by
  intro s copied relabelled dropped
  have reachable : s.Reachable :=
    ((Reachable.empty.perform _ (by decide)).perform _ (by decide)).perform _
      (by decide)
  obtain ⟨copies, -, both⟩ := reachable.isolated
  obtain ⟨root, equal, -⟩ := copies 2 (by decide)
  obtain ⟨result, kept, -⟩ := both "copy" "sum" 2 (by decide) (by decide)
  have within : ∀ session : Session, session.registers.lookup "copy" = some 3 →
      session.NamesInside ["copy"] ((s.store.deepCopy 2).2.TreeAndNew 3) := by
    intro session set name member n named
    cases List.mem_singleton.1 member
    cases set.symm.trans named
    exact .inl (by decide)
  have copied_eq : copied = s.withCopy "copy" 2 := (congrArg Outcome.session result :)
  have first : copied.registers.lookup "copy" = some 3 := by
    rw [copied_eq]
    decide
  have second : relabelled.registers.lookup "copy" = some 3 := by
    show (copied.perform (.setLabel "copy" "*")).session.settle.registers.lookup "copy" = some 3
    rw [registers_settle, copied_eq]
    decide
  have run : RunWithin ((s.store.deepCopy 2).2.TreeAndNew 3) copied dropped :=
    .step _ (.step _ .done (within _ first)) (within _ second)
  obtain ⟨-, content, children, -⟩ := kept dropped run 2 (by decide)
  exact ⟨reachable, by decide, root, equal, content.trans (by decide),
    children.trans (by decide)⟩

end OperatorTree.Session
