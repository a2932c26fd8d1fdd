/-
# OperatorTree.Proofs.Session.Release -- what becomes of a tree when a register lets go of it

A change that sets or forgets a register does two things, one after the other.  It
may make nodes, over operands that had no parent; the nodes that were there are
otherwise as they were (`Extends`).  Then the session is settled, and what the
registers do not lead to any more is gone.  So a node that they still lead to can
lose its parent and nothing else, and it loses it just when they do not lead to the
parent (`Reachable.lifetimes`).  A node that has lost its parent is a root like any
other: it may be attached again (`Accepted`).
-/
import OperatorTree.Proofs.Session.Isolation
import OperatorTree.Proofs.Session.Lifetimes
import OperatorTree.Proofs.Store.Refusals

namespace OperatorTree

set_option autoImplicit false

open Relation

/-! ## Roots -/

namespace Store

variable {s s' : Store} {A B : NodeId → Prop} {c m n p : NodeId}

/-- A root may become a child of a new node that can have children. -/
theorem IsForest.refusal?_alloc (forest : s.IsForest) {content : Content}
    (notLiteral : ∀ label, content ≠ .literal label) (live : s.Live n) (root : s.IsRoot n) :
    (s.alloc content).2.refusal? s.slots.size n = none := by
  rw [forest.refusal?_new notLiteral live, if_pos root]

/-- The node is taken as a child by every node that can have one more, as an operand
beside any other root, and as the contents of a pair of parentheses. -/
structure Accepted (s : Store) (n : NodeId) : Prop where
  /-- All but the nodes of its own tree, that is. -/
  addChild : ∀ p, s.full? p = none → ¬ ReflTransGen s.Lists n p →
    s.addChild p n = (.ok (), s.attach p n)
  operator : ∀ op m, s.Live m → s.IsRoot m → m ≠ n →
    (s.operator op n m).1 = .ok s.slots.size ∧ (s.operator op m n).1 = .ok s.slots.size
  parenthetical : ∀ label, (s.parenthetical label n).1 = .ok s.slots.size

theorem IsForest.accepted (forest : s.IsForest) (live : s.Live n) (root : s.IsRoot n) :
    s.Accepted n where
  addChild p notFull apart := by
    rw [Store.addChild, (refusal?_eq_none_iff forest).2 ⟨notFull, root, apart⟩]
  operator op m liveM rootM differ := by
    have first : (s.alloc (.operator op)).2.refusal? s.slots.size n = none :=
      forest.refusal?_alloc (by simp) live root
    have second : (s.alloc (.operator op)).2.refusal? s.slots.size m = none :=
      forest.refusal?_alloc (by simp) liveM rootM
    simp [Store.operator, differ, Ne.symm differ, alloc_fst, first, second]
  parenthetical label := by
    have allowed : (s.alloc (.parenthetical label)).2.refusal? s.slots.size n = none :=
      forest.refusal?_alloc (by simp) live root
    simp [Store.parenthetical, Store.addChild, alloc_fst, allowed]

/-! ## New nodes over old ones -/

/-- The nodes of `s` are still in `s'`, with their contents and their children, and
all but those of `A` with their links. -/
structure Extends (A : NodeId → Prop) (s s' : Store) : Prop where
  live_iff : ∀ n, n < s.slots.size → (s'.Live n ↔ s.Live n)
  content_eq : ∀ n, n < s.slots.size → s'.content n = s.content n
  children_eq : ∀ n, n < s.slots.size → s'.children n = s.children n
  link?_eq : ∀ n, n < s.slots.size → ¬ A n → s'.link? n = s.link? n

/-- Nothing but new numbers changed. -/
theorem Confined.extends (confined : Confined (s.slots.size ≤ ·) s s') : Extends A s s' where
  live_iff n old := live_of_node?_eq (confined.outside n (Nat.not_le.2 old))
  content_eq n old := content_of_node?_eq (confined.outside n (Nat.not_le.2 old))
  children_eq n old := children_of_node?_eq (confined.outside n (Nat.not_le.2 old))
  link?_eq n old _ := link?_of_node?_eq (confined.outside n (Nat.not_le.2 old))

namespace Extends

theorem mono (wider : ∀ n, A n → B n) (extended : Extends A s s') : Extends B s s' :=
  { extended with link?_eq := fun n old out => extended.link?_eq n old (out ∘ wider n) }

/-- A new node gets a child. -/
theorem attach (extended : Extends A s s') (new : s.slots.size ≤ p) (live : s'.Live p)
    (liveC : s'.Live c) (given : A c) : Extends A s (s'.attach p c) where
  live_iff n old := live_attach.trans (extended.live_iff n old)
  content_eq n old := content_attach.trans (extended.content_eq n old)
  children_eq n old := by
    rw [children_attach live, if_neg (Nat.ne_of_lt (Nat.lt_of_lt_of_le old new))]
    exact extended.children_eq n old
  link?_eq n old out := by
    have other : n ≠ c := by
      rintro rfl
      exact out given
    rw [link?_attach liveC, if_neg other]
    exact extended.link?_eq n old out

theorem parent?_of_eq_some (extended : Extends A s s') (out : ¬ A n)
    (above : s.parent? n = some p) : s'.parent? n = some p := by
  obtain ⟨linked, live⟩ := parent?_eq_some_iff.1 above
  rw [parent?_eq_some_iff, extended.link?_eq n (lt_size_of_live (live_of_link? linked)) out,
    extended.live_iff p (lt_size_of_live live)]
  exact ⟨linked, live⟩

/-- Only a node of `A` gets a parent, and that is a new node. -/
theorem given_of_parent? (extended : Extends A s s') (forest : s.IsForest) (forest' : s'.IsForest)
    (live : s.Live n) (root : s.IsRoot n) (above : s'.parent? n = some p) :
    A n ∧ s.slots.size ≤ p := by
  have new : s.slots.size ≤ p := by
    by_contra old
    have listed := forest'.mem_children_iff_parent?.2 above
    rw [extended.children_eq p (Nat.not_le.1 old)] at listed
    exact forest.not_mem_of_isRoot root listed
  refine ⟨?_, new⟩
  by_contra out
  have linked := (parent?_eq_some_iff.1 above).1
  rw [extended.link?_eq n (lt_size_of_live live) out] at linked
  exact Nat.not_lt.2 new (forest.link_lt linked)

end Extends

section Operands

variable (forest : s.IsForest)

include forest

theorem IsForest.extends_alloc (content : Content) : Extends A s (s.alloc content).2 :=
  (forest.owned_new.alloc content).extends

theorem IsForest.isRoot_of_refusal? {content : Content}
    (allowed : (s.alloc content).2.refusal? s.slots.size n = none) : s.IsRoot n := by
  have root := ((refusal?_eq_none_iff (forest.alloc content)).1 allowed).2.1
  rwa [IsRoot, forest.parent?_alloc] at root

theorem IsForest.extends_operator (op : Operator) {left right : NodeId} (liveL : s.Live left)
    (liveR : s.Live right) :
    Extends (fun n => s.IsRoot n ∧ (n = left ∨ n = right)) s (s.operator op left right).2 := by
  rcases s.operator_cases op left right with
    ⟨e, result⟩ | ⟨e, result⟩ | ⟨-, first, second, result⟩
  · rw [result]
    exact (Confined.refl forest.owned_new.closed).extends
  · rw [result]
    exact forest.extends_alloc _
  · rw [result]
    have kept {n : NodeId} (live : s.Live n) : (s.alloc (.operator op)).2.Live n :=
      (live_alloc _).2 (.inr live)
    refine ((forest.extends_alloc _).attach (Nat.le_refl _) live_alloc_new (kept liveL) ?_).attach
      (Nat.le_refl _) (live_attach.2 live_alloc_new) (live_attach.2 (kept liveR)) ?_
    · exact ⟨forest.isRoot_of_refusal? first, .inl rfl⟩
    · exact ⟨forest.isRoot_of_refusal? second, .inr rfl⟩

theorem IsForest.extends_parenthetical (label : String) {inner : NodeId} (live : s.Live inner) :
    Extends (fun n => s.IsRoot n ∧ n = inner) s (s.parenthetical label inner).2 := by
  rcases s.parenthetical_cases label inner with ⟨e, result⟩ | ⟨allowed, result⟩
  · rw [result]
    exact forest.extends_alloc _
  · rw [result]
    exact (forest.extends_alloc _).attach (Nat.le_refl _) live_alloc_new
      ((live_alloc _).2 (.inr live)) ⟨forest.isRoot_of_refusal? allowed, rfl⟩

end Operands

end Store

namespace Session

variable {s : Session} {c : Change} {m n p : NodeId} {name : String}

/-- A register names the node for the change to edit it. -/
def Edits (s : Session) (c : Change) (n : NodeId) : Prop :=
  ∃ name ∈ c.edits, s.node? name = some n

open Store

/-- A change that sets or forgets a register leaves the nodes that were there as they
were, but for the links of operands that had no parent. -/
theorem Sound.extends_perform (sound : s.Sound) (target : c.target? = some name) :
    Extends (fun n => s.store.IsRoot n ∧ s.Edits c n) s.store (s.perform c).session.store := by
  have forest := sound.store.forest
  have unchanged {A : NodeId → Prop} : Extends A s.store s.store :=
    (Confined.refl forest.owned_new.closed).extends
  cases c with
  | operator dst op left right =>
      refine of_withNode (P := (Extends _ s.store ·.session.store)) unchanged fun l namedL => ?_
      refine of_withNode (P := (Extends _ s.store ·.session.store)) unchanged fun r namedR => ?_
      rw [store_edited fun _ _ => rfl]
      refine (forest.extends_operator op (sound.live_of_node? namedL)
        (sound.live_of_node? namedR)).mono ?_
      rintro n ⟨root, rfl | rfl⟩
      · exact ⟨root, left, by simp [Change.edits], namedL⟩
      · exact ⟨root, right, by simp [Change.edits], namedR⟩
  | parenthetical dst label inner =>
      refine of_withNode (P := (Extends _ s.store ·.session.store)) unchanged fun i named => ?_
      rw [store_edited fun _ _ => rfl]
      refine (forest.extends_parenthetical label (sound.live_of_node? named)).mono ?_
      rintro n ⟨root, rfl⟩
      exact ⟨root, inner, by simp [Change.edits], named⟩
  | addChild | setLabel | swap | flatten | rest => cases target
  | _ =>
      -- The other changes edit no node that was there.
      refine (sound.confined_perform forest.owned_new ?_).extends
      simp [NamesInside, Change.edits]

/-! ## What is left when a register lets go -/

/-- A node that is left has the parent that it had before the change, if that one is left. -/
theorem Sound.parent?_run_iff {q : NodeId} (sound : s.Sound) (target : c.target? = some name)
    (above : s.store.parent? n = some p) (reached : (s.perform c).session.Reaches n) :
    (s.run (.change c)).session.store.parent? n = some q ↔
      p = q ∧ (s.perform c).session.Reaches p := by
  have attached : ¬ s.store.IsRoot n := by simp [IsRoot, above]
  have kept := (sound.extends_perform target).parent?_of_eq_some (attached ·.1) above
  show (s.perform c).session.settle.store.parent? n = some q ↔ _
  rw [(sound.perform c).parent?_settle reached, kept, Option.some_inj]
  refine and_congr_right fun same => ?_
  rw [same]

/-- **A node lives while a register leads to it, and loses nothing but its parent.**
The live nodes are those to which child lists lead from a register.  When a change
sets or forgets a register, the others stay as they are.  This one names the node that
the change found or made, or nothing if it was to be forgotten (`setTo?`), and if the
change was not made, it stays as well.  What is left are the nodes to which the
registers lead then.  Each that was there before has its content, its children and
their order as they were.  If it had a parent, it has this parent just when the
registers still lead to it, and none otherwise; if it had none, it gets one only as an
operand, and that is a new node.  Those that have none afterwards have no ancestors
and may be attached again. -/
theorem Reachable.lifetimes (reachable : s.Reachable) :
    (∀ n, s.store.Live n ↔ s.Reaches n) ∧
    ∀ c name, c.target? = some name →
      let made := (s.perform c).session
      let after := (s.run (.change c)).session
      after.registers = made.registers ∧
      (∀ other, other ≠ name → after.node? other = s.node? other) ∧
      ((s.run (.change c)).answer = .ok .done → after.node? name = s.setTo? c) ∧
      ((s.run (.change c)).answer ≠ .ok .done → after.registers = s.registers) ∧
      (∀ n, s.store.Live n → made.store.children n = s.store.children n) ∧
      (∀ n, after.store.Live n ↔ made.Reaches n) ∧
      (∀ n, made.Reaches n ↔ after.Reaches n) ∧
      ∀ n, s.store.Live n → made.Reaches n →
        after.store.content n = s.store.content n ∧
        after.store.children n = s.store.children n ∧
        (∀ p, s.store.parent? n = some p →
          (after.store.parent? n = some p ↔ made.Reaches p) ∧
          (after.store.parent? n = none ↔ ¬ made.Reaches p)) ∧
        (s.store.IsRoot n → ∀ p, after.store.parent? n = some p →
          s.Edits c n ∧ s.store.slots.size ≤ p) ∧
        (after.store.IsRoot n → after.store.ancestors n = [] ∧ after.store.Accepted n) := by
  have sound := reachable.sound
  refine ⟨fun n => reachable.live_iff_reaches, ?_⟩
  intro c name target made after
  have held : made.SoundHeld := sound.perform c
  have reachable' : after.Reachable := reachable.step (.change c)
  have registers : after.registers = made.registers := registers_settle made
  have extended := sound.extends_perform target
  have parent {n p q : NodeId} (above : s.store.parent? n = some p) (reached : made.Reaches n) :
      after.store.parent? n = some q ↔ p = q ∧ made.Reaches p :=
    sound.parent?_run_iff target above reached
  have lands := lands_perform s target
  refine ⟨registers, fun other differ => ?others,
    fun answer => (node?_settle made name).trans (lands.done answer),
    fun answer => registers.trans (lands.kept answer), fun n live => ?lists,
    fun n => held.live_settle_iff, fun n => ?reaches, fun n live reached => ⟨?content, ?children,
      fun p above => ⟨?kept, ?lost⟩, fun root p above => ?given, fun root => ⟨?alone, ?accepted⟩⟩⟩
  case others =>
    have unnamed : other ∉ c.target?.toList := by simpa [target] using differ
    ext n
    rw [reachable'.node?_eq_some_iff, reachable.node?_eq_some_iff, registers]
    exact (reassigned_perform s c).mem_iff unnamed
  case lists => exact extended.children_eq n (lt_size_of_live live)
  case reaches => exact held.live_settle_iff.symm.trans reachable'.live_iff_reaches
  case content =>
    exact (content_of_node?_eq (held.node?_settle reached)).trans
      (extended.content_eq n (lt_size_of_live live))
  case children =>
    exact (children_of_node?_eq (held.node?_settle reached)).trans
      (extended.children_eq n (lt_size_of_live live))
  case kept => exact (parent above reached).trans (and_iff_right rfl)
  case lost =>
    rw [Option.eq_none_iff_forall_ne_some]
    simp only [ne_eq, parent above reached, not_and, forall_eq']
  case given =>
    have before := ((held.parent?_settle reached).1 above).1
    obtain ⟨⟨-, edited⟩, new⟩ :=
      extended.given_of_parent? sound.store.forest held.forest live root before
    exact ⟨edited, new⟩
  case alone => exact ancestorsFrom_of_root root
  case accepted =>
    exact reachable'.sound.store.forest.accepted (held.live_settle_iff.2 reached) root

/-- The sum `a + b` is forgotten when its register is set to its own first operand. -/
theorem lifetimes_of_first_operand :
    let s := ((((empty.perform (.literal "a" "a")).session.perform
      (.literal "b" "b")).session.perform (.operator "sum" .add "a" "b")).session.perform
      (.drop "a")).session
    let after := (s.run (.change (.child "sum" "sum" 0))).session
    s.Reachable ∧ s.store.parent? 0 = some 2 ∧ after.node? "sum" = some 0 ∧
      after.node? "b" = some 1 ∧ ¬ after.store.Live 2 ∧ after.store.content 0 = .literal "a" ∧
      after.store.IsRoot 0 ∧ after.store.ancestors 0 = [] ∧
      (after.store.parenthetical "(a)" 0).1 = .ok after.store.slots.size := by
  intro s after
  have reachable : s.Reachable :=
    (((Reachable.empty.perform _ (by decide)).perform _ (by decide)).perform _
      (by decide)).perform _ (by decide)
  let made := (s.perform (.child "sum" "sum" 0)).session
  have reached : made.Reaches 0 := ⟨("sum", 0), by decide, .refl⟩
  have unreached : ¬ made.Reaches 2 := by
    rintro ⟨entry, member, way⟩
    have apart : ∀ entry ∈ made.registers, 2 ∉ (made.store.tree entry.2).preorder := by
      decide
    exact apart entry member ((reachable.sound.perform _).forest.mem_preorder_tree.2 way)
  have above : s.store.parent? 0 = some 2 := by decide
  obtain ⟨-, others, target, -, -, left, -, kept⟩ :=
    reachable.lifetimes.2 (.child "sum" "sum" 0) "sum" rfl
  obtain ⟨content, -, parent, -, free⟩ := kept 0 (by decide) reached
  have root : after.store.IsRoot 0 := ((parent 2 above).2).2 unreached
  obtain ⟨alone, accepted⟩ := free root
  have named : after.node? "sum" = some 0 := (target (by decide)).trans (by decide)
  exact ⟨reachable, above, named, (others "b" (by decide)).trans (by decide),
    unreached ∘ (left 2).1, content.trans (by decide), root, alone,
    accepted.parenthetical "(a)"⟩

end Session

end OperatorTree
