/-
# OperatorTree.Proofs.Session.Flattening -- flattening a node of a session

In a reachable session the store is a forest, so all that is known of flattening
in place holds of each of its nodes.  What the command adds is that the session
is settled afterwards.  The nodes that were merged are the only ones that
nothing may hold then (`mem_loose_flatten`): a register that names one keeps it,
alone, and without such a register it goes.
-/
import OperatorTree.Proofs.Session.Lifetimes
import OperatorTree.Proofs.Store.Recursion
import OperatorTree.Proofs.Store.Survivors

namespace OperatorTree.Session

set_option autoImplicit false

open Relation

variable {s : Session} {m n : NodeId} {name : String}

/-- A node below `n` that repeats the operator of its parent is merged when `n` is flattened. -/
def MergedBelow (s : Session) (n m : NodeId) : Prop :=
  s.store.Above n m ∧ s.store.RepeatsParent m

theorem Sound.mergedBelow_iff (sound : s.Sound) :
    s.MergedBelow n m ↔ ReflTransGen s.store.Lists n m ∧
      ¬ ReflTransGen (s.store.flatten n).2.Lists n m := by
  have forest := sound.store.forest
  rw [Store.below_flatten_iff forest, reflTransGen_iff_eq_or_transGen]
  constructor
  · rintro ⟨above, repeated⟩
    refine ⟨.inr above, ?_⟩
    rintro (rfl | ⟨-, new⟩)
    · exact forest.acyclic _ above
    · exact new repeated
  · rintro ⟨rfl | above, gone⟩
    · exact absurd (.inl rfl) gone
    · refine ⟨above, ?_⟩
      by_contra new
      exact gone (.inr ⟨above, new⟩)

/-- Only nodes that were merged are let go of. -/
theorem Reachable.mem_loose_flatten (reachable : s.Reachable) (named : s.node? name = some n) :
    m ∈ ({ s with store := (s.store.flatten n).2 } : Session).loose ↔
      s.MergedBelow n m ∧ ∀ entry ∈ s.registers, entry.2 ≠ m := by
  have sound := reachable.sound
  have forest := sound.store.forest
  have regrouped := Store.regrouped_flatten forest n
  rw [mem_loose, mem_held, sound.mergedBelow_iff]
  constructor
  · rintro ⟨live, free⟩
    obtain ⟨unnamed, unlisted⟩ := not_or.1 free
    have nobody : ∀ entry ∈ s.registers, entry.2 ≠ m := fun entry member same =>
      unnamed ⟨entry, member, same⟩
    have before : s.store.Live m := (regrouped.live_iff m).1 live
    -- The node was listed, so it was below `n`: elsewhere it would still be.
    have below : ReflTransGen s.store.Lists n m := by
      by_contra outside
      rcases mem_held.1 (reachable.held_of_live before) with held | ⟨p, listed⟩
      · exact unnamed held
      · refine unlisted ⟨p, ?_⟩
        have outsideP : ¬ ReflTransGen s.store.Lists n p := fun way => outside (way.tail listed)
        show m ∈ (s.store.flatten n).2.children p
        rwa [Store.children_of_node?_eq (Store.node?_flatten forest outsideP)]
    refine ⟨⟨below, fun way => ?_⟩, nobody⟩
    rcases ReflTransGen.cases_tail way with rfl | ⟨p, -, listed⟩
    · exact unnamed (exists_mem_registers_of_node? named)
    · exact unlisted ⟨p, listed⟩
  · rintro ⟨⟨below, merged⟩, nobody⟩
    refine ⟨?_, not_or.2 ⟨?_, ?_⟩⟩
    · obtain ⟨p, -, listed⟩ := Store.exists_lists_of_merged below merged
      exact (regrouped.live_iff m).2 (forest.live_of_mem listed)
    · rintro ⟨entry, member, same⟩
      exact nobody entry member same
    · rintro ⟨p, listed⟩
      exact regrouped.forest.not_mem_of_isRoot (Store.isRoot_of_merged forest below merged) listed

theorem session_perform_flatten (named : s.node? name = some n) :
    (s.perform (.flatten name)).session = { s with store := (s.store.flatten n).2 } := by
  simp [perform, withNode, named]

theorem answer_run_flatten (named : s.node? name = some n) :
    (s.run (.change (.flatten name))).answer = .ok .done := by
  simp [Session.run, Session.perform, withNode, named]

theorem node?_perform_flatten (named : s.node? name = some n) :
    (s.perform (.flatten name)).session.node? name = some n := by
  rw [session_perform_flatten named]
  exact named

/-- The register names the same node after the command. -/
theorem node?_run_flatten_self (named : s.node? name = some n) :
    (s.run (.change (.flatten name))).session.node? name = some n :=
  (node?_settle _ name).trans (node?_perform_flatten named)

theorem Sound.tree_run_flatten (sound : s.Sound) (named : s.node? name = some n) :
    (s.run (.change (.flatten name))).session.store.tree n = (s.store.flatten n).2.tree n := by
  have kept := (sound.perform (.flatten name)).tree_settle
    (reaches_of_node? (node?_perform_flatten named))
  refine kept.trans ?_
  rw [session_perform_flatten named]

theorem Sound.expr_run_flatten (sound : s.Sound) (named : s.node? name = some n) :
    (s.run (.change (.flatten name))).session.store.expr n = (s.store.expr n).flatten := by
  refine (sound.named_run (node?_perform_flatten named)).2.trans ?_
  rw [session_perform_flatten named]
  exact Store.expr_flatten sound.store.forest n

/-- What the command leaves is the flattened store, without what is loose in it. -/
theorem Reachable.node?_run_flatten (reachable : s.Reachable) (named : s.node? name = some n)
    (m : NodeId) :
    (s.run (.change (.flatten name))).session.store.node? m =
      if m ∈ ({ s with store := (s.store.flatten n).2 } : Session).loose then none
      else (s.store.flatten n).2.node? m := by
  have forest := reachable.sound.store.forest
  show (s.perform (.flatten name)).session.settle.store.node? m = _
  rw [session_perform_flatten named]
  apply store_node?_settle
  intro m loose
  have merged := ((reachable.mem_loose_flatten named).1 loose).1
  obtain ⟨below, gone⟩ := reachable.sound.mergedBelow_iff.1 merged
  exact Store.children_eq_nil_of_merged forest below gone

/-- **Flattening in place is the pure flattening, node by node.**  Begun at any node
`n` of a reachable session, the recursion comes to an end, and the tree of `n` is
then the flattened tree of the same nodes, with contents as before and links that
agree with the child lists.  What is left of it are `n` and the nodes below `n`
that do not repeat the operator of their parent; the others have become roots
without children.  The parent of `n` and the nodes outside its tree are as they
were, and no operator node of the tree has a child with its own operator.  The
command is never refused, sets no register, and lets go of nothing but merged
nodes that no register names. -/
theorem Reachable.flatten_in_place (reachable : s.Reachable) (n : NodeId) :
    let after := (s.store.flatten n).2
    (∀ merges end_, Store.FlattensTo n s.store merges end_ ↔
      s.store.flatten n = (merges, end_)) ∧
    after.tree n = (s.store.tree n).flatten s.store.operator? ∧
    (∀ p c, c ∈ after.children p ↔ after.parent? c = some p) ∧
    (∀ m, after.Live m ↔ s.store.Live m) ∧
    (∀ m, after.content m = s.store.content m) ∧
    (∀ m, m ∈ (after.tree n).preorder ↔
      m = n ∨ s.store.Above n m ∧ ¬ s.store.RepeatsParent m) ∧
    (∀ m, s.store.Above n m → s.store.RepeatsParent m →
      after.IsRoot m ∧ after.children m = []) ∧
    after.parent? n = s.store.parent? n ∧
    (∀ m, m ∉ (s.store.tree n).preorder → after.node? m = s.store.node? m) ∧
    (∀ m ∈ (after.tree n).preorder, ∀ op, after.operator? m = some op →
      ∀ c ∈ after.children m, after.operator? c ≠ some op) ∧
    ∀ name, s.node? name = some n →
      let outcome := s.run (.change (.flatten name))
      outcome.answer = .ok .done ∧ outcome.session.registers = s.registers ∧
      ∀ m, outcome.session.store.node? m = after.node? m ∨
        (s.store.Above n m ∧ s.store.RepeatsParent m ∧ (∀ entry ∈ s.registers, entry.2 ≠ m) ∧
          ¬ outcome.session.store.Live m) := by
  intro after
  have sound := reachable.sound
  have forest := sound.store.forest
  have flattened : Store.Flattened s.store n after := Store.flattened_flatten forest n
  have forest' := flattened.regrouped.forest
  refine ⟨fun _ _ => Store.flattensTo_iff forest, flattened.tree_eq,
    fun p c => forest'.mem_children_iff_parent?, flattened.regrouped.live_iff,
    flattened.regrouped.content_eq, ?stays, ?merged, ?top, ?outside, ?flat, ?command⟩
  case stays =>
    intro m
    rw [forest'.mem_preorder_tree]
    exact Store.below_flatten_iff forest
  case merged =>
    intro m above repeated
    obtain ⟨below, gone⟩ := sound.mergedBelow_iff.1 ⟨above, repeated⟩
    exact ⟨Store.isRoot_of_merged forest below gone,
      Store.children_eq_nil_of_merged forest below gone⟩
  case top => exact Store.parent?_flatten forest (forest.acyclic n)
  case outside =>
    intro m outside
    rw [forest.mem_preorder_tree] at outside
    exact Store.node?_flatten forest outside
  case flat =>
    intro m below op own c listed
    rw [forest'.mem_preorder_tree] at below
    exact Store.operator?_ne_of_below_flatten forest below listed own
  case command =>
    intro name named
    refine ⟨by simp [Session.run, Session.perform, withNode, named], ?_, fun m => ?_⟩
    · show (s.perform (.flatten name)).session.settle.registers = s.registers
      rw [registers_settle, session_perform_flatten named]
    · have view := reachable.node?_run_flatten named m
      by_cases loose : m ∈ ({ s with store := after } : Session).loose
      · rw [if_pos loose] at view
        obtain ⟨⟨above, repeated⟩, nobody⟩ := (reachable.mem_loose_flatten named).1 loose
        refine .inr ⟨above, repeated, nobody, ?_⟩
        simp [Store.Live, view]
      · rw [if_neg loose] at view
        exact .inl view

/-- The sum `a + (b + c)`, without the parentheses in it but in parentheses itself,
and with a register on the inner sum. -/
theorem flatten_in_place_of_inner_sum :
    let s := ((((((empty.perform (.literal "a" "a")).session.perform
      (.literal "b" "b")).session.perform (.literal "c" "c")).session.perform
      (.operator "inner" .add "b" "c")).session.perform
      (.operator "sum" .add "a" "inner")).session.perform
      (.parenthetical "top" "(a+b+c)" "sum")).session
    let after := (s.store.flatten 4).2
    s.Reachable ∧ s.store.children 4 = [0, 3] ∧ s.store.children 3 = [1, 2] ∧
      after.tree 4 = .node 4 [.node 0 [], .node 1 [], .node 2 []] ∧
      after.parent? 4 = some 5 ∧ after.IsRoot 3 ∧ after.children 3 = [] ∧
      (s.run (.change (.flatten "sum"))).session.store.children 4 = [0, 1, 2] := by
  intro s after
  have reachable : s.Reachable :=
    (((((Reachable.empty.perform _ (by decide)).perform _ (by decide)).perform _
      (by decide)).perform _ (by decide)).perform _ (by decide)).perform _
      (by decide)
  have named : s.node? "sum" = some 4 := by decide
  obtain ⟨-, tree, -, -, -, -, merged, top, -, -, command⟩ := reachable.flatten_in_place 4
  obtain ⟨root, alone⟩ := merged 3
    (.single (by decide : (3 : NodeId) ∈ s.store.children 4))
    ⟨4, .add, by decide, by decide, by decide⟩
  refine ⟨reachable, by decide, by decide, tree.trans (by decide),
    top.trans (by decide), root, alone, ?_⟩
  have stays := (command "sum" named).2.2 4
  rcases stays with same | ⟨-, -, nobody, -⟩
  · rw [Store.children_of_node?_eq same]
    decide
  · exact absurd rfl (nobody ("sum", 4) (by decide))

end OperatorTree.Session
