/-
# OperatorTree.Proofs.Session.Lifetimes -- a node lives while a register leads to it

Settling removes a node when nothing holds it, and only then looks at what it had
listed.  That is local, and would keep two nodes that hold each other; but no way
down a forest comes back.  So a node that is held, and whose parent is held, and so
on upwards, hangs from a register in the end (`SoundHeld.reaches_of_live`), and what
settling leaves is exactly what the registers lead to (`SoundHeld.live_settle_iff`).

A node that is left has its content and its children as before
(`SoundHeld.node?_settle`).  Its link is as before, too, but the parent may be gone
behind it: it has the parent that it had if that one is left, and else none
(`SoundHeld.parent?_settle`).
-/
import OperatorTree.Proofs.Session.Reachable

namespace OperatorTree.Session

set_option autoImplicit false

open Relation

variable {s : Session} {c m n p : NodeId}

/-- Child lists lead from some register down to the node. -/
def Reaches (s : Session) (n : NodeId) : Prop :=
  ∃ entry ∈ s.registers, ReflTransGen s.store.Lists entry.2 n

theorem Reaches.below (reached : s.Reaches n) (below : ReflTransGen s.store.Lists n m) :
    s.Reaches m := by
  obtain ⟨entry, member, way⟩ := reached
  exact ⟨entry, member, way.trans below⟩

theorem reaches_of_node? {name : String} (set : s.node? name = some n) : s.Reaches n :=
  ⟨(name, n), mem_registers_of_node? set, .refl⟩

theorem Reaches.mem_held (reached : s.Reaches n) : n ∈ s.held := by
  obtain ⟨entry, member, way⟩ := reached
  rcases ReflTransGen.cases_tail way with same | ⟨p, -, listed⟩
  · exact Session.mem_held.2 (.inl ⟨entry, member, same.symm⟩)
  · exact Session.mem_held.2 (.inr ⟨p, listed⟩)

theorem SoundHeld.live_of_reaches (sound : s.SoundHeld) (reached : s.Reaches n) :
    s.store.Live n := by
  obtain ⟨entry, member, way⟩ := reached
  exact sound.forest.live_of_below (sound.named entry member) way

/-! ## One sweep -/

theorem Reaches.node?_sweep (reached : s.Reaches n) :
    s.sweep.store.node? n = s.store.node? n :=
  Store.node?_foldl_erase_of_not_mem (not_mem_loose_of_held reached.mem_held)

/-- A sweep keeps every way down from a register, and makes none. -/
theorem reaches_sweep_iff : s.sweep.Reaches n ↔ s.Reaches n := by
  constructor
  · rintro ⟨entry, member, way⟩
    refine ⟨entry, member, ReflTransGen.mono (fun p c listed => ?_) _ _ way⟩
    rw [Store.Lists, sweep, Store.children_foldl_erase] at listed
    split at listed
    · cases listed
    · exact listed
  · rintro ⟨entry, member, way⟩
    refine ⟨entry, member, Store.below_congr (fun m below => ?_) way⟩
    exact Store.children_of_node?_eq (Reaches.node?_sweep ⟨entry, member, below⟩)

/-! ## Settling -/

/-- Where nothing is loose, the registers lead to every live node. -/
theorem SoundHeld.reaches_of_live (sound : s.SoundHeld) (none : s.loose = [])
    (live : s.store.Live n) : s.Reaches n := by
  induction n using sound.forest.induction_up with
  | step n ih =>
      rcases mem_held.1 (mem_held_of_loose_eq_nil none live) with ⟨entry, member, rfl⟩ | ⟨p, listed⟩
      · exact ⟨entry, member, .refl⟩
      · have above := sound.forest.mem_children_iff_parent?.1 listed
        exact (ih p above (Store.live_of_mem_children listed)).below (.single listed)

/-- **What settling leaves** is what the registers lead to. -/
theorem SoundHeld.live_settle_iff (sound : s.SoundHeld) :
    s.settle.store.Live n ↔ s.Reaches n := by
  induction s using Session.settle.induct with
  | case1 s none =>
      rw [settle_of_loose_eq_nil none]
      exact ⟨sound.reaches_of_live none, sound.live_of_reaches⟩
  | case2 s unsettled ih =>
      rw [Session.settle, if_neg unsettled, ih sound.sweep, reaches_sweep_iff]

theorem SoundHeld.node?_settle (sound : s.SoundHeld) (reached : s.Reaches n) :
    s.settle.store.node? n = s.store.node? n := by
  induction s using Session.settle.induct with
  | case1 s none => rw [settle_of_loose_eq_nil none]
  | case2 s unsettled ih =>
      rw [Session.settle, if_neg unsettled, ih sound.sweep (reaches_sweep_iff.2 reached),
        reached.node?_sweep]

/-- A node that is left has the parent that it had, if that one is left. -/
theorem SoundHeld.parent?_settle (sound : s.SoundHeld) (reached : s.Reaches n) :
    s.settle.store.parent? n = some p ↔ s.store.parent? n = some p ∧ s.Reaches p := by
  rw [Store.parent?_eq_some_iff, Store.parent?_eq_some_iff, sound.live_settle_iff,
    Store.link?_of_node?_eq (sound.node?_settle reached), and_assoc]
  exact and_congr_right fun _ => (and_iff_right_of_imp sound.live_of_reaches).symm

theorem SoundHeld.isRoot_settle (sound : s.SoundHeld) (reached : s.Reaches n)
    (root : s.store.IsRoot n) : s.settle.store.IsRoot n := by
  rw [Store.IsRoot, Option.eq_none_iff_forall_ne_some] at root ⊢
  exact fun p above => root p ((sound.parent?_settle reached).1 above).1

theorem SoundHeld.tree_settle (sound : s.SoundHeld) (reached : s.Reaches n) :
    s.settle.store.tree n = s.store.tree n :=
  Store.tree_congr sound.forest sound.settle.store.forest fun _ below =>
    Store.children_of_node?_eq (sound.node?_settle (reached.below below))

/-- What a node that is left makes up stays as it is. -/
theorem SoundHeld.expr_settle (sound : s.SoundHeld) (reached : s.Reaches n) :
    s.settle.store.expr n = s.store.expr n := by
  apply Store.expr_congr sound.forest sound.settle.store.forest
  intro m below
  have kept := sound.node?_settle (reached.below below)
  exact ⟨Store.children_of_node?_eq kept, Store.content_of_node?_eq kept⟩

/-- Sessions settle to the same if they agree in the registers, in the numbers handed out
and in the nodes that the registers lead to. -/
theorem SoundHeld.settle_congr {s' : Session} (sound : s.SoundHeld) (sound' : s'.SoundHeld)
    (registers : s'.registers = s.registers) (size : s'.store.slots.size = s.store.slots.size)
    (same : ∀ m, s.Reaches m → s'.store.node? m = s.store.node? m) : s'.settle = s.settle := by
  have reaches (m : NodeId) : s'.Reaches m ↔ s.Reaches m := by
    unfold Reaches
    rw [registers]
    refine exists_congr fun entry => and_congr_right fun member => ?_
    have trees : s'.store.tree entry.2 = s.store.tree entry.2 :=
      Store.tree_congr sound.forest sound'.forest fun k below =>
        Store.children_of_node?_eq (same k ⟨entry, member, below⟩)
    rw [← sound'.forest.mem_preorder_tree, trees, sound.forest.mem_preorder_tree]
  have stores : s'.settle.store = s.settle.store := by
    refine Store.ext_node? ?_ fun m => ?_
    · rw [size_settle, size_settle, size]
    · by_cases reached : s.Reaches m
      · rw [sound'.node?_settle ((reaches m).2 reached), sound.node?_settle reached,
          same m reached]
      · have gone := mt sound.live_settle_iff.1 reached
        have gone' := mt (sound'.live_settle_iff.trans (reaches m)).1 reached
        rw [Store.Live, Bool.not_eq_true, Option.isSome_eq_false_iff, Option.isNone_iff_eq_none]
          at gone gone'
        rw [gone, gone']
  have names : s'.settle.registers = s.settle.registers := by
    rw [registers_settle, registers_settle, registers]
  exact congrArg₂ Session.mk stores names

/-! ## Registers after a run -/

theorem node?_settle (s : Session) (name : String) : s.settle.node? name = s.node? name := by
  show s.settle.registers.lookup name = s.registers.lookup name
  rw [registers_settle]

/-- What a register names when a change has been made is still there, and makes up the same,
when the session has been settled. -/
theorem Sound.named_run (sound : s.Sound) {c : Change} {name : String}
    (named : (s.perform c).session.node? name = some n) :
    (s.run (.change c)).session.node? name = some n ∧
      (s.run (.change c)).session.store.expr n = (s.perform c).session.store.expr n :=
  ⟨(node?_settle _ name).trans named, (sound.perform c).expr_settle (reaches_of_node? named)⟩

/-! ## Reachable sessions -/

/-- In a reachable session a node is live just when a register leads to it. -/
theorem Reachable.live_iff_reaches (reachable : s.Reachable) : s.store.Live n ↔ s.Reaches n := by
  have sound := reachable.sound.soundHeld
  exact ⟨sound.reaches_of_live reachable.loose_eq_nil, sound.live_of_reaches⟩

end OperatorTree.Session
