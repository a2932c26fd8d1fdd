/-
# OperatorTree.Proofs.Session.Settle -- removing what nothing holds

A session is sound when its store is and its registers name live nodes.  A
change may leave a node that does not fit as long as nothing holds it: an empty
pair of parentheses is such a node after its contents were refused.  Before it
is settled a session is therefore sound only in what is held (`SoundHeld`).

A sweep removes nodes that no live node lists, so it keeps a forest
(`IsForest.erase`), and what it leaves is what it was.  Settling is a run of
sweeps; when it ends every live node is held, and the session is sound
(`SoundHeld.settle`).
-/
import OperatorTree.Proofs.Store.Shape
import OperatorTree.Session.Basic

namespace OperatorTree

set_option autoImplicit false

/-! ## Nodes removed -/

/-- Removing nodes that no node lists keeps a forest; what they listed become roots. -/
theorem Store.IsForest.erase {s : Store} (forest : s.IsForest) {ns : List NodeId}
    (unlisted : ∀ n ∈ ns, ∀ p, n ∉ s.children p) : (ns.foldl .erase s).IsForest where
  mem_children_iff {p c} := by
    rw [children_foldl_erase, link?_foldl_erase, Session.live_foldl_erase]
    by_cases gone : p ∈ ns
    · simp [gone]
    · by_cases child : c ∈ ns
      · simp [gone, child, unlisted c child p]
      · simp [gone, child, forest.mem_children_iff]
  nodup_children p := by
    rw [children_foldl_erase]
    by_cases gone : p ∈ ns
    · simp [gone]
    · rw [if_neg gone]
      exact forest.nodup_children p
  acyclic n above := by
    refine forest.acyclic n (above.mono fun a b listed => ?_)
    rw [Lists, children_foldl_erase] at listed
    by_cases gone : a ∈ ns
    · simp [gone] at listed
    · rwa [if_neg gone] at listed
  link_lt {n p} linked := by
    rw [link?_foldl_erase] at linked
    by_cases gone : n ∈ ns
    · simp [gone] at linked
    · rw [if_neg gone] at linked
      rw [Session.size_foldl_erase]
      exact forest.link_lt linked

namespace Session

variable {s : Session} {n p : NodeId}

/-- The store is sound, and the registers name live nodes. -/
structure Sound (s : Session) : Prop where
  store : s.store.Sound
  named : ∀ entry ∈ s.registers, s.store.Live entry.2

/-- The store is a forest, the registers name live nodes, and what is held fits. -/
structure SoundHeld (s : Session) : Prop where
  forest : s.store.IsForest
  named : ∀ entry ∈ s.registers, s.store.Live entry.2
  fits : ∀ n ∈ s.held, s.store.FitsAt n

theorem mem_held :
    n ∈ s.held ↔ (∃ entry ∈ s.registers, entry.2 = n) ∨ ∃ p, n ∈ s.store.children p := by
  unfold held
  rw [List.mem_append, List.mem_map, List.mem_flatMap]
  refine or_congr Iff.rfl ⟨?_, ?_⟩
  · rintro ⟨p, -, listed⟩
    exact ⟨p, listed⟩
  · rintro ⟨p, listed⟩
    exact ⟨p, Store.mem_live.2 (Store.live_of_mem_children listed), listed⟩

theorem Sound.live_of_mem_held (sound : s.Sound) (held : n ∈ s.held) : s.store.Live n := by
  rcases mem_held.1 held with ⟨entry, member, rfl⟩ | ⟨p, listed⟩
  · exact sound.named entry member
  · exact sound.store.forest.live_of_mem listed

theorem Sound.soundHeld (sound : s.Sound) : s.SoundHeld where
  forest := sound.store.forest
  named := sound.named
  fits n held := sound.store.fits n (sound.live_of_mem_held held)

theorem sound_empty : empty.Sound where
  store := Store.sound_empty
  named entry member := by cases member

/-! ## One sweep -/

theorem not_mem_loose_of_held (held : n ∈ s.held) : n ∉ s.loose := by
  intro loose
  exact (mem_loose.1 loose).2 held

theorem not_listed_of_mem_loose (loose : n ∈ s.loose) : n ∉ s.store.children p := by
  intro listed
  exact (mem_loose.1 loose).2 (mem_held.2 (.inr ⟨p, listed⟩))

/-- What is held after a sweep was held before it. -/
theorem mem_held_of_mem_held_sweep (held : n ∈ s.sweep.held) : n ∈ s.held := by
  rw [mem_held] at held ⊢
  rcases held with ⟨entry, member, same⟩ | ⟨p, listed⟩
  · exact .inl ⟨entry, member, same⟩
  · refine .inr ⟨p, ?_⟩
    rw [sweep, Store.children_foldl_erase] at listed
    by_cases gone : p ∈ s.loose
    · simp [gone] at listed
    · rwa [if_neg gone] at listed

theorem SoundHeld.sweep (sound : s.SoundHeld) : s.sweep.SoundHeld where
  forest := sound.forest.erase fun _ loose _ => not_listed_of_mem_loose loose
  named entry member := by
    have held : entry.2 ∈ s.held := mem_held.2 (.inl ⟨entry, member, rfl⟩)
    exact (live_sweep s _).2 ⟨sound.named entry member, held⟩
  fits n held := by
    have before := mem_held_of_mem_held_sweep held
    have kept := Store.node?_foldl_erase_of_not_mem (s := s.store) (not_mem_loose_of_held before)
    refine (sound.fits n before).congr (Store.content_of_node?_eq kept) ?_
    rw [Session.sweep, Store.children_of_node?_eq kept]

/-! ## Settling -/

theorem settle_of_loose_eq_nil (none : s.loose = []) : s.settle = s := by
  rw [settle, if_pos none]

/-- Where nothing is loose, every live node is held. -/
theorem mem_held_of_loose_eq_nil (none : s.loose = []) (live : s.store.Live n) : n ∈ s.held := by
  by_contra free
  have loose : n ∈ s.loose := mem_loose.2 ⟨live, free⟩
  rw [none] at loose
  cases loose

theorem SoundHeld.sound_of_loose_eq_nil (sound : s.SoundHeld) (none : s.loose = []) : s.Sound where
  store := by
    refine ⟨sound.forest, ?_⟩
    intro n live
    exact sound.fits n (mem_held_of_loose_eq_nil none live)
  named := sound.named

theorem SoundHeld.settle (sound : s.SoundHeld) : s.settle.Sound := by
  induction s using Session.settle.induct with
  | case1 s none =>
      rw [settle_of_loose_eq_nil none]
      exact sound.sound_of_loose_eq_nil none
  | case2 s unsettled ih =>
      rw [Session.settle, if_neg unsettled]
      exact ih sound.sweep

/-- Settling ends when nothing is loose. -/
theorem loose_settle (s : Session) : s.settle.loose = [] := by
  induction s using Session.settle.induct with
  | case1 s none => rw [settle_of_loose_eq_nil none, none]
  | case2 s unsettled ih => rwa [settle, if_neg unsettled]

section Childless

variable (childless : ∀ n ∈ s.loose, s.store.children n = [])

include childless

/-- Nodes without children let go of nothing, so one sweep is enough for them. -/
theorem settle_eq_sweep : s.settle = s.sweep := by
  have none : s.sweep.loose = [] := by
    refine List.eq_nil_iff_forall_not_mem.2 fun n loose => ?_
    obtain ⟨live, free⟩ := mem_loose.1 loose
    apply free
    rw [mem_held]
    rcases mem_held.1 ((live_sweep s n).1 live).2 with named | ⟨p, listed⟩
    · exact .inl named
    · have kept : p ∉ s.loose := fun gone => by simp [childless p gone] at listed
      refine .inr ⟨p, ?_⟩
      rwa [sweep, Store.children_foldl_erase, if_neg kept]
  by_cases settled : s.loose = []
  · rw [settle_of_loose_eq_nil settled, sweep, settled]
    rfl
  · rw [settle, if_neg settled, settle_of_loose_eq_nil none]

theorem store_node?_settle (n : NodeId) :
    s.settle.store.node? n = if n ∈ s.loose then none else s.store.node? n := by
  rw [settle_eq_sweep childless]
  exact Store.node?_foldl_erase ..

end Childless

/-! ## What settling leaves alone -/

theorem registers_settle (s : Session) : s.settle.registers = s.registers := by
  induction s using Session.settle.induct with
  | case1 s none => rw [settle_of_loose_eq_nil none]
  | case2 s unsettled ih =>
      rw [settle, if_neg unsettled, ih]
      rfl

theorem size_settle (s : Session) : s.settle.store.slots.size = s.store.slots.size := by
  induction s using Session.settle.induct with
  | case1 s none => rw [settle_of_loose_eq_nil none]
  | case2 s unsettled ih =>
      rw [settle, if_neg unsettled, ih]
      exact size_foldl_erase s.store s.loose

end Session

end OperatorTree
