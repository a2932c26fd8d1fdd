/-
# OperatorTree.Proofs.Store.Forest -- the invariant of a store

Child lists and links say the same thing twice.  A store is a forest
(`IsForest`) when they agree, no list names a node twice and no way down leads
back to where it started; a node then has one lister at most, its parent.  A
link may name a node that is gone, but only one that was there before, so a new
node has no children by accident.

Each change of a store has one lemma here that says when it keeps a forest.
Adding the edge from `p` to `c` closes a cycle only if `c` is `p` or above it
(`transGen_of_insert`); the other changes add no way that was not there.
-/
import Mathlib.Logic.Relation
import OperatorTree.Proofs.Store.View
import OperatorTree.Store.Edit

namespace OperatorTree.Store

set_option autoImplicit false

open Relation

/-- The node `p` has `c` in its child list. -/
def Lists (s : Store) (p c : NodeId) : Prop :=
  c ∈ s.children p

/-- The node `n` is below `a`: child lists lead down to it in one step or more. -/
def Above (s : Store) : NodeId → NodeId → Prop :=
  TransGen s.Lists

theorem Above.mono {s s' : Store} (fewer : ∀ a b, s'.Lists a b → s.Lists a b) {a n : NodeId}
    (above : s'.Above a n) : s.Above a n :=
  TransGen.mono fewer _ _ above

/-- Child lists and links agree, and no way down comes back. -/
structure IsForest (s : Store) : Prop where
  mem_children_iff : ∀ {p c}, c ∈ s.children p ↔ s.link? c = some p ∧ s.Live p
  nodup_children : ∀ p, (s.children p).Nodup
  acyclic : ∀ n, ¬ s.Above n n
  /-- A link names a node that is or was in the store. -/
  link_lt : ∀ {n p}, s.link? n = some p → p < s.slots.size

variable {s : Store} {c m n p q : NodeId}

/-! ## What a forest says about its nodes -/

namespace IsForest

/-- A node lists its children, and no others. -/
theorem mem_children_iff_parent? (forest : s.IsForest) :
    c ∈ s.children p ↔ s.parent? c = some p :=
  forest.mem_children_iff.trans parent?_eq_some_iff.symm

theorem live_of_mem (forest : s.IsForest) (member : c ∈ s.children p) : s.Live c :=
  live_of_link? (forest.mem_children_iff.1 member).1

theorem eq_of_mem_of_mem (forest : s.IsForest) (first : c ∈ s.children p)
    (second : c ∈ s.children q) : p = q := by
  have := (forest.mem_children_iff.1 first).1
  rw [(forest.mem_children_iff.1 second).1] at this
  exact (Option.some.inj this).symm

theorem not_mem_of_isRoot (forest : s.IsForest) (root : s.IsRoot c) : c ∉ s.children p := by
  intro member
  have above := forest.mem_children_iff_parent?.1 member
  rw [IsRoot] at root
  simp [root] at above

theorem ne_of_mem (forest : s.IsForest) (member : c ∈ s.children p) : c ≠ p := by
  rintro rfl
  exact forest.acyclic c (.single member)

end IsForest

/-! ## A new node, and a new content -/

theorem isForest_empty : empty.IsForest where
  mem_children_iff := by simp [children, link?]
  nodup_children := by simp [children]
  acyclic n above := by
    obtain ⟨c, listed, -⟩ := TransGen.head'_iff.1 above
    simp [Lists, children] at listed
  link_lt := by simp [link?]

theorem IsForest.alloc (forest : s.IsForest) (content : Content) :
    (s.alloc content).2.IsForest where
  mem_children_iff {p c} := by
    rw [children_alloc, link?_alloc, live_alloc, forest.mem_children_iff]
    constructor
    · rintro ⟨linked, live⟩
      exact ⟨linked, .inr live⟩
    · rintro ⟨linked, rfl | live⟩
      · exact absurd (forest.link_lt linked) (Nat.lt_irrefl _)
      · exact ⟨linked, live⟩
  nodup_children p := by
    rw [children_alloc]
    exact forest.nodup_children p
  acyclic n above := by
    refine forest.acyclic n (above.mono fun a b listed => ?_)
    rwa [Lists, children_alloc] at listed
  link_lt {n p} linked := by
    rw [link?_alloc] at linked
    rw [size_alloc]
    exact Nat.lt_succ_of_lt (forest.link_lt linked)

theorem IsForest.setContent (forest : s.IsForest) (content : Content) :
    (s.setContent n content).IsForest where
  mem_children_iff {p c} := by
    simpa using forest.mem_children_iff
  nodup_children p := by simpa using forest.nodup_children p
  acyclic m above := by
    refine forest.acyclic m (above.mono fun a b listed => ?_)
    rwa [Lists, children_setContent] at listed
  link_lt linked := by
    rw [link?_setContent] at linked
    rw [size_setContent]
    exact forest.link_lt linked

/-! ## A new edge -/

/-- A way that may use one edge more than the ways of `R` goes without it, or
reaches its start and goes on from its end. -/
theorem transGen_of_insert {α : Type} {R R' : α → α → Prop} {p c a b : α}
    (edge : ∀ x y, R' x y → R x y ∨ (x = p ∧ y = c)) (way : TransGen R' a b) :
    TransGen R a b ∨ (ReflTransGen R a p ∧ ReflTransGen R c b) := by
  induction way with
  | single step =>
      rcases edge _ _ step with old | ⟨rfl, rfl⟩
      · exact .inl (.single old)
      · exact .inr ⟨.refl, .refl⟩
  | tail _ step ih =>
      rcases edge _ _ step with old | ⟨rfl, rfl⟩
      · rcases ih with without | ⟨before, after⟩
        · exact .inl (without.tail old)
        · exact .inr ⟨before, after.tail old⟩
      · rcases ih with without | ⟨before, -⟩
        · exact .inr ⟨without.to_reflTransGen, .refl⟩
        · exact .inr ⟨before, .refl⟩

section Attach

variable (livePar : s.Live p) (liveChild : s.Live c)

@[simp] theorem size_attach (s : Store) (p c : NodeId) :
    (s.attach p c).slots.size = s.slots.size := by
  simp [attach]

@[simp] theorem live_attach : (s.attach p c).Live n ↔ s.Live n := by
  simp [attach]

@[simp] theorem content_attach : (s.attach p c).content n = s.content n := by
  simp [attach]

include livePar in
theorem children_attach :
    (s.attach p c).children n = if n = p then s.children p ++ [c] else s.children n := by
  unfold attach
  rw [children_setChildren _ (by simpa using livePar)]
  simp

include liveChild in
theorem link?_attach : (s.attach p c).link? n = if n = c then some p else s.link? n := by
  simp only [attach, link?_setChildren]
  exact link?_setParent _ liveChild

/-- Attaching a root below a node that is not below it keeps a forest. -/
theorem IsForest.attach (forest : s.IsForest) (livePar : s.Live p) (liveChild : s.Live c)
    (root : s.IsRoot c) (apart : ¬ ReflTransGen s.Lists c p) : (s.attach p c).IsForest where
  mem_children_iff {q x} := by
    rw [children_attach livePar, link?_attach liveChild, live_attach]
    by_cases child : x = c
    · subst child
      have notListed : x ∉ s.children q := forest.not_mem_of_isRoot root
      by_cases here : q = p
      · subst here
        simp [livePar]
      · simp [here, notListed, Ne.symm here]
    · by_cases here : q = p
      · subst here
        simp [child, forest.mem_children_iff]
      · simp [child, here, forest.mem_children_iff]
  nodup_children q := by
    rw [children_attach livePar]
    by_cases here : q = p
    · subst here
      have notListed : c ∉ s.children q := forest.not_mem_of_isRoot root
      rw [if_pos rfl, List.nodup_append]
      refine ⟨forest.nodup_children q, by simp, ?_⟩
      rintro x member y new rfl
      rw [List.mem_singleton.1 new] at member
      exact notListed member
    · rw [if_neg here]
      exact forest.nodup_children q
  acyclic n above := by
    have edge : ∀ x y, (s.attach p c).Lists x y → s.Lists x y ∨ (x = p ∧ y = c) := by
      intro x y listed
      rw [Lists, children_attach livePar] at listed
      by_cases here : x = p
      · subst here
        rw [if_pos rfl, List.mem_append, List.mem_singleton] at listed
        rcases listed with old | new
        · exact .inl old
        · exact .inr ⟨rfl, new⟩
      · rw [if_neg here] at listed
        exact .inl listed
    rcases transGen_of_insert edge above with old | ⟨before, after⟩
    · exact forest.acyclic n old
    · exact apart (after.trans before)
  link_lt {n q} linked := by
    rw [link?_attach liveChild] at linked
    rw [size_attach]
    by_cases child : n = c
    · rw [if_pos child] at linked
      exact Option.some.inj linked ▸ lt_size_of_live livePar
    · rw [if_neg child] at linked
      exact forest.link_lt linked

end Attach

/-! ## Children in another order -/

theorem IsForest.setChildren (forest : s.IsForest) {order : List NodeId}
    (permuted : order.Perm (s.children p)) (live : s.Live p) :
    (s.setChildren p order).IsForest := by
  have members : ∀ q x, x ∈ (s.setChildren p order).children q ↔ x ∈ s.children q := by
    intro q x
    rw [children_setChildren _ live]
    by_cases here : q = p
    · rw [if_pos here, here]
      exact permuted.mem_iff
    · rw [if_neg here]
  constructor
  · intro q x
    rw [members, link?_setChildren, live_setChildren]
    exact forest.mem_children_iff
  · intro q
    rw [children_setChildren _ live]
    by_cases here : q = p
    · rw [if_pos here]
      exact permuted.nodup_iff.2 (forest.nodup_children p)
    · rw [if_neg here]
      exact forest.nodup_children q
  · intro n above
    exact forest.acyclic n (above.mono fun a b listed => (members a b).1 listed)
  · intro n q linked
    rw [link?_setChildren] at linked
    rw [size_setChildren]
    exact forest.link_lt linked

end OperatorTree.Store
