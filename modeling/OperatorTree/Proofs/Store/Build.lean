/-
# OperatorTree.Proofs.Store.Build -- trees built from their operands up

Nodes that are made one after the other, operands first, are roots when they are
made (`Freestanding`).  A root can be taken for an operand, so no edit of this kind
is refused, and the new node is a root in turn that makes up what its operands make
up (`Sound.freestanding_operator`, `Sound.freestanding_parenthetical`).  Meanwhile
other nodes may be made; they do not touch those that were there
(`Freestanding.of_confined`).
-/
import OperatorTree.Proofs.Store.Footprint
import OperatorTree.Proofs.Store.Refusals

namespace OperatorTree.Store

set_option autoImplicit false

open Relation

variable {s s' : Store} {n l r : NodeId} {e a b : Expr}

/-- The node is no part of another tree, and makes up the expression. -/
structure Freestanding (s : Store) (n : NodeId) (e : Expr) : Prop where
  live : s.Live n
  root : s.IsRoot n
  expr_eq : s.expr n = e

/-- A tree stays as it is while other nodes are made. -/
theorem Freestanding.of_confined (standing : s.Freestanding n e) (forest : s.IsForest)
    (forest' : s'.IsForest) (confined : Confined (s.slots.size ≤ ·) s s') :
    s'.Freestanding n e := by
  have kept : ∀ m, ReflTransGen s.Lists n m → s.Kept s' m := fun m below =>
    have live := forest.live_of_below standing.live below
    confined.kept forest.owned_new.closed forest forest' live (Nat.not_le.2 (lt_size_of_live live))
  constructor
  case live => exact (kept n .refl).live
  case root => exact (kept n .refl).parent?_eq.trans standing.root
  case expr_eq =>
    rw [← standing.expr_eq]
    exact expr_congr forest forest' fun m below =>
      ⟨(kept m below).children_eq, (kept m below).content_eq⟩

/-! ## A new node over nodes that were there -/

/-- All that is new in `s'` is a root with the children `cs`, which were there. -/
structure NewOver (s : Store) (content : Content) (cs : List NodeId) (s' : Store) : Prop where
  operands : ∀ c ∈ cs, s.Live c
  live : s'.Live s.slots.size
  live_old : ∀ m, s.Live m → s'.Live m
  unlinked : s'.link? s.slots.size = none
  content_eq : s'.content s.slots.size = content
  children_eq : s'.children s.slots.size = cs
  others : ∀ m, m ≠ s.slots.size → s'.children m = s.children m ∧ s'.content m = s.content m

namespace NewOver

variable {content : Content} {cs : List NodeId}

theorem alloc (s : Store) (content : Content) : NewOver s content [] (s.alloc content).2 where
  operands := by simp
  live := live_alloc_new
  live_old m live := (live_alloc content).2 (.inr live)
  unlinked := link?_alloc_new
  content_eq := content_alloc_new
  children_eq := children_alloc_new
  others m old := ⟨children_alloc content, by rw [content_alloc, if_neg old]⟩

theorem attach (made : NewOver s content cs s') (live : s.Live n) :
    NewOver s content (cs ++ [n]) (s'.attach s.slots.size n) where
  operands c member := by
    rcases List.mem_append.1 member with before | last
    · exact made.operands c before
    · rwa [List.mem_singleton.1 last]
  live := live_attach.2 made.live
  live_old m old := live_attach.2 (made.live_old m old)
  unlinked := by
    rw [link?_attach (made.live_old n live), if_neg, made.unlinked]
    exact (Nat.ne_of_lt (lt_size_of_live live)).symm
  content_eq := content_attach.trans made.content_eq
  children_eq := by rw [children_attach made.live, if_pos rfl, made.children_eq]
  others m old := by
    rw [children_attach made.live, if_neg old, content_attach]
    exact made.others m old

/-- The new node makes up what its children made up. -/
theorem freestanding (made : NewOver s content cs s') (forest : s.IsForest)
    (forest' : s'.IsForest) : s'.Freestanding s.slots.size (.node content (cs.map s.expr)) where
  live := made.live
  root := isRoot_of_link?_eq_none made.unlinked
  expr_eq := by
    have operand : ∀ c ∈ cs, s'.expr c = s.expr c := by
      intro c member
      refine expr_congr forest forest' fun m below => made.others m ?_
      have live := forest.live_of_below (made.operands c member) below
      exact Nat.ne_of_lt (lt_size_of_live live)
    rw [forest'.expr_eq, made.content_eq, made.children_eq, List.map_congr_left operand]

end NewOver

/-- An operator node that is made is new over its operands. -/
theorem newOver_operator {op : Operator} (liveL : s.Live l) (liveR : s.Live r)
    (allowed : (s.operator op l r).1 = .ok n) :
    NewOver s (.operator op) [l, r] (s.operator op l r).2 := by
  rcases s.operator_cases op l r with ⟨e, refused⟩ | ⟨e, refused⟩ | ⟨-, -, -, made⟩
  · simp [refused] at allowed
  · simp [refused] at allowed
  · rw [made]
    exact ((NewOver.alloc s (.operator op)).attach liveL).attach liveR

section Made

variable (sound : s.Sound)

include sound

theorem Sound.freestanding_literal (label : String) :
    (s.alloc (.literal label)).2.Freestanding s.slots.size (.literal label) :=
  (NewOver.alloc s (.literal label)).freestanding sound.forest (sound.forest.alloc _)

/-- **An operator node over two roots is made**, and is a root. -/
theorem Sound.freestanding_operator (op : Operator) (left : s.Freestanding l a)
    (right : s.Freestanding r b) (differ : l ≠ r) :
    ∃ s', s.operator op l r = (.ok s.slots.size, s') ∧ s'.Sound ∧
      s'.Freestanding s.slots.size (.operator op [a, b]) := by
  have allowed : (s.operator op l r).1 = .ok s.slots.size := by
    rw [sound.forest.fst_operator op left.live right.live, if_neg]
    simp [differ, left.root, right.root]
  have sound' : (s.operator op l r).2.Sound := sound.operator left.live right.live
  have new := newOver_operator left.live right.live allowed
  refine ⟨(s.operator op l r).2, Prod.ext allowed rfl, sound', ?_⟩
  rw [← left.expr_eq, ← right.expr_eq]
  exact new.freestanding sound.forest sound'.forest

/-- **A pair of parentheses around a root is made**, and is a root. -/
theorem Sound.freestanding_parenthetical (label : String) (inner : s.Freestanding n e) :
    ∃ s', s.parenthetical label n = (.ok s.slots.size, s') ∧ s'.Sound ∧
      s'.Freestanding s.slots.size (.parenthetical label e) := by
  have allowed : (s.parenthetical label n).1 = .ok s.slots.size := by
    rw [sound.forest.fst_parenthetical label inner.live, if_pos inner.root]
  rcases s.parenthetical_cases label n with ⟨e, refused⟩ | ⟨free, made⟩
  · simp [refused] at allowed
  · have sound' := sound.parenthetical inner.live free
    have standing := ((NewOver.alloc s (.parenthetical label)).attach inner.live).freestanding
      sound.forest sound'.forest
    refine ⟨_, made, sound', ?_⟩
    rw [← inner.expr_eq]
    exact standing

end Made

end OperatorTree.Store
