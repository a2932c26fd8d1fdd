/-
# OperatorTree.Proofs.Tree.Rearranged -- siblings in another order

One step exchanges two subtrees of one node, at any depth (`Exchange`); a tree that any number
of steps lead to is rearranged (`Rearranged`).  Each node can get its subtrees in any order in
this way (`Rearranged.of_perm`), and each of them can be rearranged by itself.

A property of all nodes that depends neither on the order of the subtrees nor on what is
rearranged below them is kept (`All.of_rearranged`).  The other way round, a property that all
nodes of all rearrangements have is one that each node has whatever is rearranged below it
(`all_of_forall_rearranged`).
-/
import Mathlib.Logic.Relation
import OperatorTree.Proofs.Tree.Flatten

namespace OperatorTree.Tree

set_option autoImplicit false

open Relation

universe u v

variable {α : Type u} {β : Type v} {s t : Tree α} {c d : Tree α} {cs ds : List (Tree α)}

/-- The second tree is the first one with two subtrees of one node exchanged. -/
inductive Exchange : Tree α → Tree α → Prop where
  | here (a : α) (before : List (Tree α)) (x : Tree α) (between : List (Tree α)) (y : Tree α)
      (after : List (Tree α)) :
      Exchange (.node a (before ++ x :: (between ++ y :: after)))
        (.node a (before ++ y :: (between ++ x :: after)))
  | inside (a : α) (before : List (Tree α)) {c d : Tree α} (after : List (Tree α)) :
      Exchange c d → Exchange (.node a (before ++ c :: after)) (.node a (before ++ d :: after))

/-- Exchanges lead from the first tree to the second. -/
def Rearranged : Tree α → Tree α → Prop :=
  ReflTransGen Exchange

theorem Exchange.value_eq (exchange : Exchange s t) : t.value = s.value := by
  cases exchange <;> rfl

namespace Rearranged

theorem refl (t : Tree α) : Rearranged t t :=
  ReflTransGen.refl

theorem of_exchange (exchange : Exchange s t) : Rearranged s t :=
  ReflTransGen.single exchange

theorem trans {r : Tree α} (first : Rearranged r s) (second : Rearranged s t) : Rearranged r t :=
  ReflTransGen.trans first second

theorem below (a : α) (before after : List (Tree α)) (rearranged : Rearranged c d) :
    Rearranged (.node a (before ++ c :: after)) (.node a (before ++ d :: after)) :=
  ReflTransGen.lift (fun t => Tree.node a (before ++ t :: after))
    (fun _ _ => Exchange.inside a before after) _ _ rearranged

/-- The subtrees may be rearranged one after the other. -/
theorem each {f g : β → Tree α} (a : α) (before : List (Tree α)) {bs : List β}
    (pairs : ∀ b ∈ bs, Rearranged (f b) (g b)) :
    Rearranged (.node a (before ++ bs.map f)) (.node a (before ++ bs.map g)) := by
  induction bs generalizing before with
  | nil => exact refl _
  | cons b bs ih =>
      have first := below a before (bs.map f) (pairs b List.mem_cons_self)
      have others := ih (before ++ [g b]) fun c later => pairs c (List.mem_cons_of_mem b later)
      rw [List.append_assoc, List.append_assoc] at others
      exact first.trans others

/-- **The subtrees of a node may be put in any order.** -/
theorem of_perm (a : α) (before : List (Tree α)) (perm : cs.Perm ds) :
    Rearranged (.node a (before ++ cs)) (.node a (before ++ ds)) := by
  induction perm generalizing before with
  | nil => exact refl _
  | cons x _ ih => simpa using ih (before ++ [x])
  | swap x y after => exact of_exchange (.here a before y [] x after)
  | trans _ _ first second => exact (first before).trans (second before)

end Rearranged

/-! ## What is kept -/

theorem perm_exchange (before : List β) (x : β) (between : List β) (y : β) (after : List β) :
    (before ++ x :: (between ++ y :: after)).Perm (before ++ y :: (between ++ x :: after)) := by
  have first : (x :: (between ++ y :: after)).Perm (x :: y :: (between ++ after)) :=
    List.perm_middle.cons x
  have second : (y :: x :: (between ++ after)).Perm (y :: (between ++ x :: after)) :=
    List.perm_middle.symm.cons y
  exact ((first.trans (.swap y x _)).trans second).append_left before

section Kept

variable {P : α → List (Tree α) → Prop}

theorem All.of_exchange (perm : ∀ a cs ds, cs.Perm ds → P a cs → P a ds)
    (below : ∀ a before after c d, Exchange c d → P a (before ++ c :: after) →
      P a (before ++ d :: after))
    (all : s.All P) (exchange : Exchange s t) : t.All P := by
  induction exchange with
  | here a before x between y after =>
      have reordered := perm_exchange before x between y after
      exact .node (perm a _ _ reordered all.here) fun c member =>
        all.of_mem c (reordered.mem_iff.2 member)
  | @inside a before c d after step ih =>
      refine .node (below a before after c d step all.here) fun e member => ?_
      have others := all.of_mem e
      simp only [List.mem_append, List.mem_cons] at member others
      rcases member with left | rfl | right
      · exact others (.inl left)
      · exact ih (all.of_mem c (by simp))
      · exact others (.inr (.inr right))

/-- **A property of all nodes is kept**, if it looks at the order of the subtrees no more than
at what is exchanged below them. -/
theorem All.of_rearranged (perm : ∀ a cs ds, cs.Perm ds → P a cs → P a ds)
    (below : ∀ a before after c d, Exchange c d → P a (before ++ c :: after) →
      P a (before ++ d :: after))
    (all : s.All P) (rearranged : Rearranged s t) : t.All P := by
  induction rearranged with
  | refl => exact all
  | tail _ exchange ih => exact ih.of_exchange perm below exchange

/-- What depends on values and on numbers of subtrees is kept. -/
theorem All.length_of_rearranged {Q : α → Nat → Prop} (all : s.All fun a cs => Q a cs.length)
    (rearranged : Rearranged s t) : t.All fun a cs => Q a cs.length := by
  refine all.of_rearranged (fun a cs ds perm here => ?_) (fun a before after c d _ here => ?_)
    rearranged
  · rwa [← perm.length_eq]
  · simpa using here

/-- What all nodes of all rearrangements have, a node has whatever is rearranged below it. -/
theorem all_of_forall_rearranged (every : ∀ r, Rearranged t r → r.All P) :
    t.All fun a cs => ∀ ds, Rearranged (.node a cs) (.node a ds) → P a ds := by
  induction t using Tree.induction with
  | step a cs ih =>
      refine .node (fun ds rearranged => (every _ rearranged).here) fun c member => ?_
      obtain ⟨before, after, rfl⟩ := List.append_of_mem member
      refine ih c member fun r rearranged => ?_
      exact (every _ (rearranged.below a before after)).of_mem r (by simp)

end Kept

end OperatorTree.Tree
