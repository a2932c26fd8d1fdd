/-
# OperatorTree.Proofs.Store.Exchange -- siblings exchanged, and nothing else

Two siblings are looked up in the child list of their parent, and each is put where the
other one was.  In a forest a node stands in that list once, so the list afterwards is the
list before with two positions exchanged (`Exchanged`), and everything else of the store is
as it was.  What is known of transpositions is then known of exchanges: the order of the
two nodes does not matter, doing it again undoes it, and a node exchanged with itself stays.

However many exchanges are made, of whatever nodes, refused ones among them, each node
keeps its content, its parent and, in some order, its children (`Rearranged`).
-/
import Mathlib.Logic.Equiv.Basic
import OperatorTree.Proofs.Store.Refusals

namespace OperatorTree.Store

set_option autoImplicit false

open Relation

universe u

variable {s t r : Store} {a b n p : NodeId} {i j : Nat}

/-! ## Two entries of a list -/

section Entries

variable {α : Type u} {xs : List α} {x y : α}

/-- Putting each of two entries where the other was is looking up with the positions exchanged. -/
theorem getElem?_set_set (first : xs[i]? = some x) (second : xs[j]? = some y) (k : Nat) :
    ((xs.set i y).set j x)[k]? = xs[Equiv.swap i j k]? := by
  obtain ⟨insideX, -⟩ := List.getElem?_eq_some_iff.1 first
  obtain ⟨insideY, -⟩ := List.getElem?_eq_some_iff.1 second
  rw [List.getElem?_set, List.getElem?_set, List.length_set, Equiv.swap_apply_def]
  by_cases atY : k = j
  · subst atY
    by_cases atX : k = i
    · subst atX
      rw [if_pos rfl, if_pos insideY, if_pos rfl, first]
    · simp [insideY, atX, first]
  · by_cases atX : k = i
    · subst atX
      simp [Ne.symm atY, insideX, second]
    · simp [atX, atY, Ne.symm atX, Ne.symm atY]

end Entries

/-! ## One exchange -/

/-- The second store is the first one with two entries in the child list of `p` exchanged. -/
structure Exchanged (s : Store) (p : NodeId) (i j : Nat) (t : Store) : Prop where
  size_eq : t.slots.size = s.slots.size
  node?_eq : ∀ n, n ≠ p → t.node? n = s.node? n
  live_iff : t.Live p ↔ s.Live p
  content_eq : t.content p = s.content p
  link?_eq : t.link? p = s.link? p
  getElem? : ∀ k, (t.children p)[k]? = (s.children p)[Equiv.swap i j k]?

namespace Exchanged

/-- An exchange leaves one store. -/
theorem unique (first : Exchanged s p i j t) (second : Exchanged s p i j r) : t = r := by
  refine ext_node? (first.size_eq.trans second.size_eq.symm) fun n => ?_
  by_cases here : n = p
  · subst here
    refine node?_ext (first.live_iff.trans second.live_iff.symm)
      (first.content_eq.trans second.content_eq.symm) ?_
      (first.link?_eq.trans second.link?_eq.symm)
    exact List.ext_getElem? fun k => (first.getElem? k).trans (second.getElem? k).symm
  · exact (first.node?_eq n here).trans (second.node?_eq n here).symm

/-- It does not matter which of the two positions comes first. -/
theorem comm (exchanged : Exchanged s p i j t) : Exchanged s p j i t :=
  { exchanged with
    getElem? := fun k => by rw [exchanged.getElem?, Equiv.swap_comm] }

/-- The same exchange leads back. -/
theorem symm (exchanged : Exchanged s p i j t) : Exchanged t p i j s where
  size_eq := exchanged.size_eq.symm
  node?_eq n other := (exchanged.node?_eq n other).symm
  live_iff := exchanged.live_iff.symm
  content_eq := exchanged.content_eq.symm
  link?_eq := exchanged.link?_eq.symm
  getElem? k := by rw [exchanged.getElem?, Equiv.swap_apply_self]

theorem refl (s : Store) (p : NodeId) (i : Nat) : Exchanged s p i i s where
  size_eq := rfl
  node?_eq _ _ := rfl
  live_iff := Iff.rfl
  content_eq := rfl
  link?_eq := rfl
  getElem? k := by rw [Equiv.swap_self, Equiv.refl_apply]

theorem getElem?_left (exchanged : Exchanged s p i j t) :
    (t.children p)[i]? = (s.children p)[j]? := by
  rw [exchanged.getElem?, Equiv.swap_apply_left]

theorem getElem?_right (exchanged : Exchanged s p i j t) :
    (t.children p)[j]? = (s.children p)[i]? := by
  rw [exchanged.getElem?, Equiv.swap_apply_right]

/-- Nodes that do not have the parent in their trees have the trees that they had. -/
theorem tree_eq (exchanged : Exchanged s p i j t) (forest : s.IsForest) (forest' : t.IsForest)
    (apart : p ∉ (s.tree n).preorder) : t.tree n = s.tree n ∧ t.expr n = s.expr n := by
  have same : ∀ m, ReflTransGen s.Lists n m → t.node? m = s.node? m := by
    intro m below
    refine exchanged.node?_eq m ?_
    rintro rfl
    exact apart (forest.mem_preorder_tree.2 below)
  exact ⟨tree_congr forest forest' fun m below => children_of_node?_eq (same m below),
    expr_congr forest forest' fun m below =>
      ⟨children_of_node?_eq (same m below), content_of_node?_eq (same m below)⟩⟩

/-- The children of the parent are among them. -/
theorem tree_eq_of_mem (exchanged : Exchanged s p i j t) (forest : s.IsForest)
    (forest' : t.IsForest) (child : n ∈ s.children p) : t.tree n = s.tree n ∧ t.expr n = s.expr n :=
  exchanged.tree_eq forest forest' fun below =>
    forest.not_below_child child (forest.mem_preorder_tree.1 below)

end Exchanged

/-! ## Any number of exchanges -/

/-- Exchanges two nodes after the other.  What is refused changes nothing. -/
def swapAll (s : Store) (pairs : List (NodeId × NodeId)) : Store :=
  pairs.foldl (fun s pair => (s.swap pair.1 pair.2).2) s

@[simp] theorem swapAll_cons (pair : NodeId × NodeId) (pairs : List (NodeId × NodeId)) :
    s.swapAll (pair :: pairs) = (s.swap pair.1 pair.2).2.swapAll pairs := rfl

theorem swapAll_append (first second : List (NodeId × NodeId)) :
    s.swapAll (first ++ second) = (s.swapAll first).swapAll second :=
  List.foldl_append

/-- In the second store each node has what it has in the first one, its children in some order. -/
structure Rearranged (s t : Store) : Prop where
  size_eq : t.slots.size = s.slots.size
  live_iff : ∀ n, t.Live n ↔ s.Live n
  content_eq : ∀ n, t.content n = s.content n
  link?_eq : ∀ n, t.link? n = s.link? n
  perm : ∀ n, (t.children n).Perm (s.children n)

namespace Rearranged

theorem refl (s : Store) : Rearranged s s where
  size_eq := rfl
  live_iff _ := Iff.rfl
  content_eq _ := rfl
  link?_eq _ := rfl
  perm _ := .refl _

theorem trans (first : Rearranged s t) (second : Rearranged t r) : Rearranged s r where
  size_eq := second.size_eq.trans first.size_eq
  live_iff n := (second.live_iff n).trans (first.live_iff n)
  content_eq n := (second.content_eq n).trans (first.content_eq n)
  link?_eq n := (second.link?_eq n).trans (first.link?_eq n)
  perm n := (second.perm n).trans (first.perm n)

theorem parent?_eq (rearranged : Rearranged s t) (n : NodeId) : t.parent? n = s.parent? n := by
  ext p
  rw [parent?_eq_some_iff, parent?_eq_some_iff, rearranged.link?_eq, rearranged.live_iff]

end Rearranged

/-- Where the children stand in another order, there is a forest still. -/
theorem Rearranged.forest (rearranged : Rearranged s t) (forest : s.IsForest) : t.IsForest where
  mem_children_iff {p c} := by
    rw [(rearranged.perm p).mem_iff, rearranged.link?_eq, rearranged.live_iff]
    exact forest.mem_children_iff
  nodup_children p := (rearranged.perm p).nodup_iff.2 (forest.nodup_children p)
  acyclic n above :=
    forest.acyclic n (above.mono fun p _ listed => (rearranged.perm p).mem_iff.1 listed)
  link_lt linked := by
    rw [rearranged.link?_eq] at linked
    rw [rearranged.size_eq]
    exact forest.link_lt linked

/-- An exchange, made or refused, rearranges. -/
theorem rearranged_swap (s : Store) (a b : NodeId) : Rearranged s (s.swap a b).2 := by
  rcases s.swap_cases a b with ⟨e, refused⟩ | ⟨p, i, j, above, -, first, second, made⟩
  · rw [refused]
    exact .refl s
  · rw [made]
    have live : s.Live p := (parent?_eq_some_iff.1 above).2
    refine ⟨size_setChildren _, fun n => live_setChildren _, fun n => content_setChildren _,
      fun n => link?_setChildren _, fun n => ?_⟩
    rw [children_setChildren _ live]
    by_cases here : n = p
    · rw [if_pos here, here]
      exact set_set_perm_of_idxOf? first second
    · rw [if_neg here]

theorem rearranged_swapAll (pairs : List (NodeId × NodeId)) : Rearranged s (s.swapAll pairs) := by
  induction pairs generalizing s with
  | nil => exact .refl s
  | cons pair pairs ih => exact (rearranged_swap s pair.1 pair.2).trans ih

/-! ## What an exchange is -/

/-- A node stands in one place of one child list, that of its parent. -/
theorem IsForest.position_unique (forest : s.IsForest) (first : (s.children p)[i]? = some a)
    (second : (s.children p)[j]? = some a) : i = j := by
  obtain ⟨inside, -⟩ := List.getElem?_eq_some_iff.1 first
  exact (List.getElem?_inj inside (forest.nodup_children p)).1 (first.trans second.symm)

theorem IsForest.existsUnique_position (forest : s.IsForest) (above : s.parent? a = some p) :
    ∃! i : Nat, (s.children p)[i]? = some a := by
  obtain ⟨i, -, here⟩ := forest.exists_idxOf? above
  exact ⟨i, here, fun j there => forest.position_unique there here⟩

section Positions

variable (forest : s.IsForest) (first : (s.children p)[i]? = some a)
  (second : (s.children p)[j]? = some b)

include forest first second

/-- **Siblings are found where they are, and exchanged.** -/
theorem IsForest.swap_eq :
    s.swap a b = (.ok (i, j), s.setChildren p (((s.children p).set i b).set j a)) := by
  have aboveA := forest.mem_children_iff_parent?.1 (List.mem_of_getElem? first)
  have aboveB := forest.mem_children_iff_parent?.1 (List.mem_of_getElem? second)
  obtain ⟨i', j', first', second', made⟩ := forest.swap_siblings aboveA aboveB
  rw [made, forest.position_unique first' first, forest.position_unique second' second]

theorem IsForest.exchanged_swap : Exchanged s p i j (s.swap a b).2 := by
  have live : s.Live p := live_of_mem_children (List.mem_of_getElem? first)
  rw [forest.swap_eq first second]
  refine ⟨size_setChildren _, fun n other => node?_setChildren_of_ne _ other, live_setChildren _,
    content_setChildren _, link?_setChildren _, fun k => ?_⟩
  rw [children_setChildren _ live, if_pos rfl]
  exact getElem?_set_set first second k

/-- The other way round the exchange is the same. -/
theorem IsForest.swap_comm : s.swap b a = (.ok (j, i), (s.swap a b).2) := by
  have found : (s.swap b a).1 = .ok (j, i) := by rw [forest.swap_eq second first]
  have same := (forest.exchanged_swap second first).comm.unique (forest.exchanged_swap first second)
  exact Prod.ext found same

/-- Done twice, the exchange changes nothing.  In between, each node is where the other was. -/
theorem IsForest.swap_swap : (s.swap a b).2.swap a b = (.ok (j, i), s) := by
  have exchanged := forest.exchanged_swap first second
  have forest' := (rearranged_swap s a b).forest forest
  have hereA := exchanged.getElem?_right.trans first
  have hereB := exchanged.getElem?_left.trans second
  have found : ((s.swap a b).2.swap a b).1 = .ok (j, i) := by rw [forest'.swap_eq hereA hereB]
  exact Prod.ext found ((forest'.exchanged_swap hereA hereB).comm.unique exchanged.symm)

end Positions

/-- A node exchanged with itself leaves the store as it was. -/
theorem IsForest.swap_self (forest : s.IsForest) (here : (s.children p)[i]? = some a) :
    (s.swap a a).2 = s :=
  (forest.exchanged_swap here here).unique (.refl s p i)

end OperatorTree.Store
