/-
# OperatorTree.Proofs.Tree.Pairs -- two trees of one shape

Two trees have one shape when they are the two sides of a tree of pairs.  A relation of
values becomes a relation of trees in this way (`Tree.Related`): the trees have one shape,
and values in the same place are related.  If related values have the same operator, the
trees flatten to related trees (`Related.flatten`).
-/
import OperatorTree.Proofs.Tree.Flatten

namespace OperatorTree.Tree

set_option autoImplicit false

universe u v

variable {α : Type u} {β : Type v} {R : α → β → Prop} {s : Tree α} {t : Tree β}

theorem map_congr {γ : Type v} {f g : α → γ} {t : Tree α} (same : ∀ a ∈ t.preorder, f a = g a) :
    t.map f = t.map g := by
  induction t using Tree.induction with
  | step a cs ih =>
      rw [preorder_node] at same
      rw [map_node, map_node, same a List.mem_cons_self]
      refine congrArg (node (g a)) (List.map_congr_left fun c member => ih c member ?_)
      exact fun b inside => same b (List.mem_cons_of_mem a (List.mem_flatMap.2 ⟨c, member, inside⟩))

/-- The trees have one shape, and the values in each place are related. -/
def Related (R : α → β → Prop) (s : Tree α) (t : Tree β) : Prop :=
  ∃ pairs : Tree (α × β), pairs.map Prod.fst = s ∧ pairs.map Prod.snd = t ∧
    ∀ pair ∈ pairs.preorder, R pair.1 pair.2

namespace Related

theorem exists_pairs {cs : List (Tree α)} {ds : List (Tree β)}
    (each : List.Forall₂ (Related R) cs ds) :
    ∃ pairs : List (Tree (α × β)), pairs.map (Tree.map Prod.fst) = cs ∧
      pairs.map (Tree.map Prod.snd) = ds ∧
        ∀ pair ∈ pairs.flatMap preorder, R pair.1 pair.2 := by
  induction each with
  | nil => exact ⟨[], rfl, rfl, by simp⟩
  | cons first _ ih =>
      obtain ⟨p, rfl, rfl, here⟩ := first
      obtain ⟨ps, rfl, rfl, later⟩ := ih
      refine ⟨p :: ps, rfl, rfl, fun pair member => ?_⟩
      rw [List.flatMap_cons, List.mem_append] at member
      exact member.elim (here pair) (later pair)

theorem node {a : α} {b : β} {cs : List (Tree α)} {ds : List (Tree β)} (values : R a b)
    (each : List.Forall₂ (Related R) cs ds) : Related R (.node a cs) (.node b ds) := by
  obtain ⟨pairs, rfl, rfl, below⟩ := exists_pairs each
  refine ⟨.node (a, b) pairs, map_node .., map_node .., fun pair member => ?_⟩
  rw [preorder_node, List.mem_cons] at member
  rcases member with rfl | inside
  · exact values
  · exact below pair inside

/-- Trees of one shape, with the same operators in the same places, flatten to such trees. -/
theorem flatten {opA : α → Option Operator} {opB : β → Option Operator}
    (operators : ∀ a b, R a b → opA a = opB b) (related : Related R s t) :
    Related R (s.flatten opA) (t.flatten opB) := by
  obtain ⟨pairs, rfl, rfl, each⟩ := related
  have same : pairs.flatten (opB ∘ Prod.snd) = pairs.flatten (opA ∘ Prod.fst) :=
    flatten_congr fun pair member => (operators _ _ (each pair member)).symm
  refine ⟨pairs.flatten (opA ∘ Prod.fst), map_flatten .., ?_, fun pair member => ?_⟩
  · rw [← same]
    exact map_flatten ..
  · exact each pair (preorder_flatten_subset _ pairs member)

/-- What is the same of related values is the same of the trees. -/
theorem map_eq {γ : Type u} {f : α → γ} {g : β → γ} (same : ∀ a b, R a b → f a = g b)
    (related : Related R s t) : s.map f = t.map g := by
  obtain ⟨pairs, rfl, rfl, each⟩ := related
  rw [map_map, map_map]
  exact map_congr fun pair member => same _ _ (each pair member)

end Related

end OperatorTree.Tree
