/-
# OperatorTree.Tree.Basic -- ordered trees with a value at every node

A tree is a value and an ordered list of subtrees.  Trees of node contents are
the expressions; trees of node names describe what hangs below a node of a
store.  Both are read by the one fold defined here: `fold f` computes the answer
of a node from its value and the answers of its children, `fold_node` is its
equation, and every reading of a tree (`map`, `preorder`, `postorder`) is
a fold, so all of them evaluate in the kernel.

`Tree.induction` is the induction principle: a property of a node may be shown
from the same property of each child.
-/

namespace OperatorTree

set_option autoImplicit false

universe u v w

/-- An ordered tree. -/
inductive Tree (α : Type u) where
  | node (value : α) (children : List (Tree α))

namespace Tree

variable {α : Type u} {β : Type v} {γ : Type w}

/-- The value at the root. -/
def value : Tree α → α
  | node a _ => a

/-- The subtrees right below the root, in order. -/
def children : Tree α → List (Tree α)
  | node _ cs => cs

@[simp] theorem value_node (a : α) (cs : List (Tree α)) : (node a cs).value = a := rfl

@[simp] theorem children_node (a : α) (cs : List (Tree α)) : (node a cs).children = cs := rfl

/-! ## Folding -/

mutual

/-- Computes the answer of a node from its value and the answers of its children. -/
def fold (f : α → List β → β) : Tree α → β
  | node a cs => f a (foldAll f cs)

/-- The answers of a list of trees. -/
def foldAll (f : α → List β → β) : List (Tree α) → List β
  | [] => []
  | c :: cs => fold f c :: foldAll f cs

end

theorem foldAll_eq_map (f : α → List β → β) (cs : List (Tree α)) :
    foldAll f cs = cs.map (fold f) := by
  induction cs with
  | nil => rfl
  | cons c cs ih => simp [foldAll, ih]

@[simp] theorem fold_node (f : α → List β → β) (a : α) (cs : List (Tree α)) :
    fold f (node a cs) = f a (cs.map (fold f)) := by
  simp [fold, foldAll_eq_map]

/-! ## Induction -/

/-- A property that a node inherits from its children holds of every tree. -/
theorem induction {P : Tree α → Prop}
    (step : ∀ (a : α) (cs : List (Tree α)), (∀ c ∈ cs, P c) → P (node a cs)) : ∀ t, P t
  | node a cs => step a cs (all cs)
where
  /-- The property, for each tree of a list. -/
  all : (cs : List (Tree α)) → ∀ c ∈ cs, P c
    | [], _, absurdity => nomatch absurdity
    | d :: ds, c, member =>
      match List.mem_cons.1 member with
      | .inl same => same ▸ induction step d
      | .inr later => all ds c later

/-! ## Equality is decidable -/

mutual

/-- Decides equality of two trees. -/
def decideEq [DecidableEq α] : (s t : Tree α) → Decidable (s = t)
  | node a cs, node b ds =>
    match decEq a b, decideEqAll cs ds with
    | .isTrue values, .isTrue subtrees => .isTrue (by rw [values, subtrees])
    | .isFalse differ, _ => .isFalse fun same => differ (by injection same)
    | _, .isFalse differ => .isFalse fun same => differ (by injection same)

/-- Decides equality of two lists of trees. -/
def decideEqAll [DecidableEq α] : (ss ts : List (Tree α)) → Decidable (ss = ts)
  | [], [] => .isTrue rfl
  | [], _ :: _ => .isFalse nofun
  | _ :: _, [] => .isFalse nofun
  | s :: ss, t :: ts =>
    match decideEq s t, decideEqAll ss ts with
    | .isTrue first, .isTrue others => .isTrue (by rw [first, others])
    | .isFalse differ, _ => .isFalse fun same => differ (by injection same)
    | _, .isFalse differ => .isFalse fun same => differ (by injection same)

end

instance [DecidableEq α] : DecidableEq (Tree α) := decideEq

/-! ## Readings -/

/-- The tree of the same shape with `f` applied to every value. -/
def map (f : α → β) : Tree α → Tree β :=
  fold fun a cs => node (f a) cs

/-- The values, each before those below it, subtrees in order. -/
def preorder : Tree α → List α :=
  fold fun a below => a :: below.flatten

/-- The values, each after those below it, subtrees in order. -/
def postorder : Tree α → List α :=
  fold fun a below => below.flatten ++ [a]

@[simp] theorem map_node (f : α → β) (a : α) (cs : List (Tree α)) :
    (node a cs).map f = node (f a) (cs.map (map f)) :=
  fold_node ..

@[simp] theorem preorder_node (a : α) (cs : List (Tree α)) :
    (node a cs).preorder = a :: cs.flatMap preorder := by
  simp [preorder, List.flatMap]

@[simp] theorem postorder_node (a : α) (cs : List (Tree α)) :
    (node a cs).postorder = cs.flatMap postorder ++ [a] := by
  simp [postorder, List.flatMap]

@[simp] theorem value_map (f : α → β) (t : Tree α) : (t.map f).value = f t.value := by
  cases t
  simp

@[simp] theorem children_map (f : α → β) (t : Tree α) :
    (t.map f).children = t.children.map (map f) := by
  cases t
  simp

theorem mem_postorder {a : α} {t : Tree α} : a ∈ t.postorder ↔ a ∈ t.preorder := by
  induction t using induction with
  | step b cs ih =>
    rw [postorder_node, preorder_node, List.mem_append, List.mem_singleton, or_comm, List.mem_cons,
      List.mem_flatMap, List.mem_flatMap]
    exact or_congr_right (exists_congr fun c => and_congr_right fun member => ih c member)

theorem map_map (g : β → γ) (f : α → β) (t : Tree α) : (t.map f).map g = t.map (g ∘ f) := by
  induction t using induction with
  | step a cs ih => simpa using ih

end Tree

end OperatorTree
