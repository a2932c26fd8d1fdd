/-
# OperatorTree.Proofs.Store.Merge -- one merge, and what a flattening keeps

A merge puts the children of a child in its place: in a forest, the list of the
parent and the list of the child are the only ones that change, and the links
of the child and of its children the only links (`children_mergeChild`,
`link?_mergeChild`).  Every way down after the merge is a way down before it,
perhaps with one step less, so a merge keeps a forest (`IsForest.mergeChild`).

A flattening is a run of merges among operator nodes (`MergeRun`).  Whatever nodes
are gone through and in whatever order, the same nodes are live after it with the
same contents, and no node but an operator has got other children (`Regrouped`).
-/
import OperatorTree.Proofs.Expr.Shape
import OperatorTree.Proofs.Store.Forest
import OperatorTree.Store.Flatten

namespace OperatorTree.Store

set_option autoImplicit false

open Relation

variable {s s' : Store} {c m n p : NodeId} {index : Nat}

/-! ## One merge -/

/-- Puts the children of `c` in the place of `c`, which stands at a position
among the children of `n`. -/
def mergeChild (s : Store) (n : NodeId) (index : Nat) (c : NodeId) : Store :=
  (s.takeChildren c).2.spliceChild n index (s.children c)

section AbsorbFrom

variable {op : Operator} {steps : Nat}

theorem absorbFrom_end (ended : s.child? n index = none) :
    absorbFrom n op steps index s = ([], s) := by
  cases steps with
  | zero => rfl
  | succ steps => simp [absorbFrom, ended]

theorem absorbFrom_merge (child : s.child? n index = some c) (inner : s.operator? c = some op) :
    (absorbFrom n op (steps + 1) index s).2 =
      (absorbFrom n op steps index (s.mergeChild n index c)).2 := by
  simp only [absorbFrom, child, inner, if_true]
  rfl

theorem absorbFrom_pass (child : s.child? n index = some c) (other : s.operator? c ≠ some op) :
    absorbFrom n op (steps + 1) index s = absorbFrom n op steps (index + 1) s := by
  simp [absorbFrom, child, other]

end AbsorbFrom

@[simp] theorem size_mergeChild : (s.mergeChild n index c).slots.size = s.slots.size := by
  simp [mergeChild, takeChildren, spliceChild]

@[simp] theorem live_mergeChild : (s.mergeChild n index c).Live m ↔ s.Live m := by
  simp [mergeChild, takeChildren, spliceChild]

@[simp] theorem content_mergeChild : (s.mergeChild n index c).content m = s.content m := by
  simp [mergeChild, takeChildren, spliceChild]

@[simp] theorem operator?_mergeChild : (s.mergeChild n index c).operator? m = s.operator? m := by
  simp [operator?]

theorem mem_children_of_child? (child : s.child? n index = some c) : c ∈ s.children n :=
  List.mem_of_getElem? child

section View

variable (forest : s.IsForest) (child : s.child? n index = some c)

include forest child

theorem children_takeChildren :
    (s.takeChildren c).2.children m = if m = c then [] else s.children m := by
  have live : s.Live c := forest.live_of_mem (mem_children_of_child? child)
  simp only [takeChildren, children_setParents]
  exact children_setChildren _ live

theorem children_mergeChild :
    (s.mergeChild n index c).children m =
      if m = n then (s.children n).take index ++ s.children c ++ (s.children n).drop (index + 1)
      else if m = c then [] else s.children m := by
  have member := mem_children_of_child? child
  have apart : n ≠ c := (forest.ne_of_mem member).symm
  have live : s.Live n := live_of_mem_children member
  have list : (s.takeChildren c).2.children n = s.children n := by
    rw [children_takeChildren forest child, if_neg apart]
  simp only [mergeChild, spliceChild, children_setParents, list]
  rw [children_setChildren _ (by simpa [takeChildren] using live), children_setParents,
    children_takeChildren forest child]

theorem link?_mergeChild :
    (s.mergeChild n index c).link? m =
      if m = c then none else if m ∈ s.children c then some n else s.link? m := by
  have member := mem_children_of_child? child
  have apart : n ≠ c := (forest.ne_of_mem member).symm
  have live : s.Live c := forest.live_of_mem member
  have list : (s.takeChildren c).2.children n = s.children n := by
    rw [children_takeChildren forest child, if_neg apart]
  have replaced : (s.children n)[index]? = some c := child
  have liveBelow : ∀ g ∈ s.children c, s.Live g := fun g listed => forest.live_of_mem listed
  simp only [mergeChild, spliceChild, children_setParents, list, replaced, Option.toList_some]
  rw [link?_setParents none (by simpa [takeChildren] using live), link?_setChildren,
    link?_setParents _ (by simpa [takeChildren] using liveBelow)]
  by_cases same : m = c
  · simp [same]
  · by_cases below : m ∈ s.children c
    · simp [same, below]
    · simp only [same, below, takeChildren, List.mem_singleton, if_false]
      rw [link?_setParents none (by simpa using liveBelow), if_neg below, link?_setChildren]

/-- A merge does not touch any other node than the parent, the child and its children. -/
theorem node?_mergeChild_of_ne (notOuter : m ≠ n) (notInner : m ≠ c)
    (notMoved : m ∉ s.children c) : (s.mergeChild n index c).node? m = s.node? m := by
  have apart : n ≠ c := (forest.ne_of_mem (mem_children_of_child? child)).symm
  have list : (s.takeChildren c).2.children n = s.children n := by
    rw [children_takeChildren forest child, if_neg apart]
  have replaced : (s.children n)[index]? = some c := child
  simp only [mergeChild, spliceChild, children_setParents, list, replaced, Option.toList_some]
  rw [node?_setParents_of_not_mem none (by simpa using notInner),
    node?_setChildren_of_ne _ notOuter, node?_setParents_of_not_mem _ notMoved, takeChildren,
    node?_setParents_of_not_mem none notMoved, node?_setChildren_of_ne _ notInner]

/-- What stands around a child in the list of its parent. -/
theorem mem_take_or_drop_iff :
    m ∈ (s.children n).take index ++ (s.children n).drop (index + 1) ↔
      m ∈ s.children n ∧ m ≠ c := by
  have at_ : (s.children n)[index]? = some c := child
  have split : s.children n =
      (s.children n).take index ++ c :: (s.children n).drop (index + 1) := by
    obtain ⟨inside, rfl⟩ := List.getElem?_eq_some_iff.1 at_
    rw [List.getElem_cons_drop, List.take_append_drop]
  have distinct := forest.nodup_children n
  rw [split, List.nodup_middle] at distinct
  have notAround := (List.nodup_cons.1 distinct).1
  constructor
  · intro around
    refine ⟨?_, fun same => notAround (same ▸ around)⟩
    rw [split]
    rcases List.mem_append.1 around with before | after
    · exact List.mem_append_left _ before
    · exact List.mem_append_right _ (List.mem_cons_of_mem c after)
  · rintro ⟨listed, other⟩
    rw [split] at listed
    rcases List.mem_append.1 listed with before | after
    · exact List.mem_append_left _ before
    · exact List.mem_append_right _ (List.mem_of_ne_of_mem other after)

theorem mem_children_mergeChild :
    m ∈ (s.mergeChild n index c).children p ↔
      if p = n then (m ∈ s.children n ∧ m ≠ c) ∨ m ∈ s.children c
      else p ≠ c ∧ m ∈ s.children p := by
  rw [children_mergeChild forest child]
  by_cases here : p = n
  · rw [if_pos here, if_pos here, ← mem_take_or_drop_iff forest child]
    simp only [List.mem_append]
    constructor
    · rintro ((before | between) | after)
      · exact .inl (.inl before)
      · exact .inr between
      · exact .inl (.inr after)
    · rintro ((before | after) | between)
      · exact .inl (.inl before)
      · exact .inr after
      · exact .inl (.inr between)
  · rw [if_neg here, if_neg here]
    by_cases there : p = c
    · simp [there]
    · simp [there]

/-- A step down after the merge is a step down before it, or two. -/
theorem above_of_lists_mergeChild (listed : (s.mergeChild n index c).Lists p m) : s.Above p m := by
  have member := mem_children_of_child? child
  rw [Lists, mem_children_mergeChild forest child] at listed
  by_cases here : p = n
  · subst here
    rw [if_pos rfl] at listed
    rcases listed with ⟨kept, -⟩ | below
    · exact .single kept
    · exact .tail (.single member) below
  · rw [if_neg here] at listed
    exact .single listed.2

theorem nodup_children_mergeChild : ((s.mergeChild n index c).children p).Nodup := by
  have member := mem_children_of_child? child
  rw [children_mergeChild forest child]
  by_cases here : p = n
  · rw [if_pos here]
    have around : ((s.children n).take index ++ (s.children n).drop (index + 1)).Nodup := by
      rw [← List.eraseIdx_eq_take_drop_succ]
      exact (forest.nodup_children n).eraseIdx index
    have apart : ((s.children n).take index ++ (s.children n).drop (index + 1)).Disjoint
        (s.children c) := by
      intro x stays comes
      have old := ((mem_take_or_drop_iff forest child).1 stays).1
      exact forest.ne_of_mem member (forest.eq_of_mem_of_mem comes old)
    have permuted : ((s.children n).take index ++ s.children c ++
        (s.children n).drop (index + 1)).Perm
        ((s.children n).take index ++ (s.children n).drop (index + 1) ++ s.children c) := by
      rw [List.append_assoc, List.append_assoc]
      exact List.perm_append_comm.append_left _
    exact permuted.nodup_iff.2 (around.append (forest.nodup_children c) apart)
  · rw [if_neg here]
    by_cases there : p = c
    · simp [there]
    · rw [if_neg there]
      exact forest.nodup_children p

theorem mem_children_mergeChild_iff :
    m ∈ (s.mergeChild n index c).children p ↔
      (s.mergeChild n index c).link? m = some p ∧ (s.mergeChild n index c).Live p := by
  have member := mem_children_of_child? child
  have apart : c ≠ n := forest.ne_of_mem member
  have liveN : s.Live n := live_of_mem_children member
  rw [mem_children_mergeChild forest child, link?_mergeChild forest child, live_mergeChild]
  by_cases merged : m = c
  · subst merged
    have notOwn : m ∉ s.children m := fun own => forest.ne_of_mem own rfl
    by_cases here : p = n
    · simp [here, notOwn]
    · simp only [if_neg here, if_true]
      refine iff_of_false (fun listed => ?_) (by simp)
      exact here (forest.eq_of_mem_of_mem listed.2 member)
  · by_cases moved : m ∈ s.children c
    · by_cases here : p = n
      · simp [here, merged, moved, liveN]
      · simp only [if_neg here, if_neg merged, if_pos moved]
        refine iff_of_false (fun listed => ?_) (by simp [Ne.symm here])
        exact listed.1 (forest.eq_of_mem_of_mem listed.2 moved)
    · by_cases here : p = n
      · simp [here, merged, moved, forest.mem_children_iff]
      · simp only [if_neg here, if_neg merged, if_neg moved, ← forest.mem_children_iff]
        refine ⟨fun listed => listed.2, fun listed => ⟨?_, listed⟩⟩
        rintro rfl
        exact moved listed

/-- A merge keeps a forest. -/
theorem IsForest.mergeChild : (s.mergeChild n index c).IsForest where
  mem_children_iff := mem_children_mergeChild_iff forest child
  nodup_children _ := nodup_children_mergeChild forest child
  acyclic m above := by
    have old : ∀ a b, (s.mergeChild n index c).Lists a b → s.Above a b := fun a b listed =>
      above_of_lists_mergeChild forest child listed
    exact forest.acyclic m (TransGen.closed old _ _ above)
  link_lt {m q} linked := by
    have liveN : s.Live n := live_of_mem_children (mem_children_of_child? child)
    rw [link?_mergeChild forest child] at linked
    rw [size_mergeChild]
    by_cases merged : m = c
    · simp [merged] at linked
    · rw [if_neg merged] at linked
      by_cases moved : m ∈ s.children c
      · rw [if_pos moved] at linked
        exact Option.some.inj linked ▸ lt_size_of_live liveN
      · rw [if_neg moved] at linked
        exact forest.link_lt linked

end View

/-! ## Runs of merges -/

/-- The store `s'` has the nodes of `s` with their contents, and only operator
nodes have got other children. -/
structure Regrouped (s s' : Store) : Prop where
  forest : s'.IsForest
  size_eq : s'.slots.size = s.slots.size
  live_iff : ∀ m, s'.Live m ↔ s.Live m
  content_eq : ∀ m, s'.content m = s.content m
  children_eq : ∀ m, s.operator? m = none → s'.children m = s.children m

theorem Regrouped.refl (forest : s.IsForest) : Regrouped s s where
  forest := forest
  size_eq := rfl
  live_iff _ := Iff.rfl
  content_eq _ := rfl
  children_eq _ _ := rfl

theorem Regrouped.operator?_eq (regrouped : Regrouped s s') (m : NodeId) :
    s'.operator? m = s.operator? m := by
  unfold operator?
  rw [regrouped.content_eq]

theorem Regrouped.trans {s'' : Store} (first : Regrouped s s') (second : Regrouped s' s'') :
    Regrouped s s'' where
  forest := second.forest
  size_eq := second.size_eq.trans first.size_eq
  live_iff m := (second.live_iff m).trans (first.live_iff m)
  content_eq m := (second.content_eq m).trans (first.content_eq m)
  children_eq m other := by
    rw [second.children_eq m (by rw [first.operator?_eq, other]), first.children_eq m other]

/-- One merge of an operator node into an operator node. -/
theorem regrouped_mergeChild {op : Operator} (forest : s.IsForest)
    (child : s.child? n index = some c) (outer : s.operator? n = some op)
    (inner : s.operator? c = some op) : Regrouped s (s.mergeChild n index c) where
  forest := forest.mergeChild child
  size_eq := size_mergeChild
  live_iff _ := live_mergeChild
  content_eq _ := content_mergeChild
  children_eq m other := by
    have notOuter : m ≠ n := by
      rintro rfl
      simp [other] at outer
    have notInner : m ≠ c := by
      rintro rfl
      simp [other] at inner
    rw [children_mergeChild forest child, if_neg notOuter, if_neg notInner]

/-- Merges at nodes of `A`, one after the other, each of an operator node into an
operator node of the same operator. -/
inductive MergeRun (A : NodeId → Prop) : Store → Store → Prop where
  | done (s : Store) : MergeRun A s s
  | merge {s s' : Store} {n c : NodeId} {index : Nat} {op : Operator} : A n →
      s.child? n index = some c → s.operator? n = some op → s.operator? c = some op →
      MergeRun A (s.mergeChild n index c) s' → MergeRun A s s'

namespace MergeRun

variable {A B : NodeId → Prop} {s'' : Store}

theorem trans (first : MergeRun A s s') (second : MergeRun A s' s'') : MergeRun A s s'' := by
  induction first with
  | done => exact second
  | merge inside child outer inner _ ih => exact .merge inside child outer inner (ih second)

theorem mono (wider : ∀ n, A n → B n) (run : MergeRun A s s') : MergeRun B s s' := by
  induction run with
  | done => exact .done _
  | merge inside child outer inner _ ih => exact .merge (wider _ inside) child outer inner ih

/-- A run of merges keeps a forest, its nodes and their contents. -/
theorem regrouped (run : MergeRun A s s') (forest : s.IsForest) : Regrouped s s' := by
  induction run with
  | done => exact .refl forest
  | merge _ child outer inner _ ih =>
      have step := regrouped_mergeChild forest child outer inner
      exact step.trans (ih step.forest)

end MergeRun

section Run

variable {A : NodeId → Prop}

theorem mergeRun_absorbFrom {op : Operator} (steps index : Nat) (inside : A n)
    (outer : s.operator? n = some op) : MergeRun A s (absorbFrom n op steps index s).2 := by
  induction steps generalizing index s with
  | zero => exact .done s
  | succ steps ih =>
      cases child : s.child? n index with
      | none =>
          rw [absorbFrom_end child]
          exact .done s
      | some c =>
          by_cases inner : s.operator? c = some op
          · rw [absorbFrom_merge child inner]
            exact .merge inside child outer inner (ih index (by rw [operator?_mergeChild, outer]))
          · rw [absorbFrom_pass child inner]
            exact ih (index + 1) outer

theorem mergeRun_absorb (s : Store) (inside : A n) : MergeRun A s (s.absorb n).2 := by
  unfold absorb
  cases outer : s.operator? n with
  | none => exact .done s
  | some op => exact mergeRun_absorbFrom _ _ inside outer

theorem mergeRun_absorbAll (s : Store) {ns : List NodeId} (inside : ∀ n ∈ ns, A n) :
    MergeRun A s (absorbAll ns s).2 := by
  induction ns generalizing s with
  | nil => exact .done s
  | cons n ns ih =>
      have first := mergeRun_absorb s (inside n List.mem_cons_self)
      exact first.trans (ih _ fun m later => inside m (List.mem_cons_of_mem n later))

/-- A flattening is a run of merges, at nodes of the tree that is flattened. -/
theorem mergeRun_flatten (s : Store) (n : NodeId) :
    MergeRun (· ∈ (s.tree n).postorder) s (s.flatten n).2 :=
  mergeRun_absorbAll s fun _ member => member

end Run

theorem regrouped_absorb (forest : s.IsForest) (n : NodeId) : Regrouped s (s.absorb n).2 :=
  (mergeRun_absorb (A := fun _ => True) s trivial).regrouped forest

/-- A flattening keeps the nodes and their contents, and the children of all but
operator nodes. -/
theorem regrouped_flatten (forest : s.IsForest) (n : NodeId) : Regrouped s (s.flatten n).2 :=
  (mergeRun_flatten s n).regrouped forest

end OperatorTree.Store
