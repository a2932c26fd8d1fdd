/-
# OperatorTree.Proofs.Store.MergeEvents -- what a flattening reports

A flattening goes through a tree from the leaves upwards, and when a node's turn
comes its children are the ones that it had from the start, each with its flattened
tree (`Ready`).  So the merges at the node can be told beforehand: each child that
has the node's operator is merged, at the position to which the children before it
have grown, and as many children take its place as its flattened tree has
(`mergesAt`).  The events of a flattening are these, node by node
(`fst_flatten`).

Every count is taken on this list.  There is one event for each child that has the
operator of its parent (`map_mergesAt`), and each event takes one node out of the
tree (`length_fst_flatten_add`).

The loop looks again at the children that it has just brought in, and passes every
one of them.  A loop that skips them (`flattenSkipping`) reports the same merges, so
it does the same (`flattenSkipping_eq`).
-/
import Mathlib.Algebra.BigOperators.Group.List.Basic
import OperatorTree.Proofs.Store.Recursion

namespace OperatorTree.Store

set_option autoImplicit false

open Relation

variable {s s' : Store} {c m n p : NodeId} {op : Operator} {index steps : Nat}
  {cs passed todo : List NodeId}

/-! ## The merges along a list of children -/

/-- The merges among the children `cs` of `n`, the first of which stands at a position.
A merged child gives way to as many children as `width` says. -/
def mergesAlong (op? : NodeId → Option Operator) (width : NodeId → Nat) (n : NodeId)
    (op : Operator) : Nat → List NodeId → List Merge
  | _, [] => []
  | index, c :: cs =>
    if op? c = some op then
      ⟨n, c, index, width c⟩ :: mergesAlong op? width n op (index + width c) cs
    else mergesAlong op? width n op (index + 1) cs

section MergesAlong

variable {op? : NodeId → Option Operator} {width width' : NodeId → Nat}

theorem mergesAlong_congr (same : ∀ c ∈ cs, width c = width' c) :
    mergesAlong op? width n op index cs = mergesAlong op? width' n op index cs := by
  induction cs generalizing index with
  | nil => rfl
  | cons c cs ih =>
      have rest (index : Nat) : mergesAlong op? width n op index cs =
          mergesAlong op? width' n op index cs :=
        ih fun d later => same d (List.mem_cons_of_mem c later)
      simp only [mergesAlong, same c List.mem_cons_self, rest]

/-- Children with another operator are passed. -/
theorem mergesAlong_append (others : ∀ c ∈ passed, op? c ≠ some op) :
    mergesAlong op? width n op index (passed ++ todo) =
      mergesAlong op? width n op (index + passed.length) todo := by
  induction passed generalizing index with
  | nil => rfl
  | cons c cs ih =>
      rw [List.cons_append, mergesAlong, if_neg (others c List.mem_cons_self),
        ih fun d later => others d (List.mem_cons_of_mem c later), List.length_cons]
      congr 1
      omega

/-- Each child that has the operator is merged, in order. -/
theorem map_mergesAlong :
    (mergesAlong op? width n op index cs).map (fun e => (e.parent, e.child)) =
      (cs.filter (op? · = some op)).map (n, ·) := by
  induction cs generalizing index with
  | nil => rfl
  | cons c cs ih =>
      unfold mergesAlong
      by_cases same : op? c = some op
      · simp [same, ih]
      · simp [same, ih]

theorem le_index_of_mem_mergesAlong {e : Merge}
    (member : e ∈ mergesAlong op? width n op index cs) : index ≤ e.index := by
  induction cs generalizing index with
  | nil => cases member
  | cons c cs ih =>
      unfold mergesAlong at member
      by_cases same : op? c = some op
      · rw [if_pos same] at member
        rcases List.mem_cons.1 member with rfl | later
        · exact Nat.le_refl _
        · exact Nat.le_trans (Nat.le_add_right _ _) (ih later)
      · rw [if_neg same] at member
        exact Nat.le_trans (Nat.le_add_right _ _) (ih member)

/-- A merge is at or behind the last of the children that any merge before it brought in. -/
theorem pairwise_mergesAlong :
    (mergesAlong op? width n op index cs).Pairwise fun e f => e.index + e.count ≤ f.index := by
  induction cs generalizing index with
  | nil => exact .nil
  | cons c cs ih =>
      unfold mergesAlong
      by_cases same : op? c = some op
      · rw [if_pos same]
        exact .cons (fun _ later => le_index_of_mem_mergesAlong later) ih
      · rw [if_neg same]
        exact ih

end MergesAlong

/-! ## The merges of the loop -/

/-- A merge changes nothing about the merges along the children behind it. -/
theorem Looping.mergesAlong_merge (looping : s.Looping n op passed (c :: todo)) :
    mergesAlong (s.mergeChild n passed.length c).operator?
        (fun d => ((s.mergeChild n passed.length c).children d).length) n op index todo =
      mergesAlong s.operator? (fun d => (s.children d).length) n op index todo := by
  have operators : (s.mergeChild n passed.length c).operator? = s.operator? :=
    funext fun _ => operator?_mergeChild
  rw [operators]
  refine mergesAlong_congr fun d later => ?_
  obtain ⟨notOuter, notInner⟩ := looping.ne_of_mem later
  rw [children_mergeChild_of_ne looping.forest looping.child?_eq_some notOuter notInner]

/-- The loop reports the merges along the children that are still to be visited. -/
theorem fst_absorbFrom (looping : s.Looping n op passed todo)
    (enough : (todo.flatMap (s.visited op)).length ≤ steps) :
    (absorbFrom n op steps passed.length s).1 =
      mergesAlong s.operator? (fun c => (s.children c).length) n op passed.length todo := by
  induction steps generalizing s passed todo with
  | zero =>
      cases todo with
      | nil => rfl
      | cons c todo =>
          rw [List.flatMap_cons, visited, List.length_append, List.length_cons] at enough
          omega
  | succ steps ih =>
      cases todo with
      | nil =>
          rw [absorbFrom_end looping.child?_eq_none]
          rfl
      | cons c todo =>
          have child := looping.child?_eq_some
          unfold mergesAlong
          by_cases inner : s.operator? c = some op
          · have fewer := looping.length_visited_merge inner
            rw [if_pos inner, fst_absorbFrom_merge child inner,
              ih (looping.merge inner) (by omega),
              mergesAlong_append (looping.operator?_ne inner), looping.mergesAlong_merge]
          · rw [List.flatMap_cons, visited_of_ne inner, List.length_append, List.length_singleton]
              at enough
            have step := ih looping.pass (by omega)
            rw [List.length_append, List.length_singleton] at step
            rw [if_neg inner, absorbFrom_pass child inner, step]

/-- The store after some merges. -/
def replay (merges : List Merge) (s : Store) : Store :=
  merges.foldl (fun s e => s.mergeChild e.parent e.index e.child) s

/-- What the loop does is what it reports. -/
theorem snd_absorbFrom (steps index : Nat) (s : Store) :
    (absorbFrom n op steps index s).2 = replay (absorbFrom n op steps index s).1 s := by
  induction steps generalizing index s with
  | zero => rfl
  | succ steps ih =>
      cases child : s.child? n index with
      | none =>
          rw [absorbFrom_end child]
          rfl
      | some c =>
          by_cases inner : s.operator? c = some op
          · rw [absorbFrom_merge child inner, fst_absorbFrom_merge child inner, ih]
            rfl
          · rw [absorbFrom_pass child inner, ih]

/-! ## A loop that skips what it brings in -/

/-- Goes along the child list of `n` as `absorbFrom` does, but goes on behind the
children that took the place of a merged one. -/
def skipFrom (n : NodeId) (op : Operator) : Nat → Nat → Store → List Merge × Store
  | 0, _, s => ([], s)
  | steps + 1, index, s =>
    match s.child? n index with
    | none => ([], s)
    | some child =>
      if s.operator? child = some op then
        let (grandchildren, s) := s.takeChildren child
        let (merges, s) := skipFrom n op steps (index + grandchildren.length)
          (s.spliceChild n index grandchildren)
        (⟨n, child, index, grandchildren.length⟩ :: merges, s)
      else skipFrom n op steps (index + 1) s

/-- Merges the children of a node that have its operator, with the loop that skips. -/
def absorbSkipping (s : Store) (n : NodeId) : List Merge × Store :=
  match s.operator? n with
  | none => ([], s)
  | some op => skipFrom n op s.slots.size 0 s

/-- Merges children into each of the nodes, with the loop that skips. -/
def absorbAllSkipping : List NodeId → Store → List Merge × Store
  | [], s => ([], s)
  | n :: ns, s =>
    let (first, s) := s.absorbSkipping n
    let (others, s) := absorbAllSkipping ns s
    (first ++ others, s)

/-- Flattens the tree below a node, with the loop that skips. -/
def flattenSkipping (s : Store) (n : NodeId) : List Merge × Store :=
  absorbAllSkipping (s.tree n).postorder s

section SkipFrom

theorem skipFrom_end (ended : s.child? n index = none) : skipFrom n op steps index s = ([], s) := by
  cases steps with
  | zero => rfl
  | succ steps => simp [skipFrom, ended]

theorem skipFrom_merge (child : s.child? n index = some c) (inner : s.operator? c = some op) :
    skipFrom n op (steps + 1) index s =
      let rest := skipFrom n op steps (index + (s.children c).length) (s.mergeChild n index c)
      (⟨n, c, index, (s.children c).length⟩ :: rest.1, rest.2) := by
  simp only [skipFrom, child, inner, if_true]
  rfl

theorem skipFrom_pass (child : s.child? n index = some c) (other : s.operator? c ≠ some op) :
    skipFrom n op (steps + 1) index s = skipFrom n op steps (index + 1) s := by
  simp [skipFrom, child, other]

end SkipFrom

theorem snd_skipFrom (steps index : Nat) (s : Store) :
    (skipFrom n op steps index s).2 = replay (skipFrom n op steps index s).1 s := by
  induction steps generalizing index s with
  | zero => rfl
  | succ steps ih =>
      cases child : s.child? n index with
      | none =>
          rw [skipFrom_end child]
          rfl
      | some c =>
          by_cases inner : s.operator? c = some op
          · rw [skipFrom_merge child inner]
            exact ih _ _
          · rw [skipFrom_pass child inner, ih]

/-- After a merge the children that came in count as passed. -/
theorem Looping.skip (looping : s.Looping n op passed (c :: todo))
    (inner : s.operator? c = some op) :
    (s.mergeChild n passed.length c).Looping n op (passed ++ s.children c) todo where
  forest := (looping.merge inner).forest
  list := by rw [(looping.merge inner).list, List.append_assoc]
  flat d later := (looping.merge inner).flat d (List.mem_append_right _ later)

/-- The loop that skips reports the merges along the children as well. -/
theorem fst_skipFrom (looping : s.Looping n op passed todo) (enough : todo.length ≤ steps) :
    (skipFrom n op steps passed.length s).1 =
      mergesAlong s.operator? (fun c => (s.children c).length) n op passed.length todo := by
  induction steps generalizing s passed todo with
  | zero =>
      rw [List.eq_nil_of_length_eq_zero (Nat.le_zero.1 enough)]
      rfl
  | succ steps ih =>
      cases todo with
      | nil =>
          rw [skipFrom_end looping.child?_eq_none]
          rfl
      | cons c todo =>
          have child := looping.child?_eq_some
          rw [List.length_cons] at enough
          unfold mergesAlong
          by_cases inner : s.operator? c = some op
          · have step := ih (looping.skip inner) (by omega)
            rw [List.length_append, looping.mergesAlong_merge] at step
            rw [if_pos inner, skipFrom_merge child inner]
            exact congrArg (List.cons _) step
          · have step := ih looping.pass (by omega)
            rw [List.length_append, List.length_singleton] at step
            rw [if_neg inner, skipFrom_pass child inner, step]

/-! ## One node -/

theorem length_children_le (forest : s.IsForest) (n : NodeId) :
    (s.children n).length ≤ s.slots.size := by
  have inside : s.children n ⊆ List.range s.slots.size := fun c listed =>
    List.mem_range.2 (lt_size_of_live (forest.live_of_mem listed))
  simpa using ((forest.nodup_children n).subperm inside).length_le

section Absorb

variable (forest : s.IsForest) (flat : ∀ c ∈ s.children n, (s.tree c).Flat s.operator?)

include forest flat

theorem fst_absorb (own : s.operator? n = some op) :
    (s.absorb n).1 =
      mergesAlong s.operator? (fun c => (s.children c).length) n op 0 (s.children n) := by
  have loop := fst_absorbFrom (looping_absorb forest flat op)
    (length_flatMap_visited_le forest op n)
  simp only [absorb, own]
  exact loop

/-- Over flat trees the two loops do and report the same. -/
theorem absorbSkipping_eq : s.absorbSkipping n = s.absorb n := by
  unfold absorbSkipping
  cases own : s.operator? n with
  | none => simp [absorb, own]
  | some op =>
      have merges : (skipFrom n op s.slots.size 0 s).1 = (absorbFrom n op s.slots.size 0 s).1 := by
        have skipped := fst_skipFrom (looping_absorb forest flat op) (length_children_le forest n)
        have looked := fst_absorb forest flat own
        simp only [absorb, own] at looked
        exact skipped.trans looked.symm
      simp only [absorb, own]
      exact Prod.ext merges (by rw [snd_skipFrom, snd_absorbFrom, merges])

end Absorb

/-! ## A whole tree -/

/-- The node is about to absorb its children in `s₁`: they are those that it has in
`s`, and each has its flattened tree. -/
structure Ready (s : Store) (n : NodeId) (s₁ : Store) : Prop where
  regrouped : Regrouped s s₁
  children_eq : s₁.children n = s.children n
  tree_eq : ∀ c ∈ s.children n, s₁.tree c = (s.tree c).flatten s.operator?

theorem Ready.flat {s₁ : Store} (ready : Ready s n s₁) :
    ∀ c ∈ s₁.children n, (s₁.tree c).Flat s₁.operator? := by
  intro c listed
  rw [ready.children_eq] at listed
  rw [ready.tree_eq c listed, ready.regrouped.operator?_funext]
  exact Tree.flat_flatten _ _

/-- Each of the nodes is ready when its turn comes. -/
def ReadyInTurn (s : Store) : List NodeId → Store → Prop
  | [], _ => True
  | n :: ns, s₁ => s.Ready n s₁ ∧ s.ReadyInTurn ns (s₁.absorb n).2

theorem readyInTurn_append {s₁ : Store} {ms ns : List NodeId} :
    s.ReadyInTurn (ms ++ ns) s₁ ↔
      s.ReadyInTurn ms s₁ ∧ s.ReadyInTurn ns (absorbAll ms s₁).2 := by
  induction ms generalizing s₁ with
  | nil => exact (and_iff_right trivial).symm
  | cons m ms ih => exact (and_congr_right fun _ => ih).trans and_assoc.symm

/-- In trees without common nodes each node is ready in its turn if it is in each of them. -/
theorem readyInTurn_each {s₁ : Store} {cs : List NodeId} (forest₁ : s₁.IsForest)
    (apart : cs.Pairwise fun c d => ∀ m, ReflTransGen s₁.Lists c m → ¬ ReflTransGen s₁.Lists d m)
    (regrouped : Regrouped s s₁) (same : ∀ c ∈ cs, s₁.tree c = s.tree c)
    (one : ∀ c ∈ cs, ∀ s₂ : Store, Regrouped s s₂ → s₂.tree c = s.tree c →
      s.ReadyInTurn (s.tree c).postorder s₂) :
    s.ReadyInTurn (cs.flatMap fun c => (s.tree c).postorder) s₁ := by
  induction cs generalizing s₁ with
  | nil => trivial
  | cons c cs ih =>
      obtain ⟨apartFirst, apartRest⟩ := List.pairwise_cons.1 apart
      have first := flattened_postorder (s.tree c) forest₁ (same c List.mem_cons_self)
      rw [List.flatMap_cons, readyInTurn_append]
      refine ⟨one c List.mem_cons_self s₁ regrouped (same c List.mem_cons_self), ?_⟩
      refine ih first.regrouped.forest (first.pairwise_of_apart forest₁ apartFirst apartRest)
        (regrouped.trans first.regrouped) (fun d later => ?_)
        fun d later => one d (List.mem_cons_of_mem c later)
      rw [first.tree_eq_of_apart forest₁ (apartFirst d later),
        same d (List.mem_cons_of_mem c later)]

/-- Going through a tree from the leaves upwards, each node is ready in its turn. -/
theorem readyInTurn_postorder (forest : s.IsForest) (n : NodeId) :
    ∀ {s₁ : Store}, Regrouped s s₁ → s₁.tree n = s.tree n →
      s.ReadyInTurn (s.tree n).postorder s₁ := by
  induction n using forest.induction with
  | step n ih =>
      intro s₁ regrouped same
      have forest₁ := regrouped.forest
      obtain ⟨lists, trees⟩ := children_eq_of_tree_eq forest forest₁ same
      have apart := forest₁.pairwise_children n
      rw [lists] at apart
      rw [forest.tree_eq, Tree.postorder_node, List.flatMap_map, readyInTurn_append]
      refine ⟨readyInTurn_each forest₁ apart regrouped trees fun c listed s₂ => ih c listed, ?_⟩
      have each := flattenedEach_absorbAll forest₁ apart fun c _ s₂ forest₂ unchanged =>
        flattened_postorder _ forest₂ unchanged
      have postorders : ((s.children n).flatMap fun c => (s₁.tree c).postorder) =
          (s.children n).flatMap fun c => (s.tree c).postorder :=
        List.flatMap_congr fun c listed => by rw [trees c listed]
      rw [postorders] at each
      refine ⟨⟨regrouped.trans each.regrouped, ?_, fun c listed => ?_⟩, trivial⟩
      · exact (each.outside n fun c listed => forest₁.not_below_child (by rwa [lists])).trans lists
      · rw [each.tree_eq c listed, trees c listed, regrouped.operator?_funext]

/-! ## The merges of a flattening -/

/-- The merges at a node when its children have been flattened. -/
def mergesAt (s : Store) (n : NodeId) : List Merge :=
  match s.operator? n with
  | none => []
  | some op =>
    mergesAlong s.operator? (fun c => ((s.tree c).flatten s.operator?).children.length) n op 0
      (s.children n)

theorem Ready.fst_absorb {s₁ : Store} (ready : Ready s n s₁) : (s₁.absorb n).1 = s.mergesAt n := by
  have forest₁ := ready.regrouped.forest
  have operators := ready.regrouped.operator?_funext
  unfold mergesAt
  cases own : s.operator? n with
  | none => simp [absorb, operators, own]
  | some op =>
      rw [Store.fst_absorb forest₁ ready.flat (by rw [operators, own]), operators,
        ready.children_eq]
      refine mergesAlong_congr fun c listed => ?_
      rw [← ready.tree_eq c listed, forest₁.tree_eq, Tree.children_node, List.length_map]

theorem ReadyInTurn.fst_absorbAll {s₁ : Store} {ns : List NodeId} (ready : s.ReadyInTurn ns s₁) :
    (absorbAll ns s₁).1 = ns.flatMap s.mergesAt := by
  induction ns generalizing s₁ with
  | nil => rfl
  | cons n ns ih =>
      rw [List.flatMap_cons, ← ready.1.fst_absorb, ← ih ready.2]
      rfl

theorem ReadyInTurn.absorbAllSkipping_eq {s₁ : Store} {ns : List NodeId}
    (ready : s.ReadyInTurn ns s₁) : absorbAllSkipping ns s₁ = absorbAll ns s₁ := by
  induction ns generalizing s₁ with
  | nil => rfl
  | cons n ns ih =>
      have first := absorbSkipping_eq ready.1.regrouped.forest ready.1.flat
      simp only [absorbAllSkipping, absorbAll, first, ih ready.2]

section Flatten

variable (forest : s.IsForest) (n : NodeId)

include forest

/-- **What a flattening reports** are the merges at each node, from the leaves upwards. -/
theorem fst_flatten : (s.flatten n).1 = (s.tree n).postorder.flatMap s.mergesAt :=
  (readyInTurn_postorder forest n (.refl forest) rfl).fst_absorbAll

/-- **Skipping what a merge brings in makes no difference.** -/
theorem flattenSkipping_eq : s.flattenSkipping n = s.flatten n :=
  (readyInTurn_postorder forest n (.refl forest) rfl).absorbAllSkipping_eq

end Flatten

/-! ## Which children are merged -/

/-- Both nodes have the same operator. -/
def SameOperator (s : Store) (p c : NodeId) : Prop :=
  ∃ op, s.operator? p = some op ∧ s.operator? c = some op

theorem sameOperator_iff (own : s.operator? p = some op) :
    s.SameOperator p c ↔ s.operator? c = some op := by
  simp [SameOperator, own]

instance (s : Store) (p c : NodeId) : Decidable (s.SameOperator p c) :=
  match own : s.operator? p with
  | none => .isFalse (by simp [SameOperator, own])
  | some _ => decidable_of_iff _ (sameOperator_iff own).symm

/-- The children of a node that have its operator. -/
def repeating (s : Store) (p : NodeId) : List NodeId :=
  (s.children p).filter fun c => s.SameOperator p c

theorem mem_repeating : c ∈ s.repeating p ↔ c ∈ s.children p ∧ s.SameOperator p c := by
  simp [repeating]

/-- The nodes of the tree of `n`, each with those of its children that have its operator. -/
def repeatedPairs (s : Store) (n : NodeId) : List (NodeId × NodeId) :=
  (s.tree n).preorder.flatMap fun p => (s.repeating p).map (p, ·)

theorem mem_repeatedPairs :
    (p, c) ∈ s.repeatedPairs n ↔
      p ∈ (s.tree n).preorder ∧ c ∈ s.children p ∧ s.SameOperator p c := by
  simp [repeatedPairs, mem_repeating]

/-- Each pair is there once. -/
theorem IsForest.nodup_repeatedPairs (forest : s.IsForest) (n : NodeId) :
    (s.repeatedPairs n).Nodup := by
  refine List.nodup_flatMap.2 ⟨fun p _ => ?_, ?_⟩
  · exact ((forest.nodup_children p).filter _).map fun c d same => congrArg Prod.snd same
  · refine (forest.nodup_preorder n).imp fun differ pair first second => ?_
    obtain ⟨c, -, rfl⟩ := List.mem_map.1 first
    obtain ⟨d, -, same⟩ := List.mem_map.1 second
    exact differ (congrArg Prod.fst same).symm

/-- There is one merge for each child that has the operator of the node, in order. -/
theorem map_mergesAt (n : NodeId) :
    (s.mergesAt n).map (fun e => (e.parent, e.child)) = (s.repeating n).map (n, ·) := by
  unfold mergesAt repeating
  cases own : s.operator? n with
  | none => simp [SameOperator, own]
  | some op =>
      rw [map_mergesAlong]
      simp only [sameOperator_iff own]

theorem pairwise_mergesAt (n : NodeId) :
    (s.mergesAt n).Pairwise fun e f => e.index + e.count ≤ f.index := by
  unfold mergesAt
  cases s.operator? n with
  | none => exact .nil
  | some op => exact pairwise_mergesAlong

theorem length_mergesAt (n : NodeId) : (s.mergesAt n).length = (s.repeating n).length := by
  have same := congrArg List.length (map_mergesAt (s := s) n)
  rwa [List.length_map, List.length_map] at same

theorem of_mem_mergesAt {e : Merge} (member : e ∈ s.mergesAt n) :
    e.parent = n ∧ e.child ∈ s.repeating n := by
  have pair : (e.parent, e.child) ∈ (s.repeating n).map (n, ·) :=
    map_mergesAt (s := s) n ▸ List.mem_map_of_mem (f := fun e => (e.parent, e.child)) member
  obtain ⟨c, among, same⟩ := List.mem_map.1 pair
  cases same
  exact ⟨rfl, among⟩

/-! ## Order, positions and numbers -/

/-- No node stands before a node above it when a tree is gone through from the leaves upwards. -/
theorem IsForest.pairwise_postorder (forest : s.IsForest) (n : NodeId) :
    (s.tree n).postorder.Pairwise fun a b => ¬ s.Above a b := by
  have below {m a : NodeId} (member : a ∈ (s.tree m).postorder) : ReflTransGen s.Lists m a :=
    forest.mem_preorder_tree.1 (Tree.mem_postorder.1 member)
  induction n using forest.induction with
  | step n ih =>
      rw [forest.tree_eq, Tree.postorder_node, List.flatMap_map, List.pairwise_append,
        List.pairwise_flatMap]
      refine ⟨⟨ih, (forest.pairwise_children n).imp fun apart a inC b inD above => ?_⟩,
        List.pairwise_singleton _ _, fun a inside b last above => ?_⟩
      · exact apart b ((below inC).trans above.to_reflTransGen) (below inD)
      · obtain ⟨c, listed, inC⟩ := List.mem_flatMap.1 inside
        rw [List.mem_singleton.1 last] at above
        exact forest.not_below_child listed ((below inC).trans above.to_reflTransGen)

theorem IsForest.nodup_postorder (forest : s.IsForest) (n : NodeId) :
    (s.tree n).postorder.Nodup :=
  (Tree.postorder_perm _).nodup_iff.2 (forest.nodup_preorder n)

section Flatten

variable (forest : s.IsForest) (n : NodeId)

include forest

/-- The merges of a flattening are the pairs of a parent and a child with one operator. -/
theorem perm_map_fst_flatten :
    ((s.flatten n).1.map fun e => (e.parent, e.child)).Perm (s.repeatedPairs n) := by
  rw [fst_flatten forest, List.map_flatMap]
  simp only [map_mergesAt]
  exact (Tree.postorder_perm _).flatMap_right _

/-- The merges at nodes below a node come before those at the node. -/
theorem pairwise_parent_flatten :
    (s.flatten n).1.Pairwise fun e f => ¬ s.Above e.parent f.parent := by
  rw [fst_flatten forest, List.pairwise_flatMap]
  refine ⟨fun p _ => ?_, (forest.pairwise_postorder n).imp fun apart e inA f inB => ?_⟩
  · refine List.pairwise_of_forall_mem_list fun e inE f inF => ?_
    rw [(of_mem_mergesAt inE).1, (of_mem_mergesAt inF).1]
    exact forest.acyclic p
  · rwa [(of_mem_mergesAt inA).1, (of_mem_mergesAt inB).1]

/-- A merge at a node is at or behind the last child that a merge there before it brought in. -/
theorem pairwise_index_flatten :
    (s.flatten n).1.Pairwise fun e f => e.parent = f.parent → e.index + e.count ≤ f.index := by
  rw [fst_flatten forest, List.pairwise_flatMap]
  refine ⟨fun p _ => ?_, (forest.nodup_postorder n).imp fun differ e inA f inB same => ?_⟩
  · exact (pairwise_mergesAt p).imp fun {e f} behind (_ : e.parent = f.parent) => behind
  · rw [(of_mem_mergesAt inA).1, (of_mem_mergesAt inB).1] at same
    exact absurd same differ

theorem repeating_of_mem_flatten {e : Merge} (member : e ∈ (s.flatten n).1) :
    e.child ∈ s.repeating e.parent := by
  rw [fst_flatten forest] at member
  obtain ⟨p, -, here⟩ := List.mem_flatMap.1 member
  obtain ⟨rfl, among⟩ := of_mem_mergesAt here
  exact among

/-- What a merge brings in is not merged at the same node again. -/
theorem not_above_of_mem_flatten {e f : Merge} (first : e ∈ (s.flatten n).1)
    (second : f ∈ (s.flatten n).1) (same : e.parent = f.parent) :
    ¬ s.Above e.child f.child := by
  have listedE := (mem_repeating.1 (repeating_of_mem_flatten forest n first)).1
  have listedF := (mem_repeating.1 (repeating_of_mem_flatten forest n second)).1
  intro above
  obtain ⟨p, way, listed⟩ := TransGen.tail'_iff.1 above
  rw [forest.eq_of_mem_of_mem listed listedF, ← same] at way
  exact forest.not_below_child listedE way

end Flatten

/-! ## One node less for each merge -/

/-- What stands for a child has one node less if the child is merged. -/
theorem length_preorder_merge (op? : NodeId → Option Operator) (op : Operator) (t : Tree NodeId) :
    (if op? t.value = some op then 1 else 0) +
      ((Tree.merge op? op t).flatMap Tree.preorder).length = t.preorder.length := by
  cases t with
  | node a ts =>
      unfold Tree.merge
      by_cases same : op? a = some op
      · simp [same, Nat.add_comm]
      · simp [same]

theorem length_preorder_mergeBelow (forest : s.IsForest) (n : NodeId) :
    (s.repeating n).length + ((Tree.mergeBelow s.operator? n
      ((s.children n).map (Tree.flatten s.operator? ∘ s.tree))).flatMap Tree.preorder).length =
      ((s.children n).flatMap fun c => ((s.tree c).flatten s.operator?).preorder).length := by
  unfold Tree.mergeBelow repeating
  cases own : s.operator? n with
  | none => simp [SameOperator, own, List.flatMap_map, Function.comp_def]
  | some op =>
      simp only [sameOperator_iff own, ← List.countP_eq_length_filter, List.flatMap_map,
        List.flatMap_assoc]
      induction s.children n with
      | nil => rfl
      | cons c cs ih =>
          have first := length_preorder_merge s.operator? op ((s.tree c).flatten s.operator?)
          rw [Tree.value_flatten, forest.value_tree] at first
          simp only [List.countP_cons, List.flatMap_cons, List.length_append, decide_eq_true_eq,
            Function.comp_apply] at ih ⊢
          omega

/-- **Each merge takes one node out of the tree.** -/
theorem length_fst_flatten_add (forest : s.IsForest) (n : NodeId) :
    (s.flatten n).1.length + ((s.tree n).flatten s.operator?).preorder.length =
      (s.tree n).preorder.length := by
  induction n using forest.induction with
  | step n ih =>
      simp only [fst_flatten forest] at ih ⊢
      have own := length_preorder_mergeBelow forest n
      have below := congrArg List.sum (List.map_congr_left ih)
      rw [List.sum_map_add] at below
      rw [forest.tree_eq, Tree.flatten_node, Tree.postorder_node, List.flatMap_append,
        List.flatMap_singleton, List.length_append, length_mergesAt, List.map_map]
      simp only [Tree.preorder_node, List.length_cons, List.flatMap_map, List.flatMap_assoc,
        List.length_flatMap (l := s.children n), Function.comp_def] at own below ⊢
      omega

/-- In a tree that is flattened already nothing is merged. -/
theorem fst_flatten_eq_nil (forest : s.IsForest)
    (flat : (s.tree n).flatten s.operator? = s.tree n) : (s.flatten n).1 = [] := by
  have count := length_fst_flatten_add forest n
  rw [flat] at count
  exact List.eq_nil_of_length_eq_zero (by omega)

/-! ## Trees with the same operators in the same places -/

section Places

variable {op? op?' : NodeId → Option Operator} {width width' : NodeId → Nat}
  {cs' : List NodeId} {n' : NodeId}

/-- The positions and counts of the merges among children depend on what operators they have
and what they give way to. -/
theorem places_mergesAlong
    (same : List.Forall₂ (fun c c' => op? c = op?' c' ∧ width c = width' c') cs cs') :
    (mergesAlong op? width n op index cs).map (fun e => (e.index, e.count)) =
      (mergesAlong op?' width' n' op index cs').map fun e => (e.index, e.count) := by
  induction same generalizing index with
  | nil => rfl
  | @cons c c' cs cs' here _ ih =>
      simp only [mergesAlong, here.1, here.2]
      split
      · rw [List.map_cons, List.map_cons, ih]
      · exact ih

/-- What a tree flattens to has as many children as another one, if the operators in both are
the same in the same places. -/
theorem length_children_flatten {t t' : Tree NodeId} (same : t.map op? = t'.map op?') :
    (t.flatten op?).children.length = (t'.flatten op?').children.length := by
  have flattened : (t.flatten (id ∘ op?)).map op? = (t'.flatten (id ∘ op?')).map op?' := by
    rw [Tree.map_flatten, Tree.map_flatten, same]
  simpa using congrArg (fun t => t.children.length) flattened

/-- **Two flattenings report merges at the same positions**, with the same counts, if the
operators in the trees are the same in the same places. -/
theorem places_flatten (forest : s.IsForest) (forest' : s'.IsForest)
    (same : (s.tree n).map s.operator? = (s'.tree n').map s'.operator?) :
    (s.flatten n).1.map (fun e => (e.index, e.count)) =
      (s'.flatten n').1.map fun e => (e.index, e.count) := by
  rw [fst_flatten forest, fst_flatten forest']
  induction n using forest.induction generalizing n' with
  | step n ih =>
      rw [forest.tree_eq, forest'.tree_eq, Tree.map_node, Tree.map_node, List.map_map,
        List.map_map, Tree.node.injEq, ← List.forall₂_eq_eq_eq, List.forall₂_map_left_iff,
        List.forall₂_map_right_iff] at same
      obtain ⟨own, children⟩ := same
      have within := ((List.forall₂_and_left _ _).2 ⟨fun _ listed => listed, children⟩).imp
        fun c c' pair => ih c pair.1 pair.2
      rw [← List.forall₂_map_right_iff, ← List.forall₂_map_left_iff,
        List.forall₂_eq_eq_eq] at within
      have here : (s.mergesAt n).map (fun e => (e.index, e.count)) =
          (s'.mergesAt n').map fun e => (e.index, e.count) := by
        unfold mergesAt
        rw [own]
        cases s'.operator? n' with
        | none => rfl
        | some op =>
            refine places_mergesAlong (children.imp fun c c' trees => ⟨?_, ?_⟩)
            · simpa [forest.value_tree, forest'.value_tree] using congrArg Tree.value trees
            · exact length_children_flatten trees
      rw [forest.tree_eq, forest'.tree_eq, Tree.postorder_node, Tree.postorder_node]
      simp only [List.flatMap_append, List.flatMap_singleton, List.map_append, here,
        List.flatMap_map, List.flatMap_assoc, List.map_flatMap, List.append_cancel_right_eq]
      simpa only [List.flatMap_def, List.map_flatten, List.map_map, Function.comp_def]
        using congrArg List.flatten within

end Places

end OperatorTree.Store
