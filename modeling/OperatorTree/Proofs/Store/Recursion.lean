/-
# OperatorTree.Proofs.Store.Recursion -- flattening by recursion, without bounds

Flattening is a recursion over a store that changes while it runs: a node asks
for its children once, flattens each of them in the store that the ones before
left, and goes along its own list, which grows and shrinks, until there is no
child at the position it has reached.  Nothing in it bounds the number of steps.

`FlattensTo n s merges s'` says that this recursion, begun in `s`, comes to an
end in `s'` after these merges: a derivation is a run that ends.  There is at
most one such end (`FlattensTo.unique`), and in a forest `flatten` finds it
(`flattensTo_iff`).  So the bounds that `flatten` puts on its walks cut nothing
off, and going through the tree as it was at the start is going through the
children as they are found.
-/
import OperatorTree.Proofs.Store.Flatten

namespace OperatorTree.Store

set_option autoImplicit false

open Relation

variable {s s' : Store} {c m n : NodeId} {op : Operator}

/-! ## The recursion -/

/-- Going along the child list of `n` from a position on, to its end. -/
inductive AbsorbsTo (n : NodeId) (op : Operator) : Nat → Store → List Merge → Store → Prop where
  | ended {s : Store} {index : Nat} : s.child? n index = none → AbsorbsTo n op index s [] s
  | merge {s s' : Store} {index : Nat} {c : NodeId} {merges : List Merge} :
      s.child? n index = some c → s.operator? c = some op →
      AbsorbsTo n op index (s.mergeChild n index c) merges s' →
      AbsorbsTo n op index s (⟨n, c, index, (s.children c).length⟩ :: merges) s'
  | pass {s s' : Store} {index : Nat} {c : NodeId} {merges : List Merge} :
      s.child? n index = some c → s.operator? c ≠ some op →
      AbsorbsTo n op (index + 1) s merges s' → AbsorbsTo n op index s merges s'

mutual

/-- Flattening a node: its children first, and then its own list if it is an operator node. -/
inductive FlattensTo : NodeId → Store → List Merge → Store → Prop where
  | operator {s s₁ s' : Store} {n : NodeId} {op : Operator} {below own : List Merge} :
      FlattensEachTo (s.children n) s below s₁ → s₁.operator? n = some op →
      AbsorbsTo n op 0 s₁ own s' → FlattensTo n s (below ++ own) s'
  | other {s s' : Store} {n : NodeId} {below : List Merge} :
      FlattensEachTo (s.children n) s below s' → s'.operator? n = none → FlattensTo n s below s'

/-- Flattening nodes one after the other. -/
inductive FlattensEachTo : List NodeId → Store → List Merge → Store → Prop where
  | nil (s : Store) : FlattensEachTo [] s [] s
  | cons {s s₁ s' : Store} {c : NodeId} {cs : List NodeId} {first others : List Merge} :
      FlattensTo c s first s₁ → FlattensEachTo cs s₁ others s' →
      FlattensEachTo (c :: cs) s (first ++ others) s'

end

/-! ## It has one end at most -/

theorem AbsorbsTo.unique {index : Nat} {merges merges' : List Merge} {s'' : Store}
    (first : AbsorbsTo n op index s merges s') (second : AbsorbsTo n op index s merges' s'') :
    merges = merges' ∧ s' = s'' := by
  induction first generalizing merges' s'' with
  | ended none =>
      cases second with
      | ended => exact ⟨rfl, rfl⟩
      | merge child | pass child => simp [none] at child
  | merge child inner _ ih =>
      cases second with
      | ended none => simp [none] at child
      | merge child' inner' rest =>
          rw [child] at child'
          cases child'
          obtain ⟨rfl, rfl⟩ := ih rest
          exact ⟨rfl, rfl⟩
      | pass child' other =>
          rw [child] at child'
          cases child'
          exact absurd inner other
  | pass child other _ ih =>
      cases second with
      | ended none => simp [none] at child
      | merge child' inner =>
          rw [child] at child'
          cases child'
          exact absurd inner other
      | pass _ _ rest => exact ih rest

mutual

theorem FlattensTo.unique : ∀ {n : NodeId} {s s' s'' : Store} {merges merges' : List Merge},
    FlattensTo n s merges s' → FlattensTo n s merges' s'' → merges = merges' ∧ s' = s''
  | _, _, _, _, _, _, .operator below isOp own, .operator below' isOp' own' => by
      obtain ⟨rfl, rfl⟩ := below.unique below'
      rw [isOp] at isOp'
      cases isOp'
      obtain ⟨rfl, rfl⟩ := own.unique own'
      exact ⟨rfl, rfl⟩
  | _, _, _, _, _, _, .operator below isOp _, .other below' noOp => by
      obtain ⟨rfl, rfl⟩ := below.unique below'
      simp [isOp] at noOp
  | _, _, _, _, _, _, .other below noOp, .operator below' isOp _ => by
      obtain ⟨rfl, rfl⟩ := below.unique below'
      simp [isOp] at noOp
  | _, _, _, _, _, _, .other below _, .other below' _ => below.unique below'

theorem FlattensEachTo.unique : ∀ {cs : List NodeId} {s s' s'' : Store}
    {merges merges' : List Merge}, FlattensEachTo cs s merges s' →
    FlattensEachTo cs s merges' s'' → merges = merges' ∧ s' = s''
  | _, _, _, _, _, _, .nil _, .nil _ => ⟨rfl, rfl⟩
  | _, _, _, _, _, _, .cons first others, .cons first' others' => by
      obtain ⟨rfl, rfl⟩ := first.unique first'
      obtain ⟨rfl, rfl⟩ := others.unique others'
      exact ⟨rfl, rfl⟩

end

/-! ## It ends, and where `flatten` does -/

theorem fst_absorbFrom_merge {steps index : Nat} (child : s.child? n index = some c)
    (inner : s.operator? c = some op) :
    (absorbFrom n op (steps + 1) index s).1 =
      ⟨n, c, index, (s.children c).length⟩ ::
        (absorbFrom n op steps index (s.mergeChild n index c)).1 := by
  simp only [absorbFrom, child, inner, if_true]
  rfl

/-- With enough steps the loop comes to its end. -/
theorem absorbsTo_absorbFrom {passed todo : List NodeId} {steps : Nat}
    (looping : s.Looping n op passed todo)
    (enough : (todo.flatMap (s.visited op)).length ≤ steps) :
    AbsorbsTo n op passed.length s (absorbFrom n op steps passed.length s).1
      (absorbFrom n op steps passed.length s).2 := by
  induction steps generalizing s passed todo with
  | zero =>
      cases todo with
      | nil => exact .ended looping.child?_eq_none
      | cons c todo =>
          rw [List.flatMap_cons, visited, List.length_append, List.length_cons] at enough
          omega
  | succ steps ih =>
      cases todo with
      | nil =>
          rw [absorbFrom_end looping.child?_eq_none]
          exact .ended looping.child?_eq_none
      | cons c todo =>
          have child := looping.child?_eq_some
          by_cases inner : s.operator? c = some op
          · have fewer := looping.length_visited_merge inner
            rw [absorbFrom_merge child inner, fst_absorbFrom_merge child inner]
            exact .merge child inner (ih (looping.merge inner) (by omega))
          · rw [List.flatMap_cons, visited_of_ne inner, List.length_append, List.length_singleton]
              at enough
            have step := ih looping.pass (by omega)
            rw [List.length_append, List.length_singleton] at step
            rw [absorbFrom_pass child inner]
            exact .pass child inner step

theorem absorbsTo_absorb (forest : s.IsForest) (own : s.operator? n = some op)
    (flat : ∀ c ∈ s.children n, (s.tree c).Flat s.operator?) :
    AbsorbsTo n op 0 s (s.absorb n).1 (s.absorb n).2 := by
  have loop := absorbsTo_absorbFrom (looping_absorb forest flat op)
    (length_flatMap_visited_le forest op n)
  simp only [absorb, own]
  exact loop

theorem fst_absorbAll_append (ms ns : List NodeId) (s : Store) :
    (absorbAll (ms ++ ns) s).1 = (absorbAll ms s).1 ++ (absorbAll ns (absorbAll ms s).2).1 := by
  induction ms generalizing s with
  | nil => rfl
  | cons m ms ih =>
      show (s.absorb m).1 ++ (absorbAll (ms ++ ns) (s.absorb m).2).1 = _
      rw [ih, ← List.append_assoc]
      rfl

/-- Trees without common nodes are flattened as they are found if each is flattened
as it was at the start. -/
theorem flattensEachTo_absorbAll {cs : List NodeId} (forest : s.IsForest)
    (apart : cs.Pairwise fun c d => ∀ m, ReflTransGen s.Lists c m → ¬ ReflTransGen s.Lists d m)
    (one : ∀ c ∈ cs, ∀ s₁ : Store, s₁.IsForest → s₁.tree c = s.tree c →
      FlattensTo c s₁ (absorbAll (s.tree c).postorder s₁).1 (absorbAll (s.tree c).postorder s₁).2) :
    FlattensEachTo cs s (absorbAll (cs.flatMap fun c => (s.tree c).postorder) s).1
      (absorbAll (cs.flatMap fun c => (s.tree c).postorder) s).2 := by
  induction cs generalizing s with
  | nil => exact .nil s
  | cons c cs ih =>
      obtain ⟨apartFirst, apartRest⟩ := List.pairwise_cons.1 apart
      have first : Flattened s c (absorbAll (s.tree c).postorder s).2 := flattened_flatten forest c
      have ends := one c List.mem_cons_self s forest rfl
      rw [List.flatMap_cons, absorbAll_append, fst_absorbAll_append,
        ← first.flatMap_postorder_eq forest apartFirst]
      refine .cons ends (ih first.regrouped.forest
        (first.pairwise_of_apart forest apartFirst apartRest) ?_)
      intro d later s₂ forest₂ unchanged
      have whole := first.tree_eq_of_apart forest (apartFirst d later)
      rw [whole] at unchanged ⊢
      exact one d (List.mem_cons_of_mem c later) s₂ forest₂ unchanged

theorem flattensTo_postorder (t : Tree NodeId) : ∀ {s : Store} {n : NodeId}, s.IsForest →
    s.tree n = t → FlattensTo n s (absorbAll t.postorder s).1 (absorbAll t.postorder s).2 := by
  induction t using Tree.induction with
  | step a ts ih =>
      intro s n forest whole
      rw [forest.tree_eq] at whole
      injection whole with root subtrees
      subst root subtrees
      rw [Tree.postorder_node, absorbAll_append, fst_absorbAll_append, List.flatMap_map]
      have apart := forest.pairwise_children n
      have each := flattenedEach_absorbAll forest apart fun c _ s₁ forest₁ same =>
        flattened_postorder _ forest₁ same
      have ends := flattensEachTo_absorbAll forest apart fun c listed s₁ forest₁ same =>
        ih (s.tree c) (List.mem_map_of_mem listed) forest₁ same
      generalize absorbAll ((s.children n).flatMap fun c => (s.tree c).postorder) s = after
        at each ends ⊢
      have single (s₁ : Store) : absorbAll [n] s₁ = s₁.absorb n := by simp [absorbAll]
      rw [single]
      cases own : after.2.operator? n with
      | none =>
          have alone : after.2.absorb n = ([], after.2) := by simp [Store.absorb, own]
          rw [alone, List.append_nil]
          exact .other ends own
      | some op =>
          exact .operator ends own (absorbsTo_absorb each.regrouped.forest own (each.flat forest))

/-- **Flattening ends**, and ends where `flatten` says: in a forest the recursion
without bounds has exactly this end. -/
theorem flattensTo_iff (forest : s.IsForest) {merges : List Merge} :
    FlattensTo n s merges s' ↔ s.flatten n = (merges, s') := by
  have ends : FlattensTo n s (s.flatten n).1 (s.flatten n).2 := flattensTo_postorder _ forest rfl
  constructor
  · intro other
    obtain ⟨rfl, rfl⟩ := ends.unique other
    rfl
  · intro same
    rwa [same] at ends

end OperatorTree.Store
