/-
# OperatorTree.Proofs.Store.Refusals -- what the checks of an edit come to

The checks are made with what is at hand.  A cycle is looked for on the way up from
the node that is to take a child, and the positions of siblings are looked up in the
child list of the parent that their links name.  In a forest it can be said without
the way there what they come to.  There would be a cycle just when the node is in the
tree of its child to be (`IsForest.refusal?_eq`); a new node is in no such tree, so
the one thing that keeps an operand from it is a parent (`IsForest.refusal?_new`); and
two nodes with one parent are both found in its list (`IsForest.swap_siblings`).

A pair of parentheses always has its contents, where the store is sound, so it never
takes a child (`Sound.full?_eq`).
-/
import OperatorTree.Proofs.Store.Shape

namespace OperatorTree.Store

set_option autoImplicit false

open Relation

variable {s : Store} {a b c n p : NodeId}

/-! ## Children -/

/-- A node cannot take a child that has it in its tree, nor one that has a parent. -/
theorem IsForest.refusal?_eq (forest : s.IsForest) (p c : NodeId) :
    s.refusal? p c =
      match s.full? p with
      | some e => some e
      | none =>
        if p ∈ (s.tree c).preorder then some .wouldCreateCycle
        else if s.IsRoot c then none
        else some .alreadyAttached := by
  have cycle : p ∈ (s.tree c).preorder ↔ c = p ∨ c ∈ s.ancestors p :=
    forest.mem_preorder_tree.trans forest.below_iff_mem_ancestors
  unfold refusal?
  cases s.full? p with
  | some e => rfl
  | none =>
      by_cases inside : p ∈ (s.tree c).preorder
      · simp only [if_pos inside, if_pos (cycle.1 inside)]
      · simp only [if_neg inside, if_neg (mt cycle.2 inside)]

/-- In a sound store it depends on the kind of a node whether it can take a child. -/
theorem Sound.full?_eq (sound : s.Sound) (live : s.Live p) :
    s.full? p =
      match s.content p with
      | .literal _ => some .literalHasNoChildren
      | .parenthetical _ => some .parentheticalAlreadyFilled
      | .operator _ => none := by
  have fits := sound.fits p live
  unfold FitsAt at fits
  unfold full?
  cases content : s.content p with
  | literal label => rfl
  | operator op => rfl
  | parenthetical label =>
      rw [content] at fits
      have filled : s.children p ≠ [] := List.ne_nil_of_length_eq_add_one fits
      simp only [if_neg filled]

theorem fst_addChild (s : Store) (p c : NodeId) :
    (s.addChild p c).1 =
      match s.refusal? p c with
      | some e => .error e
      | none => .ok () := by
  unfold addChild
  cases s.refusal? p c <;> rfl

theorem addChild_of_ok (taken : (s.addChild p c).1 = .ok ()) :
    s.addChild p c = (.ok (), s.attach p c) := by
  unfold addChild at taken ⊢
  cases refusal : s.refusal? p c with
  | some e => simp [refusal] at taken
  | none => rfl

/-- **What comes of taking a child.** -/
theorem Sound.fst_addChild (sound : s.Sound) (live : s.Live p) (c : NodeId) :
    (s.addChild p c).1 =
      match s.content p with
      | .literal _ => .error .literalHasNoChildren
      | .parenthetical _ => .error .parentheticalAlreadyFilled
      | .operator _ =>
        if p ∈ (s.tree c).preorder then .error .wouldCreateCycle
        else if s.IsRoot c then .ok ()
        else .error .alreadyAttached := by
  rw [Store.fst_addChild, sound.forest.refusal?_eq, sound.full?_eq live]
  cases s.content p with
  | literal label => rfl
  | parenthetical label => rfl
  | operator op =>
      by_cases cycle : p ∈ (s.tree c).preorder
      · simp only [if_pos cycle]
      · by_cases root : s.IsRoot c
        · simp only [if_neg cycle, if_pos root]
        · simp only [if_neg cycle, if_neg root]

theorem not_isRoot_iff : ¬ s.IsRoot n ↔ ∃ p, s.parent? n = some p :=
  Option.ne_none_iff_exists'

/-- Each way for a child to be refused, and the one to be taken. -/
theorem Sound.addChild_conditions (sound : s.Sound) (live : s.Live p) (c : NodeId) :
    ((s.addChild p c).1 = .error .literalHasNoChildren ↔ ∃ label, s.content p = .literal label) ∧
    ((s.addChild p c).1 = .error .parentheticalAlreadyFilled ↔
      ∃ label, s.content p = .parenthetical label) ∧
    ((s.addChild p c).1 = .error .wouldCreateCycle ↔
      (∃ op, s.content p = .operator op) ∧ p ∈ (s.tree c).preorder) ∧
    ((s.addChild p c).1 = .error .alreadyAttached ↔
      (∃ op, s.content p = .operator op) ∧ p ∉ (s.tree c).preorder ∧
        ∃ q, s.parent? c = some q) ∧
    ((s.addChild p c).1 = .ok () ↔
      (∃ op, s.content p = .operator op) ∧ p ∉ (s.tree c).preorder ∧ s.IsRoot c) := by
  rw [sound.fst_addChild live, ← not_isRoot_iff]
  cases s.content p with
  | literal label => simp
  | parenthetical label => simp
  | operator op =>
      by_cases cycle : p ∈ (s.tree c).preorder
      · simp [cycle]
      · by_cases root : s.IsRoot c
        · simp [cycle, root]
        · simp [cycle, root]

/-! ## New nodes -/

theorem IsForest.parent?_alloc (forest : s.IsForest) (content : Content) :
    (s.alloc content).2.parent? n = s.parent? n := by
  ext p
  rw [parent?_eq_some_iff, parent?_eq_some_iff, link?_alloc, live_alloc]
  refine and_congr_right fun linked => or_iff_right ?_
  exact Nat.ne_of_lt (forest.link_lt linked)

theorem IsForest.isRoot_alloc_iff (forest : s.IsForest) (content : Content) :
    (s.alloc content).2.IsRoot n ↔ s.IsRoot n := by
  rw [IsRoot, IsRoot, forest.parent?_alloc]

theorem full?_alloc_new {content : Content} (notLiteral : ∀ label, content ≠ .literal label) :
    (s.alloc content).2.full? s.slots.size = none := by
  rw [full?, content_alloc_new]
  cases content with
  | literal label => exact absurd rfl (notLiteral label)
  | operator op => rfl
  | parenthetical label => simp only [children_alloc_new, if_true]

/-- A new node that can have children takes any root, and no other node. -/
theorem IsForest.refusal?_new (forest : s.IsForest) {content : Content}
    (notLiteral : ∀ label, content ≠ .literal label) (live : s.Live n) :
    (s.alloc content).2.refusal? s.slots.size n =
      if s.IsRoot n then none else some .alreadyAttached := by
  have forest' := forest.alloc content
  have apart : s.slots.size ∉ ((s.alloc content).2.tree n).preorder := by
    intro inside
    have same := forest'.eq_of_reflTransGen_isRoot (isRoot_alloc_new content)
      (forest'.mem_preorder_tree.1 inside)
    exact not_live_size s (same ▸ live)
  rw [forest'.refusal?_eq, full?_alloc_new notLiteral]
  by_cases root : s.IsRoot n
  · simp only [if_neg apart, if_pos root, if_pos ((forest.isRoot_alloc_iff content).2 root)]
  · simp only [if_neg apart, if_neg root, if_neg (mt (forest.isRoot_alloc_iff content).1 root)]

section Operands

variable (forest : s.IsForest)

include forest

/-- **What comes of making an operator node.** -/
theorem IsForest.fst_operator (op : Operator) {left right : NodeId} (liveL : s.Live left)
    (liveR : s.Live right) :
    (s.operator op left right).1 =
      if left = right ∨ ¬ s.IsRoot left ∨ ¬ s.IsRoot right then .error .alreadyAttached
      else .ok s.slots.size := by
  have operand {n : NodeId} (live : s.Live n) :
      (s.alloc (.operator op)).2.refusal? s.slots.size n =
        if s.IsRoot n then none else some .alreadyAttached :=
    forest.refusal?_new (by simp) live
  unfold Store.operator
  by_cases same : left = right
  · simp [same]
  · by_cases rootL : s.IsRoot left
    · by_cases rootR : s.IsRoot right
      · simp [same, alloc_fst, operand liveL, operand liveR, rootL, rootR]
      · simp [same, alloc_fst, operand liveL, operand liveR, rootL, rootR]
    · simp [same, alloc_fst, operand liveL, rootL]

/-- **What comes of making a pair of parentheses.** -/
theorem IsForest.fst_parenthetical (label : String) {inner : NodeId} (live : s.Live inner) :
    (s.parenthetical label inner).1 =
      if s.IsRoot inner then .ok s.slots.size else .error .alreadyAttached := by
  have contents : (s.alloc (.parenthetical label)).2.refusal? s.slots.size inner =
      if s.IsRoot inner then none else some .alreadyAttached :=
    forest.refusal?_new (by simp) live
  unfold Store.parenthetical Store.addChild
  by_cases root : s.IsRoot inner
  · simp [alloc_fst, contents, root]
  · simp [alloc_fst, contents, root]

/-- An operator node is refused for an operand that is given twice or has a parent. -/
theorem IsForest.operator_conditions (op : Operator) {left right : NodeId} (liveL : s.Live left)
    (liveR : s.Live right) :
    ((∃ e, (s.operator op left right).1 = .error e) ↔
      left = right ∨ (∃ p, s.parent? left = some p) ∨ ∃ p, s.parent? right = some p) ∧
    ∀ e, (s.operator op left right).1 = .error e → e = .alreadyAttached := by
  rw [forest.fst_operator op liveL liveR, ← not_isRoot_iff, ← not_isRoot_iff]
  by_cases refused : left = right ∨ ¬ s.IsRoot left ∨ ¬ s.IsRoot right
  · simp [refused]
  · simp only [if_neg refused]
    simp [refused]

/-- A pair of parentheses is refused for contents that have a parent. -/
theorem IsForest.parenthetical_conditions (label : String) {inner : NodeId}
    (live : s.Live inner) :
    ((∃ e, (s.parenthetical label inner).1 = .error e) ↔ ∃ p, s.parent? inner = some p) ∧
    ∀ e, (s.parenthetical label inner).1 = .error e → e = .alreadyAttached := by
  rw [forest.fst_parenthetical label live, ← not_isRoot_iff]
  by_cases root : s.IsRoot inner
  · simp [root]
  · simp [root]

end Operands

/-! ## Siblings -/

/-- A node without a parent is exchanged with none. -/
theorem fst_swap_of_isRoot (root : s.IsRoot a ∨ s.IsRoot b) :
    (s.swap a b).1 = .error .detached := by
  unfold swap
  rcases root with root | root
  · rw [root]
  · rw [root]
    cases s.parent? a <;> rfl

/-- Nodes of different parents are not exchanged. -/
theorem fst_swap_of_ne {q : NodeId} (aboveA : s.parent? a = some p) (aboveB : s.parent? b = some q)
    (differ : p ≠ q) : (s.swap a b).1 = .error .notSiblings := by
  simp [swap, aboveA, aboveB, differ]

section Siblings

variable (forest : s.IsForest)

include forest

/-- A node is found in the child list of its parent. -/
theorem IsForest.exists_idxOf? (above : s.parent? n = some p) :
    ∃ i, (s.children p).idxOf? n = some i ∧ (s.children p)[i]? = some n := by
  have listed := forest.mem_children_iff_parent?.2 above
  obtain ⟨i, found⟩ := Option.isSome_iff_exists.1 (List.isSome_idxOf?.2 listed)
  obtain ⟨inside, here⟩ := exists_getElem_of_idxOf? found
  exact ⟨i, found, List.getElem?_eq_some_iff.2 ⟨inside, here⟩⟩

/-- **What comes of exchanging siblings.** -/
theorem IsForest.swap_siblings (aboveA : s.parent? a = some p) (aboveB : s.parent? b = some p) :
    ∃ i j, (s.children p)[i]? = some a ∧ (s.children p)[j]? = some b ∧
      s.swap a b = (.ok (i, j), s.setChildren p (((s.children p).set i b).set j a)) := by
  obtain ⟨i, foundA, hereA⟩ := forest.exists_idxOf? aboveA
  obtain ⟨j, foundB, hereB⟩ := forest.exists_idxOf? aboveB
  refine ⟨i, j, hereA, hereB, ?_⟩
  simp [Store.swap, aboveA, aboveB, foundA, foundB]

/-- Both ways for two nodes not to be exchanged. -/
theorem IsForest.swap_conditions (a b : NodeId) :
    ((s.swap a b).1 = .error .detached ↔ s.IsRoot a ∨ s.IsRoot b) ∧
    ((s.swap a b).1 = .error .notSiblings ↔
      ∃ p q, s.parent? a = some p ∧ s.parent? b = some q ∧ p ≠ q) := by
  by_cases root : s.IsRoot a ∨ s.IsRoot b
  · rw [fst_swap_of_isRoot root]
    have none : ¬ ∃ p q, s.parent? a = some p ∧ s.parent? b = some q ∧ p ≠ q := by
      rintro ⟨p, q, aboveA, aboveB, -⟩
      rcases root with root | root
      · exact not_isRoot_iff.2 ⟨p, aboveA⟩ root
      · exact not_isRoot_iff.2 ⟨q, aboveB⟩ root
    simp only [root, none, reduceCtorEq, Except.error.injEq, and_self]
  · obtain ⟨notA, notB⟩ := not_or.1 root
    obtain ⟨p, aboveA⟩ := not_isRoot_iff.1 notA
    obtain ⟨q, aboveB⟩ := not_isRoot_iff.1 notB
    by_cases same : p = q
    · subst same
      obtain ⟨i, j, -, -, made⟩ := forest.swap_siblings aboveA aboveB
      simp [made, root, aboveA, aboveB]
    · rw [fst_swap_of_ne aboveA aboveB same]
      simp [root, aboveA, aboveB, same]

end Siblings

end OperatorTree.Store
