/-
# OperatorTree.Proofs.Store.Shape -- every edit keeps a forest, and the number of children right

A node fits (`FitsAt`) when it has as many children as its content allows: none
below a literal, one inside a pair of parentheses, any number below an operator.
A store is sound when it is a forest in which every live node fits.

An edit checks before it changes.  What the checks say is turned into the
conditions of the changes here (`refusal?_eq_none_iff`), and so every edit,
made or refused, leads from a sound store to a sound one.  The one exception is
a pair of parentheses that was refused its contents: the empty pair is left
behind, a new node that nothing names or lists.
-/
import OperatorTree.Proofs.Store.Merge
import OperatorTree.Proofs.Store.Plant

namespace OperatorTree.Store

set_option autoImplicit false

open Relation

variable {s s' : Store} {c m n p : NodeId}

/-- A node has as many children as its content allows. -/
def FitsAt (s : Store) (n : NodeId) : Prop :=
  (s.content n).Fits (s.children n).length

/-- A forest in which every live node fits. -/
structure Sound (s : Store) : Prop where
  forest : s.IsForest
  fits : ∀ n, s.Live n → s.FitsAt n

theorem FitsAt.congr (fits : s.FitsAt n) (content : s'.content n = s.content n)
    (children : (s'.children n).length = (s.children n).length) : s'.FitsAt n := by
  show (s'.content n).Fits (s'.children n).length
  rw [content, children]
  exact fits

theorem sound_empty : empty.Sound where
  forest := isForest_empty
  fits n live := by simp [Live] at live

/-! ## A new node -/

theorem fitsAt_alloc_of_ne {content : Content} (fits : s.FitsAt n) (old : n ≠ s.slots.size) :
    (s.alloc content).2.FitsAt n := by
  refine fits.congr ?_ (by rw [children_alloc])
  rw [content_alloc, if_neg old]

theorem fitsAt_alloc_new {content : Content} (fits : content.Fits 0) :
    (s.alloc content).2.FitsAt s.slots.size := by
  show ((s.alloc content).2.content _).Fits ((s.alloc content).2.children _).length
  rw [content_alloc_new, children_alloc_new]
  exact fits

theorem Sound.alloc (sound : s.Sound) {content : Content} (fits : content.Fits 0) :
    (s.alloc content).2.Sound where
  forest := sound.forest.alloc content
  fits n live := by
    by_cases new : n = s.slots.size
    · subst new
      exact fitsAt_alloc_new fits
    · exact fitsAt_alloc_of_ne (sound.fits n (((live_alloc content).1 live).resolve_left new)) new

/-! ## Attaching -/

/-- Attaching `c` below `p` closes no cycle and gives no node a second parent. -/
structure Attachable (s : Store) (p c : NodeId) : Prop where
  livePar : s.Live p
  liveChild : s.Live c
  notFull : s.full? p = none
  root : s.IsRoot c
  apart : ¬ ReflTransGen s.Lists c p

/-- **When a child is accepted.**  The node `c` may become a child of `p` just when
`p` can take one, `c` has no parent, and `p` is not in the tree of `c`. -/
theorem refusal?_eq_none_iff (forest : s.IsForest) :
    s.refusal? p c = none ↔ s.full? p = none ∧ s.IsRoot c ∧ ¬ ReflTransGen s.Lists c p := by
  rw [forest.below_iff_mem_ancestors]
  unfold refusal?
  cases s.full? p with
  | some e => simp
  | none =>
      by_cases closes : c = p ∨ c ∈ s.ancestors p
      · simp [closes]
      · simp [closes]

theorem attachable_of_refusal? (forest : s.IsForest) (livePar : s.Live p) (liveChild : s.Live c)
    (allowed : s.refusal? p c = none) : s.Attachable p c := by
  obtain ⟨notFull, root, apart⟩ := (refusal?_eq_none_iff forest).1 allowed
  exact ⟨livePar, liveChild, notFull, root, apart⟩

theorem Attachable.forest (attachable : s.Attachable p c) (forest : s.IsForest) :
    (s.attach p c).IsForest :=
  forest.attach attachable.livePar attachable.liveChild attachable.root attachable.apart

/-- The node that takes a child fits afterwards, and every other node as before. -/
theorem fitsAt_attach (live : s.Live p) (notFull : s.full? p = none)
    (fits : n ≠ p → s.FitsAt n) : (s.attach p c).FitsAt n := by
  by_cases here : n = p
  · subst here
    show ((s.attach n c).content n).Fits ((s.attach n c).children n).length
    rw [children_attach live, if_pos rfl, content_attach]
    unfold full? at notFull
    cases content : s.content n with
    | literal label => simp [content] at notFull
    | operator op => trivial
    | parenthetical label =>
        have empty : s.children n = [] := by
          apply Classical.byContradiction
          intro filled
          simp [content, filled] at notFull
        rw [empty]
        rfl
  · exact (fits here).congr content_attach (by rw [children_attach live, if_neg here])

theorem Sound.attach (sound : s.Sound) (attachable : s.Attachable p c) :
    (s.attach p c).Sound where
  forest := attachable.forest sound.forest
  fits n live :=
    fitsAt_attach attachable.livePar attachable.notFull fun _ => sound.fits n (live_attach.1 live)

theorem Sound.addChild (sound : s.Sound) (livePar : s.Live p) (liveChild : s.Live c) :
    (s.addChild p c).2.Sound := by
  unfold Store.addChild
  cases allowed : s.refusal? p c with
  | some e => exact sound
  | none => exact sound.attach (attachable_of_refusal? sound.forest livePar liveChild allowed)

theorem live_addChild : (s.addChild p c).2.Live n ↔ s.Live n := by
  unfold addChild
  cases s.refusal? p c with
  | some e => exact Iff.rfl
  | none => exact live_attach

/-! ## New operators and parentheses -/

theorem isRoot_alloc_new (content : Content) : (s.alloc content).2.IsRoot s.slots.size :=
  isRoot_of_link?_eq_none link?_alloc_new

section Operator

variable {op : Operator} {left right : NodeId}

/-- The second operand can still be attached when the first one is. -/
theorem attachable_second (forest : s.IsForest) (differ : left ≠ right)
    (first : s.Attachable n left) (second : s.Attachable n right) (root : s.IsRoot n)
    (isOperator : s.operator? n = some op) : (s.attach n left).Attachable n right where
  livePar := live_attach.2 first.livePar
  liveChild := live_attach.2 second.liveChild
  notFull := by
    unfold full?
    rw [content_attach, operator?_eq_some_iff.1 isOperator]
  root := by
    have unlinked : ∀ p, s.parent? right ≠ some p := by
      intro p above
      rw [second.root] at above
      cases above
    rw [IsRoot, Option.eq_none_iff_forall_ne_some]
    intro p above
    rw [parent?_eq_some_iff, link?_attach first.liveChild, if_neg (Ne.symm differ), live_attach,
      ← parent?_eq_some_iff] at above
    exact unlinked p above
  apart way := by
    have notLeft : n ≠ left := fun same => first.apart (same ▸ .refl)
    have notRight : right ≠ n := fun same => second.apart (same ▸ .refl)
    have stillRoot : (s.attach n left).IsRoot n := by
      rw [IsRoot, Option.eq_none_iff_forall_ne_some]
      intro p above
      rw [parent?_eq_some_iff, link?_attach first.liveChild, if_neg notLeft, live_attach,
        ← parent?_eq_some_iff, root] at above
      cases above
    exact notRight ((first.forest forest).eq_of_reflTransGen_isRoot stillRoot way)

/-- What `operator` leaves behind is the store as it was, with the new node alone,
or with the new node over both operands. -/
theorem operator_cases (s : Store) (op : Operator) (left right : NodeId) :
    (∃ e, s.operator op left right = (.error e, s)) ∨
    (∃ e, s.operator op left right = (.error e, (s.alloc (.operator op)).2)) ∨
    (left ≠ right ∧ (s.alloc (.operator op)).2.refusal? s.slots.size left = none ∧
      (s.alloc (.operator op)).2.refusal? s.slots.size right = none ∧
      s.operator op left right = (.ok s.slots.size,
        ((s.alloc (.operator op)).2.attach s.slots.size left).attach s.slots.size right)) := by
  unfold operator
  by_cases same : left = right
  · exact .inl ⟨.alreadyAttached, by rw [if_pos same]⟩
  · refine .inr ?_
    rw [if_neg same]
    cases first : (s.alloc (.operator op)).2.refusal? s.slots.size left with
    | some e => exact .inl ⟨e, by simp [alloc_fst, first]⟩
    | none =>
        cases second : (s.alloc (.operator op)).2.refusal? s.slots.size right with
        | some e => exact .inl ⟨e, by simp [alloc_fst, first, second]⟩
        | none => exact .inr ⟨same, rfl, rfl, by simp [alloc_fst, first, second]⟩

/-- An operator node that is made takes the next number. -/
theorem eq_size_of_operator (made : (s.operator op left right).1 = .ok n) : n = s.slots.size := by
  rcases s.operator_cases op left right with ⟨e, result⟩ | ⟨e, result⟩ | ⟨-, -, -, result⟩
  · simp [result] at made
  · simp [result] at made
  · simpa [result, eq_comm] using made

theorem Sound.operator (sound : s.Sound) (liveLeft : s.Live left) (liveRight : s.Live right) :
    (s.operator op left right).2.Sound := by
  have new : (s.alloc (.operator op)).2.Sound := sound.alloc trivial
  rcases s.operator_cases op left right with
    ⟨e, refused⟩ | ⟨e, refused⟩ | ⟨differ, first, second, made⟩
  · rw [refused]
    exact sound
  · rw [refused]
    exact new
  · rw [made]
    have livePar : (s.alloc (.operator op)).2.Live s.slots.size := live_alloc_new
    have isOperator : (s.alloc (.operator op)).2.operator? s.slots.size = some op := by
      rw [operator?_eq_some_iff, content_alloc, if_pos rfl]
    have attachLeft :=
      attachable_of_refusal? new.forest livePar ((live_alloc _).2 (.inr liveLeft)) first
    have attachRight :=
      attachable_of_refusal? new.forest livePar ((live_alloc _).2 (.inr liveRight)) second
    exact (new.attach attachLeft).attach
      (attachable_second new.forest differ attachLeft attachRight (isRoot_alloc_new _) isOperator)

end Operator

section Parenthetical

variable {label : String} {inner : NodeId}

/-- What `parenthetical` leaves behind is an empty pair, or the pair around its contents. -/
theorem parenthetical_cases (s : Store) (label : String) (inner : NodeId) :
    (∃ e, s.parenthetical label inner = (.error e, (s.alloc (.parenthetical label)).2)) ∨
    ((s.alloc (.parenthetical label)).2.refusal? s.slots.size inner = none ∧
      s.parenthetical label inner = (.ok s.slots.size,
        (s.alloc (.parenthetical label)).2.attach s.slots.size inner)) := by
  unfold parenthetical
  cases allowed : (s.alloc (.parenthetical label)).2.refusal? s.slots.size inner with
  | some e => exact .inl ⟨e, by simp [alloc_fst, Store.addChild, allowed]⟩
  | none => exact .inr ⟨rfl, by simp [alloc_fst, Store.addChild, allowed]⟩

/-- A pair of parentheses that is made takes the next number. -/
theorem eq_size_of_parenthetical (made : (s.parenthetical label inner).1 = .ok n) :
    n = s.slots.size := by
  rcases s.parenthetical_cases label inner with ⟨e, result⟩ | ⟨-, result⟩
  · simp [result] at made
  · simpa [result, eq_comm] using made

theorem Sound.parenthetical (sound : s.Sound) (live : s.Live inner)
    (allowed : (s.alloc (.parenthetical label)).2.refusal? s.slots.size inner = none) :
    ((s.alloc (.parenthetical label)).2.attach s.slots.size inner).Sound := by
  have forest := sound.forest.alloc (.parenthetical label)
  have attachable := attachable_of_refusal? forest live_alloc_new ((live_alloc _).2 (.inr live))
    allowed
  refine ⟨attachable.forest forest, ?_⟩
  intro n liveN
  apply fitsAt_attach attachable.livePar attachable.notFull
  intro old
  have before := ((live_alloc _).1 (live_attach.1 liveN)).resolve_left old
  exact fitsAt_alloc_of_ne (sound.fits n before) old

end Parenthetical

/-! ## Relabelling and exchanging -/

theorem setLabel_cases (s : Store) (n : NodeId) (label : String) :
    (∃ e, s.setLabel n label = (.error e, s)) ∨
    (∃ content, (s.content n).relabel? label = some content ∧
      s.setLabel n label = (.ok (), s.setContent n content)) := by
  unfold setLabel
  cases relabelled : (s.content n).relabel? label with
  | none => exact .inl ⟨_, rfl⟩
  | some content => exact .inr ⟨content, rfl, rfl⟩

theorem Sound.setLabel (sound : s.Sound) (live : s.Live n) (label : String) :
    (s.setLabel n label).2.Sound := by
  rcases s.setLabel_cases n label with ⟨e, refused⟩ | ⟨content, relabelled, made⟩
  · rw [refused]
    exact sound
  · rw [made]
    refine ⟨sound.forest.setContent content, ?_⟩
    intro m liveM
    have fits := sound.fits m (live_setContent content |>.1 liveM)
    by_cases here : m = n
    · subst here
      show ((s.setContent m content).content m).Fits ((s.setContent m content).children m).length
      rw [content_setContent _ live, if_pos rfl, children_setContent]
      exact Content.fits_of_relabel? relabelled fits
    · refine fits.congr ?_ (by rw [children_setContent])
      rw [content_setContent _ live, if_neg here]

theorem live_setLabel (label : String) : (s.setLabel n label).2.Live m ↔ s.Live m := by
  rcases s.setLabel_cases n label with ⟨e, refused⟩ | ⟨content, -, made⟩
  · rw [refused]
  · rw [made]
    exact live_setContent content

theorem swap_cases (s : Store) (a b : NodeId) :
    (∃ e, s.swap a b = (.error e, s)) ∨
    (∃ p i j, s.parent? a = some p ∧ s.parent? b = some p ∧
      (s.children p).idxOf? a = some i ∧ (s.children p).idxOf? b = some j ∧
      s.swap a b = (.ok (i, j), s.setChildren p (((s.children p).set i b).set j a))) := by
  unfold swap
  cases parentA : s.parent? a with
  | none => exact .inl ⟨_, rfl⟩
  | some p =>
      cases parentB : s.parent? b with
      | none => exact .inl ⟨_, rfl⟩
      | some q =>
          by_cases shared : p = q
          · subst shared
            cases first : (s.children p).idxOf? a with
            | none => exact .inl ⟨.notSiblings, by simp [first]⟩
            | some i =>
                cases second : (s.children p).idxOf? b with
                | none => exact .inl ⟨.notSiblings, by simp [first, second]⟩
                | some j => exact .inr ⟨p, i, j, rfl, rfl, first, second, by simp [first, second]⟩
          · exact .inl ⟨.notSiblings, by simp [shared]⟩

theorem exists_getElem_of_idxOf? {ns : List NodeId} {a : NodeId} {i : Nat}
    (found : ns.idxOf? a = some i) : ∃ inside : i < ns.length, ns[i] = a := by
  obtain ⟨inside, here, -⟩ := List.findIdx?_eq_some_iff_getElem.1 found
  exact ⟨inside, eq_of_beq here⟩

/-- Exchanging two members of a list is a rearrangement of it. -/
theorem set_set_perm_of_idxOf? {ns : List NodeId} {a b : NodeId} {i j : Nat}
    (first : ns.idxOf? a = some i) (second : ns.idxOf? b = some j) :
    ((ns.set i b).set j a).Perm ns := by
  obtain ⟨insideA, rfl⟩ := exists_getElem_of_idxOf? first
  obtain ⟨insideB, rfl⟩ := exists_getElem_of_idxOf? second
  exact List.set_set_perm insideA insideB

theorem Sound.swap (sound : s.Sound) (a b : NodeId) : (s.swap a b).2.Sound := by
  rcases s.swap_cases a b with ⟨e, refused⟩ | ⟨p, i, j, parentA, -, first, second, made⟩
  · rw [refused]
    exact sound
  · rw [made]
    have live : s.Live p := (parent?_eq_some_iff.1 parentA).2
    have permuted := set_set_perm_of_idxOf? first second
    refine ⟨sound.forest.setChildren permuted live, ?_⟩
    intro n liveN
    refine (sound.fits n ((live_setChildren _).1 liveN)).congr (content_setChildren _) ?_
    rw [children_setChildren _ live]
    by_cases here : n = p
    · rw [if_pos here, here, permuted.length_eq]
    · rw [if_neg here]

theorem live_swap (a b : NodeId) : (s.swap a b).2.Live n ↔ s.Live n := by
  rcases s.swap_cases a b with ⟨e, refused⟩ | ⟨p, i, j, -, -, -, -, made⟩
  · rw [refused]
  · rw [made]
    exact live_setChildren _

/-! ## Flattening and planting -/

theorem Sound.regrouped (sound : s.Sound) (regrouped : Regrouped s s') : s'.Sound where
  forest := regrouped.forest
  fits n live := by
    cases op? : s.operator? n with
    | none =>
        refine (sound.fits n ((regrouped.live_iff n).1 live)).congr (regrouped.content_eq n) ?_
        rw [regrouped.children_eq n op?]
    | some op =>
        show (s'.content n).Fits (s'.children n).length
        rw [regrouped.content_eq]
        exact Content.fits_of_operator? op? _

theorem Sound.flatten (sound : s.Sound) (n : NodeId) : (s.flatten n).2.Sound :=
  sound.regrouped (regrouped_flatten sound.forest n)

/-- A node makes up a shaped expression just when the nodes below it fit. -/
theorem shaped_expr_iff (forest : s.IsForest) :
    (s.expr n).Shaped ↔ ∀ m, ReflTransGen s.Lists n m → s.FitsAt m := by
  simp only [Expr.Shaped, forest.all_expr_iff, List.length_map, FitsAt]

/-- A node makes up a filled expression just when the operators below it have children. -/
theorem filled_expr_iff (forest : s.IsForest) :
    (s.expr n).Filled ↔ ∀ m, ReflTransGen s.Lists n m → ∀ op, s.content m = .operator op →
      s.children m ≠ [] := by
  simp only [Expr.Filled, forest.all_expr_iff, ne_eq, List.map_eq_nil_iff]

/-- The nodes of a sound store make up shaped expressions. -/
theorem Sound.shaped_expr (sound : s.Sound) (live : s.Live n) : (s.expr n).Shaped :=
  (shaped_expr_iff sound.forest).2 fun m below =>
    sound.fits m (sound.forest.live_of_below live below)

theorem Sound.planted (sound : s.Sound) {e : Expr} (shaped : e.Shaped)
    (planted : Planted s e n s') : s'.Sound where
  forest := planted.forest
  fits m live := by
    by_cases old : m < s.slots.size
    · have same := planted.old m old
      refine (sound.fits m ((live_of_node?_eq same).1 live)).congr (content_of_node?_eq same) ?_
      rw [children_of_node?_eq same]
    · exact (shaped_expr_iff planted.forest).1 (planted.expr_eq ▸ shaped) m
        (planted.below m (Nat.not_lt.1 old) live)

end OperatorTree.Store
