/-
# OperatorTree.Proofs.Store.View -- what each change does to each field of a node

A store is read field by field: whether a node is live, its content, its
children, and the link to its parent as it is stored (`link?`, of which
`parent?` is the live part).  A change rewrites one field of some nodes and
leaves the other fields and the other nodes alone; here is one lemma for each
change and field.
-/
import OperatorTree.Store.Navigation

namespace OperatorTree.Store

set_option autoImplicit false

/-- The link of a node to its parent as it is stored.  The node it names may be gone. -/
def link? (s : Store) (n : NodeId) : Option NodeId :=
  (s.node? n).bind (·.parent)

variable {s : Store} {m n p : NodeId}

/-! ## Reading -/

theorem live_iff_exists : s.Live n ↔ ∃ node, s.node? n = some node :=
  Option.isSome_iff_exists

theorem parent?_eq_some_iff : s.parent? n = some p ↔ s.link? n = some p ∧ s.Live p := by
  unfold parent? link?
  cases s.node? n with
  | none => simp
  | some node => simp [Option.filter_eq_some_iff]

theorem live_of_link? (linked : s.link? n = some p) : s.Live n := by
  obtain ⟨node, found, -⟩ := Option.bind_eq_some_iff.1 linked
  exact live_iff_exists.2 ⟨node, found⟩

theorem live_of_parent? (above : s.parent? n = some p) : s.Live n :=
  live_of_link? (parent?_eq_some_iff.1 above).1

theorem live_of_mem_children (member : n ∈ s.children p) : s.Live p := by
  unfold children at member
  split at member
  · exact live_iff_exists.2 ⟨_, ‹_›⟩
  · simp at member

theorem children_of_not_live (gone : ¬ s.Live n) : s.children n = [] := by
  apply List.eq_nil_iff_forall_not_mem.2
  exact fun c member => gone (live_of_mem_children member)

theorem operator?_eq_some_iff {op : Operator} :
    s.operator? n = some op ↔ s.content n = .operator op :=
  Content.operator?_eq_some_iff

/-! ## Nodes that are the same in two stores -/

section Same

variable {s' : Store}

theorem live_of_node?_eq (same : s'.node? n = s.node? n) : s'.Live n ↔ s.Live n := by
  unfold Live
  rw [same]

theorem content_of_node?_eq (same : s'.node? n = s.node? n) : s'.content n = s.content n := by
  unfold content
  rw [same]

theorem children_of_node?_eq (same : s'.node? n = s.node? n) : s'.children n = s.children n := by
  unfold children
  rw [same]

theorem link?_of_node?_eq (same : s'.node? n = s.node? n) : s'.link? n = s.link? n := by
  unfold link?
  rw [same]

/-- A node is its fields. -/
theorem node?_ext (live : s'.Live n ↔ s.Live n) (content : s'.content n = s.content n)
    (children : s'.children n = s.children n) (link : s'.link? n = s.link? n) :
    s'.node? n = s.node? n := by
  simp only [Live, Store.content, Store.children, link?] at live content children link
  cases after : s'.node? n with
  | none =>
      cases before : s.node? n with
      | none => rfl
      | some node => simp [after, before] at live
  | some node' =>
      cases before : s.node? n with
      | none => simp [after, before] at live
      | some node =>
          simp only [after, before, Option.bind_some] at content children link
          cases node
          cases node'
          simp_all

/-- A store is its nodes, and the numbers that were handed out. -/
theorem ext_node? (size : s'.slots.size = s.slots.size) (nodes : ∀ n, s'.node? n = s.node? n) :
    s' = s := by
  obtain ⟨slots'⟩ := s'
  obtain ⟨slots⟩ := s
  congr 1
  refine Array.ext size fun n inside' inside => ?_
  have same := nodes n
  simpa [node?, inside, inside'] using same

theorem parent?_congr (same : ∀ m, s'.node? m = s.node? m) : s'.parent? n = s.parent? n := by
  ext p
  rw [parent?_eq_some_iff, parent?_eq_some_iff, link?_of_node?_eq (same n),
    live_of_node?_eq (same p)]

end Same

/-! ## A new node -/

theorem alloc_fst (s : Store) (content : Content) : (s.alloc content).1 = s.slots.size := rfl

@[simp] theorem size_alloc (s : Store) (content : Content) :
    (s.alloc content).2.slots.size = s.slots.size + 1 := by
  simp [alloc]

theorem live_alloc (content : Content) :
    (s.alloc content).2.Live n ↔ n = s.slots.size ∨ s.Live n := by
  unfold Live
  rw [node?_alloc, alloc_fst]
  split <;> simp [*]

theorem node?_size (s : Store) : s.node? s.slots.size = none :=
  node?_eq_none_of_size_le (Nat.le_refl _)

theorem not_live_size (s : Store) : ¬ s.Live s.slots.size := by
  simp [Live, node?_size]

theorem content_alloc (content : Content) :
    (s.alloc content).2.content n = if n = s.slots.size then content else s.content n := by
  unfold Store.content
  rw [node?_alloc, alloc_fst]
  by_cases new : n = s.slots.size <;> simp [new]

@[simp] theorem children_alloc (content : Content) :
    (s.alloc content).2.children n = s.children n := by
  unfold children
  rw [node?_alloc, alloc_fst]
  by_cases new : n = s.slots.size
  · simp [new, node?_size]
  · simp [new]

@[simp] theorem link?_alloc (content : Content) : (s.alloc content).2.link? n = s.link? n := by
  unfold link?
  rw [node?_alloc, alloc_fst]
  by_cases new : n = s.slots.size
  · simp [new, node?_size]
  · simp [new]

section New

variable {content : Content}

theorem live_alloc_new : (s.alloc content).2.Live s.slots.size :=
  (live_alloc content).2 (.inl rfl)

theorem content_alloc_new : (s.alloc content).2.content s.slots.size = content := by
  rw [content_alloc, if_pos rfl]

theorem children_alloc_new : (s.alloc content).2.children s.slots.size = [] := by
  rw [children_alloc, children_of_not_live (not_live_size s)]

theorem link?_alloc_new : (s.alloc content).2.link? s.slots.size = none := by
  rw [link?_alloc, link?, node?_size]
  rfl

end New

/-! ## One field rewritten -/

@[simp] theorem size_modify (f : Node → Node) : (s.modify m f).slots.size = s.slots.size := by
  simp [modify]

section Content

variable (content : Content)

@[simp] theorem size_setContent : (s.setContent m content).slots.size = s.slots.size :=
  size_modify _

@[simp] theorem live_setContent : (s.setContent m content).Live n ↔ s.Live n :=
  live_modify ..

@[simp] theorem children_setContent : (s.setContent m content).children n = s.children n := by
  unfold children setContent
  rw [node?_modify]
  by_cases same : m = n <;> cases s.node? n <;> simp [same]

@[simp] theorem link?_setContent : (s.setContent m content).link? n = s.link? n := by
  unfold link? setContent
  rw [node?_modify]
  by_cases same : m = n <;> cases s.node? n <;> simp [same]

theorem content_setContent (live : s.Live m) :
    (s.setContent m content).content n = if n = m then content else s.content n := by
  obtain ⟨node, found⟩ := live_iff_exists.1 live
  unfold Store.content setContent
  rw [node?_modify]
  by_cases same : n = m
  · subst same
    simp [found]
  · simp [same, Ne.symm same]

end Content

section Children

variable (children : List NodeId)

@[simp] theorem size_setChildren : (s.setChildren m children).slots.size = s.slots.size :=
  size_modify _

@[simp] theorem live_setChildren : (s.setChildren m children).Live n ↔ s.Live n :=
  live_modify ..

@[simp] theorem content_setChildren : (s.setChildren m children).content n = s.content n := by
  unfold content setChildren
  rw [node?_modify]
  by_cases same : m = n <;> cases s.node? n <;> simp [same]

@[simp] theorem link?_setChildren : (s.setChildren m children).link? n = s.link? n := by
  unfold link? setChildren
  rw [node?_modify]
  by_cases same : m = n <;> cases s.node? n <;> simp [same]

theorem children_setChildren (live : s.Live m) :
    (s.setChildren m children).children n = if n = m then children else s.children n := by
  obtain ⟨node, found⟩ := live_iff_exists.1 live
  unfold Store.children setChildren
  rw [node?_modify]
  by_cases same : n = m
  · subst same
    simp [found]
  · simp [same, Ne.symm same]

end Children

section Parent

variable (parent : Option NodeId)

@[simp] theorem size_setParent : (s.setParent m parent).slots.size = s.slots.size :=
  size_modify _

@[simp] theorem live_setParent : (s.setParent m parent).Live n ↔ s.Live n :=
  live_modify ..

@[simp] theorem content_setParent : (s.setParent m parent).content n = s.content n := by
  unfold content setParent
  rw [node?_modify]
  by_cases same : m = n <;> cases s.node? n <;> simp [same]

@[simp] theorem children_setParent : (s.setParent m parent).children n = s.children n := by
  unfold children setParent
  rw [node?_modify]
  by_cases same : m = n <;> cases s.node? n <;> simp [same]

theorem link?_setParent (live : s.Live m) :
    (s.setParent m parent).link? n = if n = m then parent else s.link? n := by
  obtain ⟨node, found⟩ := live_iff_exists.1 live
  unfold link? setParent
  rw [node?_modify]
  by_cases same : n = m
  · subst same
    simp [found]
  · simp [same, Ne.symm same]

end Parent

/-! ## The links of several nodes -/

section Parents

variable (parent : Option NodeId)

@[simp] theorem setParents_nil : s.setParents [] parent = s := rfl

@[simp] theorem setParents_cons (m : NodeId) (ms : List NodeId) :
    s.setParents (m :: ms) parent = (s.setParent m parent).setParents ms parent := rfl

@[simp] theorem size_setParents (ms : List NodeId) :
    (s.setParents ms parent).slots.size = s.slots.size := by
  induction ms generalizing s with
  | nil => rfl
  | cons m ms ih => simp [ih]

@[simp] theorem live_setParents (ms : List NodeId) :
    (s.setParents ms parent).Live n ↔ s.Live n := by
  induction ms generalizing s with
  | nil => rfl
  | cons m ms ih => simp [ih]

@[simp] theorem content_setParents (ms : List NodeId) :
    (s.setParents ms parent).content n = s.content n := by
  induction ms generalizing s with
  | nil => rfl
  | cons m ms ih => simp [ih]

@[simp] theorem children_setParents (ms : List NodeId) :
    (s.setParents ms parent).children n = s.children n := by
  induction ms generalizing s with
  | nil => rfl
  | cons m ms ih => simp [ih]

theorem link?_setParents {ms : List NodeId} (live : ∀ m ∈ ms, s.Live m) :
    (s.setParents ms parent).link? n = if n ∈ ms then parent else s.link? n := by
  induction ms generalizing s with
  | nil => simp
  | cons m ms ih =>
      have tail : ∀ k ∈ ms, (s.setParent m parent).Live k := fun k member => by
        simpa using live k (List.mem_cons_of_mem m member)
      rw [setParents_cons, ih tail, link?_setParent parent (live m List.mem_cons_self)]
      by_cases later : n ∈ ms <;> by_cases same : n = m <;> simp [later, same]

end Parents

/-! ## Nodes left alone -/

theorem node?_setChildren_of_ne (children : List NodeId) (other : n ≠ m) :
    (s.setChildren m children).node? n = s.node? n := by
  rw [setChildren, node?_modify, if_neg (Ne.symm other)]

/-- Putting back the children that a node has changes nothing. -/
theorem node?_setChildren_self : (s.setChildren m (s.children m)).node? n = s.node? n := by
  by_cases same : n = m
  · subst same
    rw [setChildren, node?_modify, if_pos rfl, children]
    cases s.node? n <;> rfl
  · exact node?_setChildren_of_ne _ same

theorem node?_setContent_of_ne (content : Content) (other : n ≠ m) :
    (s.setContent m content).node? n = s.node? n := by
  rw [setContent, node?_modify, if_neg (Ne.symm other)]

theorem node?_setParents_of_not_mem (parent : Option NodeId) {ms : List NodeId} (other : n ∉ ms) :
    (s.setParents ms parent).node? n = s.node? n := by
  induction ms generalizing s with
  | nil => rfl
  | cons m ms ih =>
      rw [List.mem_cons, not_or] at other
      rw [setParents_cons, ih other.2, setParent, node?_modify, if_neg (Ne.symm other.1)]

/-! ## Nodes removed -/

theorem node?_foldl_erase (s : Store) (ns : List NodeId) (n : NodeId) :
    (ns.foldl .erase s).node? n = if n ∈ ns then none else s.node? n := by
  induction ns generalizing s with
  | nil => simp
  | cons m ns ih =>
      rw [List.foldl_cons, ih, node?_erase]
      by_cases same : m = n
      · simp [same]
      · simp [same, Ne.symm same]

section Erase

variable {ns : List NodeId}

theorem node?_foldl_erase_of_not_mem (kept : n ∉ ns) : (ns.foldl .erase s).node? n = s.node? n := by
  rw [node?_foldl_erase, if_neg kept]

theorem children_foldl_erase :
    (ns.foldl .erase s).children n = if n ∈ ns then [] else s.children n := by
  unfold children
  rw [node?_foldl_erase]
  by_cases gone : n ∈ ns <;> simp [gone]

theorem link?_foldl_erase : (ns.foldl .erase s).link? n = if n ∈ ns then none else s.link? n := by
  unfold link?
  rw [node?_foldl_erase]
  by_cases gone : n ∈ ns <;> simp [gone]

end Erase

end OperatorTree.Store
