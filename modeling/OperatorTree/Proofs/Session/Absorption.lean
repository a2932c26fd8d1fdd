/-
# OperatorTree.Proofs.Session.Absorption -- a flattening absorbs those before it

Flattening a tree after parts of it were flattened leads to the same nodes as
flattening it at once (`Store.flatten_flattenWithin`).  In a session there is one
more thing to see: after each command the nodes go that nothing holds, so the later
commands start from a smaller store.  But what they start from is the settled form
of the store that would be there without that, and flattening a settled session and
settling it is flattening and settling once at the end (`Sound.run_flatten_settle`).

Where two commands act on trees that have no node in common, each expression is
flattened by itself.  That is why a deep copy, flattened, is equal to a deep copy of
the flattened tree, and to what its text reads as.
-/
import OperatorTree.Proofs.Session.Accounting
import OperatorTree.Proofs.Session.Flattening
import OperatorTree.Proofs.Session.Isolation
import OperatorTree.Proofs.Session.Parsing
import OperatorTree.Proofs.Store.Confluence

namespace OperatorTree.Session

set_option autoImplicit false

open Relation Store

variable {s : Session} {m n t : NodeId} {name : String}

/-! ## Flattening a settled session -/

/-- The session when a tree has been flattened and nothing has been removed yet. -/
def withFlattened (s : Session) (n : NodeId) : Session :=
  { s with store := (s.store.flatten n).2 }

theorem Sound.withFlattened (sound : s.Sound) (n : NodeId) : (s.withFlattened n).Sound :=
  sound.withStore (sound.store.flatten n) fun m live =>
    ((regrouped_flatten sound.store.forest n).live_iff m).2 live

/-- Flattening opens no way down that was not there. -/
theorem Sound.reaches_of_withFlattened (sound : s.Sound)
    (reached : (s.withFlattened n).Reaches m) : s.Reaches m := by
  obtain ⟨entry, member, way⟩ := reached
  have forest := sound.store.forest
  exact ⟨entry, member, (mergeRun_flatten_below forest n).below_of_below forest way⟩

theorem Sound.node?_flatten_settle (sound : s.Sound) (named : s.Reaches n) (reached : s.Reaches m) :
    (s.settle.store.flatten n).2.node? m = (s.store.flatten n).2.node? m := by
  have forest := sound.store.forest
  have forest' := sound.soundHeld.settle.store.forest
  have same : ∀ k, ReflTransGen s.store.Lists n k →
      s.settle.store.node? k = s.store.node? k := fun k below =>
    sound.soundHeld.node?_settle (named.below below)
  have trees := sound.soundHeld.tree_settle named
  by_cases below : ReflTransGen s.store.Lists n m
  · refine (mergeRun_flatten_below forest n).node?_eq_of_tree_eq forest
      (mergeRun_flatten_below forest' n) forest' same ?_ below
    rw [(flattened_flatten forest' n).tree_eq, (flattened_flatten forest n).tree_eq, trees]
    refine Tree.flatten_congr fun k member => ?_
    have kept := same k (forest.mem_preorder_tree.1 member)
    rw [operator?, operator?, content_of_node?_eq kept]
  · have below' : ¬ ReflTransGen s.settle.store.Lists n m := by
      rwa [← forest'.mem_preorder_tree, trees, forest.mem_preorder_tree]
    rw [node?_flatten forest' below', node?_flatten forest below,
      sound.soundHeld.node?_settle reached]

/-- **Removing what nothing holds does not get in the way of flattening.** -/
theorem Sound.run_flatten_settle (sound : s.Sound) (named : s.node? name = some n) :
    (s.settle.run (.change (.flatten name))).session = (s.withFlattened n).settle := by
  show (s.settle.perform (.flatten name)).session.settle = _
  rw [session_perform_flatten ((node?_settle s name).trans named)]
  have settled := sound.soundHeld.settle
  refine (sound.withFlattened n).soundHeld.settle_congr (settled.withFlattened n).soundHeld
    (registers_settle s) ?_ fun m reached => ?_
  · show (s.settle.store.flatten n).2.slots.size = (s.store.flatten n).2.slots.size
    rw [(regrouped_flatten settled.store.forest n).size_eq,
      (regrouped_flatten sound.store.forest n).size_eq, size_settle]
  · exact sound.node?_flatten_settle (reaches_of_node? named)
      (sound.reaches_of_withFlattened reached)

/-! ## Flattening parts before the whole -/

/-- Flattens the node that a register names, if it is in the tree of `t` when its turn comes. -/
def flattenIfWithin (t : NodeId) (s : Session) (name : String) : Session :=
  match s.node? name with
  | none => s
  | some n =>
    if n ∈ (s.store.tree t).preorder then (s.run (.change (.flatten name))).session else s

/-- Such commands lead to what is left, at the end, of the nodes flattened one by one. -/
theorem Sound.foldl_flattenIfWithin (sound : s.Sound) (top : s.node? name = some t)
    (names : List String) : ∃ ns, names.foldl (flattenIfWithin t) s.settle =
      ({ s with store := flattenWithin t ns s.store } : Session).settle := by
  induction names generalizing s with
  | nil => exact ⟨[], rfl⟩
  | cons first names ih =>
      have tree := sound.soundHeld.tree_settle (reaches_of_node? top)
      rw [List.foldl_cons, flattenIfWithin, node?_settle, tree]
      cases named : s.node? first with
      | none => exact ih sound top
      | some n =>
          by_cases within : n ∈ (s.store.tree t).preorder
          · obtain ⟨ns, same⟩ := ih (sound.withFlattened n) top
            refine ⟨n :: ns, ?_⟩
            simp only [if_pos within, sound.run_flatten_settle named, flattenWithin]
            exact same
          · simpa only [if_neg within] using ih sound top

/-- **A command that flattens a tree absorbs those that flattened parts of it.** -/
theorem Reachable.run_flatten_foldl (reachable : s.Reachable) (named : s.node? name = some t)
    (names : List String) :
    ((names.foldl (flattenIfWithin t) s).run (.change (.flatten name))).session =
      (s.run (.change (.flatten name))).session := by
  have sound := reachable.sound
  have forest := sound.store.forest
  have settled : s.settle = s := settle_of_loose_eq_nil reachable.loose_eq_nil
  obtain ⟨ns, same⟩ := sound.foldl_flattenIfWithin named names
  have run := mergeRun_flattenWithin forest t ns
  have regrouped := run.regrouped forest
  have partly : ({ s with store := flattenWithin t ns s.store } : Session).Sound :=
    sound.withStore (sound.store.regrouped regrouped) fun m live => (regrouped.live_iff m).2 live
  have once := sound.run_flatten_settle named
  rw [settled] at same once
  rw [same, partly.run_flatten_settle named, once]
  simp only [Session.withFlattened, flatten_flattenWithin forest]

/-- The command does nothing to a tree that it has flattened. -/
theorem Reachable.run_flatten_twice (reachable : s.Reachable) (named : s.node? name = some t) :
    let once := (s.run (.change (.flatten name))).session
    once.run (.change (.flatten name)) = ⟨.ok .done, [], once⟩ := by
  intro once
  have reachable' : once.Reachable := reachable.step _
  have forest := reachable'.sound.store.forest
  have named' : once.node? name = some t := node?_run_flatten_self named
  have top : t ∈ (s.store.tree t).preorder :=
    reachable.sound.store.forest.mem_preorder_tree.2 .refl
  have same : (once.run (.change (.flatten name))).session = once := by
    have absorbed := reachable.run_flatten_foldl named [name]
    simpa only [List.foldl_cons, List.foldl_nil, flattenIfWithin, named, if_pos top] using absorbed
  have flat : (once.store.tree t).flatten once.store.operator? = once.store.tree t := by
    have left := reachable'.sound.tree_run_flatten named'
    rw [same] at left
    exact (flattened_flatten forest t).tree_eq.symm.trans left.symm
  have events := events_run_flatten named'
  rw [fst_flatten_eq_nil forest flat] at events
  exact congr (congr (congrArg Outcome.mk (answer_run_flatten named')) events) same

/-! ## Expressions of several registers -/

/-- A register that is no target of a change names what it named. -/
theorem Reachable.node?_run_of_ne (reachable : s.Reachable) {c : Change}
    (other : c.target? ≠ some name) (named : s.node? name = some n) :
    (s.run (.change c)).session.node? name = some n := by
  refine (reachable.step (.change c)).node?_eq_some_iff.2 ?_
  show (name, n) ∈ (s.perform c).session.settle.registers
  rw [registers_settle, (reassigned_perform s c).mem_iff (by simpa using other)]
  exact mem_registers_of_node? named

/-- A change that edits nothing leaves the nodes below a register as they were. -/
theorem Reachable.node?_run_of_edits_eq_nil (reachable : s.Reachable) {c : Change}
    (none : c.edits = []) (other : c.target? ≠ some name) (named : s.node? name = some n)
    (below : ReflTransGen s.store.Lists n m) :
    (s.run (.change c)).session.store.node? m = s.store.node? m := by
  have sound := reachable.sound
  have forest := sound.store.forest
  have confined := sound.confined_perform forest.owned_new (c := c) (by simp [NamesInside, none])
  have same : ∀ k, ReflTransGen s.store.Lists n k →
      (s.perform c).session.store.node? k = s.store.node? k := by
    intro k below
    have old := lt_size_of_live (forest.live_of_below (sound.live_of_node? named) below)
    exact confined.outside k (Nat.not_le.2 old)
  have set : (s.perform c).session.node? name = some n :=
    (Session.node?_settle _ name).symm.trans (reachable.node?_run_of_ne other named)
  have reached : (s.perform c).session.Reaches m :=
    (reaches_of_node? set).below
      (below_congr (fun k below => children_of_node?_eq (same k below)) below)
  exact ((sound.perform c).node?_settle reached).trans (same m below)

/-- So it leaves their expressions as they were. -/
theorem Reachable.expr_run_of_edits_eq_nil (reachable : s.Reachable) {c : Change}
    (none : c.edits = []) (other : c.target? ≠ some name) (named : s.node? name = some n)
    (below : ReflTransGen s.store.Lists n m) :
    (s.run (.change c)).session.store.expr m = s.store.expr m := by
  refine expr_congr reachable.sound.store.forest (reachable.step _).sound.store.forest
    fun k belowK => ?_
  have same := reachable.node?_run_of_edits_eq_nil none other named (below.trans belowK)
  exact ⟨children_of_node?_eq same, content_of_node?_eq same⟩

theorem Sound.exists_node?_deepCopy (sound : s.Sound) (named : s.node? name = some n)
    (dst : String) : ∃ m, (s.run (.change (.deepCopy dst name))).session.node? dst = some m ∧
      (s.run (.change (.deepCopy dst name))).session.store.expr m = s.store.expr n := by
  have after : (s.perform (.deepCopy dst name)).session =
      { s with store := (s.store.deepCopy n).2 }.assign dst (s.store.deepCopy n).1 := by
    simp only [Session.perform, Session.withNode, named]
    rfl
  have set : (s.perform (.deepCopy dst name)).session.node? dst =
      some (s.store.deepCopy n).1 := by
    rw [after, node?_assign]
  obtain ⟨set, expr⟩ := sound.named_run set
  refine ⟨_, set, expr.trans ?_⟩
  rw [after]
  exact (planted_deepCopy sound.store.forest n).expr_eq

theorem Sound.answer_run_equal (sound : s.Sound) {other : String} (named : s.node? name = some m)
    (named' : s.node? other = some n) (same : s.store.expr m = s.store.expr n) :
    (s.run (.question (.equal name other))).answer = .ok (.truth true) := by
  rw [Session.answer_run_equal named named', (sound.store.forest.equal_iff m n).2 same]

/-- A text that is read without merging, copied and then flattened is what the text reads as. -/
theorem Reachable.equal_flattened_copy (reachable : s.Reachable) {text : String} {e : Expr}
    (parsed : Grammar.parse {} text = .ok e) (raw : String) {copy whole : String}
    (differ : copy ≠ whole) :
    let s₁ := (s.run (.change (.parse raw { flatten := false } text))).session
    let s₂ := (s₁.run (.change (.deepCopy copy raw))).session
    let s₃ := (s₂.run (.change (.flatten copy))).session
    let s₄ := (s₃.run (.change (.parse whole {} text))).session
    (s₄.run (.question (.equal copy whole))).answer = .ok (.truth true) := by
  intro s₁ s₂ s₃ s₄
  obtain ⟨tree, found, flat⟩ := Grammar.parse_eq_ok_iff.1 parsed
  have unmerged : Grammar.parse { flatten := false } text = .ok tree :=
    Grammar.parse_eq_ok_iff.2 ⟨tree, found, rfl⟩
  have reachable₁ : s₁.Reachable := reachable.step _
  have reachable₂ : s₂.Reachable := reachable₁.step _
  have reachable₃ : s₃.Reachable := reachable₂.step _
  have reachable₄ : s₄.Reachable := reachable₃.step _
  obtain ⟨n, named₁, expr₁⟩ := reachable.sound.exists_node?_parse unmerged raw
  obtain ⟨m, named₂, expr₂⟩ := reachable₁.sound.exists_node?_deepCopy named₁ copy
  have named₃ : s₃.node? copy = some m := node?_run_flatten_self named₂
  have expr₃ := reachable₂.sound.expr_run_flatten named₂
  have other : (Change.parse whole {} text).target? ≠ some copy := by
    simpa [Change.target?] using differ.symm
  have named₄ := reachable₃.node?_run_of_ne other named₃
  have expr₄ := reachable₃.expr_run_of_edits_eq_nil rfl other named₃ .refl
  obtain ⟨k, named, expr⟩ := reachable₃.sound.exists_node?_parse parsed whole
  refine reachable₄.sound.answer_run_equal named₄ named ?_
  rw [expr₄, expr₃, expr₂, expr₁, expr, flat]
  rfl

/-! ## The main result -/

/-- **A flattening absorbs earlier flattening.**  Whatever nodes of the tree of `t` were
flattened before, one after the other as long as they were in the tree, flattening `t`
leads to the same nodes as doing it at once; and so it is with commands, which remove
after each step what nothing holds.  A second flattening merges nothing and changes
nothing.  Trees that are equal in structure are so when both have been flattened.  The
copy of a tree, flattened, is equal in structure to a copy of the flattened tree; and
so is the copy of what a text reads as without merging to what it reads as. -/
theorem Reachable.flatten_absorbs (reachable : s.Reachable) (t : NodeId) :
    let after := (s.store.flatten t).2
    (∀ ns, ((flattenWithin t ns s.store).flatten t).2 = after) ∧
    (∀ name, s.node? name = some t →
      let once := (s.run (.change (.flatten name))).session
      (∀ names : List String,
        ((names.foldl (flattenIfWithin t) s).run (.change (.flatten name))).session = once) ∧
      once.run (.change (.flatten name)) = ⟨.ok .done, [], once⟩) ∧
    after.flatten t = ([], after) ∧
    (∀ u, s.store.equal t u = true → (after.flatten u).2.equal t u = true) ∧
    (s.store.Live t →
      let copied := (s.store.deepCopy t).2
      let both := ((copied.flatten (s.store.deepCopy t).1).2.flatten t).2
      (both.deepCopy t).2.equal (s.store.deepCopy t).1 (both.deepCopy t).1 = true) ∧
    ∀ text e, Grammar.parse {} text = .ok e → ∀ raw copy whole, copy ≠ whole →
      let s₁ := (s.run (.change (.parse raw { flatten := false } text))).session
      let s₂ := (s₁.run (.change (.deepCopy copy raw))).session
      let s₃ := (s₂.run (.change (.flatten copy))).session
      let s₄ := (s₃.run (.change (.parse whole {} text))).session
      (s₄.run (.question (.equal copy whole))).answer = .ok (.truth true) := by
  intro after
  have forest := reachable.sound.store.forest
  refine ⟨flatten_flattenWithin forest t, fun name named => ⟨reachable.run_flatten_foldl named,
    reachable.run_flatten_twice named⟩, ?twice, fun u equal => forest.equal_flatten_both equal,
    forest.equal_flatten_deepCopy, fun text e parsed raw copy whole differ =>
      reachable.equal_flattened_copy parsed raw differ⟩
  case twice =>
    have flattened := flattened_flatten forest t
    have forest' := flattened.regrouped.forest
    have same : (after.flatten t).2 = after := flatten_flatten forest t
    have flat : (after.tree t).flatten after.operator? = after.tree t := by
      rw [← (flattened_flatten forest' t).tree_eq, same]
    exact Prod.ext (fst_flatten_eq_nil forest' flat) same

/-- The sum `a + (b + (c + d))` without any parentheses, with registers on the inner sums
and with a twin. -/
theorem flatten_absorbs_inner_sums :
    let s := ((((((((empty.perform (.literal "a" "a")).session.perform
      (.literal "b" "b")).session.perform (.literal "c" "c")).session.perform
      (.literal "d" "d")).session.perform (.operator "cd" .add "c" "d")).session.perform
      (.operator "bcd" .add "b" "cd")).session.perform
      (.operator "sum" .add "a" "bcd")).session.perform (.deepCopy "twin" "sum")).session
    let flat := (s.store.flatten 6).2
    let outer := (s.run (.change (.flatten "bcd"))).session
    let read := (s.run (.change (.parse "raw" { flatten := false } "a + b + c"))).session
    let copied := (read.run (.change (.deepCopy "copy" "raw"))).session
    let flattened := (copied.run (.change (.flatten "copy"))).session
    let both := (flattened.run (.change (.parse "whole" {} "a + b + c"))).session
    s.Reachable ∧ flat.children 6 = [0, 1, 2, 3] ∧
      ((s.store.flatten 4).2.flatten 5).2.children 5 = [1, 2, 3] ∧
      ((flattenWithin 6 [4, 5] s.store).flatten 6).2 = flat ∧
      (outer.run (.change (.flatten "sum"))).session =
        (s.run (.change (.flatten "sum"))).session ∧
      flat.flatten 6 = ([], flat) ∧ s.store.equal 6 7 = true ∧
      (flat.flatten 7).2.equal 6 7 = true ∧
      (both.run (.question (.equal "copy" "whole"))).answer = .ok (.truth true) := by
  intro s flat outer read copied flattened both
  have reachable : s.Reachable :=
    (((((((Reachable.empty.perform _ (by decide)).perform _ (by decide)).perform _
      (by decide)).perform _ (by decide)).perform _ (by decide)).perform _
      (by decide)).perform _ (by decide)).perform _ (by decide)
  let letter (x : Char) (allowed : Allowed x) : Grammar.Factor :=
    .literal [x] (isLiteral_singleton.2 allowed)
  let l : Grammar.Level := .cons (letter 'a' (by decide)) .add <|
    .cons (letter 'b' (by decide)) .add <| .single (letter 'c' (by decide))
  have parsed : Grammar.parse {} "a + b + c" = .ok (Expr.flatten (l.tree .additive)) :=
    Grammar.parse_of_spelling_eq l (by decide)
  have equal : s.store.equal 6 7 = true := by decide
  obtain ⟨before, command, twice, twins, -, texts⟩ := reachable.flatten_absorbs 6
  obtain ⟨absorbed, -⟩ := command "sum" (by decide)
  have first : flattenIfWithin 6 s "bcd" = outer := by
    have named : s.node? "bcd" = some 5 := by decide
    have within : 5 ∈ (s.store.tree 6).preorder := by decide
    simp only [flattenIfWithin, named, if_pos within, outer]
  have same := absorbed ["bcd"]
  rw [List.foldl_cons, List.foldl_nil, first] at same
  exact ⟨reachable, by decide, by decide, before [4, 5], same, twice, equal,
    twins 7 equal, texts _ _ parsed "raw" "copy" "whole" (by decide)⟩

end OperatorTree.Session
