/-
# OperatorTree.Proofs.Session.Exchange -- the command that exchanges two siblings

An exchange lets go of nothing: each register and each node names or lists what it did
before.  So the session afterwards is the session before with another store, the one in
which the two siblings are exchanged (`Reachable.run_swap`), and what an exchange is in a
store, it is in a session.
-/
import OperatorTree.Proofs.Session.Refusals
import OperatorTree.Proofs.Store.Exchange

namespace OperatorTree.Session

set_option autoImplicit false

variable {s : Session} {a b : NodeId} {name other : String}

/-- Nothing gets loose where the children of nodes are put in another order. -/
theorem settle_withStore {store : Store} (none : s.loose = [])
    (rearranged : Store.Rearranged s.store store) :
    ({ s with store } : Session).settle = { s with store } := by
  apply settle_of_loose_eq_nil
  refine List.eq_nil_iff_forall_not_mem.2 fun n loose => ?_
  obtain ⟨live, free⟩ := mem_loose.1 loose
  refine free (mem_held.2 ?_)
  rcases mem_held.1 (mem_held_of_loose_eq_nil none ((rearranged.live_iff n).1 live)) with
    named | ⟨p, listed⟩
  · exact .inl named
  · exact .inr ⟨p, (rearranged.perm p).mem_iff.2 listed⟩

/-! ## One exchange -/

section Named

variable (namedA : s.node? name = some a) (namedB : s.node? other = some b)

include namedA namedB

theorem Reachable.run_swap (reachable : s.Reachable) :
    (s.run (.change (.swap name other))).session = { s with store := (s.store.swap a b).2 } := by
  have after : (s.perform (.swap name other)).session =
      { s with store := (s.store.swap a b).2 } := by
    simp only [Session.perform, withNode, namedA, namedB]
    exact of_edited (P := (·.session = { s with store := (s.store.swap a b).2 }))
      (fun _ _ => rfl) fun _ _ => rfl
  show (s.perform (.swap name other)).session.settle = _
  rw [after]
  exact settle_withStore reachable.loose_eq_nil (Store.rearranged_swap s.store a b)

theorem events_run_swap {i j : Nat} (made : (s.store.swap a b).1 = .ok (i, j)) :
    (s.run (.change (.swap name other))).events = [.swapped i j] := by
  have edit : s.store.swap a b = (.ok (i, j), (s.store.swap a b).2) := Prod.ext made rfl
  simp only [Session.run, perform, withNode, namedA, namedB]
  rw [edit]
  rfl

end Named

/-! ## Runs of exchanges -/

/-- Carries out the exchanges that are asked for, one after the other. -/
def swapAll (s : Session) (names : List (String × String)) : Session :=
  names.foldl (fun s pair => (s.run (.change (.swap pair.1 pair.2))).session) s

/-- An exchange that is asked for, of registers that may not be set, is one of nodes or none. -/
theorem Reachable.exists_run_swap (reachable : s.Reachable) (name other : String) :
    ∃ pairs, (s.run (.change (.swap name other))).session =
      { s with store := s.store.swapAll pairs } := by
  let Exchanges (outcome : Outcome) : Prop :=
    ∃ pairs, outcome.session = { s with store := s.store.swapAll pairs }
  have performed : Exchanges (s.perform (.swap name other)) :=
    of_withNode ⟨[], rfl⟩ fun a _ => of_withNode ⟨[], rfl⟩ fun b _ =>
      of_edited (fun _ _ => ⟨[(a, b)], rfl⟩) fun _ _ => ⟨[(a, b)], rfl⟩
  obtain ⟨pairs, after⟩ := performed
  refine ⟨pairs, ?_⟩
  show (s.perform (.swap name other)).session.settle = _
  rw [after]
  exact settle_withStore reachable.loose_eq_nil (Store.rearranged_swapAll pairs)

/-- A run of exchanges of registers is a run of exchanges of nodes. -/
theorem Reachable.exists_swapAll (reachable : s.Reachable) (names : List (String × String)) :
    ∃ pairs, s.swapAll names = { s with store := s.store.swapAll pairs } := by
  induction names generalizing s with
  | nil => exact ⟨[], rfl⟩
  | cons pair names ih =>
      obtain ⟨first, here⟩ := reachable.exists_run_swap pair.1 pair.2
      obtain ⟨others, later⟩ := ih (reachable.step (.change (.swap pair.1 pair.2)))
      refine ⟨first ++ others, ?_⟩
      calc s.swapAll (pair :: names)
          = (s.run (.change (.swap pair.1 pair.2))).session.swapAll names := rfl
        _ = { s with store := (s.store.swapAll first).swapAll others } := by rw [later, here]
        _ = { s with store := s.store.swapAll (first ++ others) } := by rw [Store.swapAll_append]

/-! ## The main result -/

/-- **An exchange is a transposition of two entries, and nothing else.**  A node with a parent
has one position in the child list of it.  Siblings at two positions are exchanged, and these
positions reported: the entry at a position afterwards is the entry that was at the transposed
position.  No other node is touched, and the parent keeps its content and its own parent; a
node that does not have the parent in its tree keeps its tree and its expression, so the
children of the parent take their trees with them.  The two nodes may be given in either
order; a second exchange of them restores the store; and a node exchanged with itself leaves
it as it was.  The command does this to the session, and nothing else.

After any run of exchanges, made or refused, of nodes or of registers, each node has the
content and the parent that it had, and the children that it had in some order. -/
theorem Reachable.swap_transposes (reachable : s.Reachable) :
    (∀ p a, s.store.parent? a = some p → ∃! i : Nat, (s.store.children p)[i]? = some a) ∧
    (∀ p i j a b, (s.store.children p)[i]? = some a → (s.store.children p)[j]? = some b →
      let after := (s.store.swap a b).2
      (s.store.swap a b).1 = .ok (i, j) ∧
      (∀ k, (after.children p)[k]? = (s.store.children p)[Equiv.swap i j k]?) ∧
      (∀ n, n ≠ p → after.node? n = s.store.node? n) ∧
      (∀ n, after.content n = s.store.content n ∧ after.parent? n = s.store.parent? n) ∧
      (∀ n, p ∉ (s.store.tree n).preorder →
        after.tree n = s.store.tree n ∧ after.expr n = s.store.expr n) ∧
      after.tree p = .node p ((after.children p).map s.store.tree) ∧
      s.store.swap b a = (.ok (j, i), after) ∧
      after.swap a b = (.ok (j, i), s.store) ∧
      (a = b → after = s.store)) ∧
    (∀ x y p i j a b, s.node? x = some a → s.node? y = some b →
      (s.store.children p)[i]? = some a → (s.store.children p)[j]? = some b →
      let outcome := s.run (.change (.swap x y))
      outcome.answer = .ok .done ∧
      outcome.events = [.swapped i j] ∧
      outcome.session = { s with store := (s.store.swap a b).2 } ∧
      (s.run (.change (.swap y x))).session = outcome.session ∧
      (outcome.session.run (.change (.swap x y))).session = s ∧
      (a = b → outcome.session = s)) ∧
    (∀ pairs n,
      let after := s.store.swapAll pairs
      after.content n = s.store.content n ∧ after.parent? n = s.store.parent? n ∧
        (after.children n).Perm (s.store.children n)) ∧
    ∀ names,
      let after := s.swapAll names
      after.registers = s.registers ∧
      ∀ n, after.store.content n = s.store.content n ∧
        after.store.parent? n = s.store.parent? n ∧
        (after.store.children n).Perm (s.store.children n) := by
  have forest := reachable.sound.store.forest
  have runs : ∀ pairs n, (s.store.swapAll pairs).content n = s.store.content n ∧
      (s.store.swapAll pairs).parent? n = s.store.parent? n ∧
      ((s.store.swapAll pairs).children n).Perm (s.store.children n) := fun pairs n =>
    have rearranged := Store.rearranged_swapAll pairs
    ⟨rearranged.content_eq n, rearranged.parent?_eq n, rearranged.perm n⟩
  refine ⟨fun _ _ above => forest.existsUnique_position above, ?store, ?command, runs, ?named⟩
  case store =>
    intro p i j a b first second after
    have exchanged := forest.exchanged_swap first second
    have rearranged := Store.rearranged_swap s.store a b
    have forest' := rearranged.forest forest
    refine ⟨by rw [forest.swap_eq first second], exchanged.getElem?, exchanged.node?_eq,
      fun n => ⟨rearranged.content_eq n, rearranged.parent?_eq n⟩,
      fun n apart => exchanged.tree_eq forest forest' apart, ?_, forest.swap_comm first second,
      forest.swap_swap first second, ?_⟩
    · rw [forest'.tree_eq]
      congr 1
      refine List.map_congr_left fun c listed => ?_
      have child : c ∈ s.store.children p := (rearranged.perm p).mem_iff.1 listed
      exact (exchanged.tree_eq_of_mem forest forest' child).1
    · rintro rfl
      exact forest.swap_self first
  case command =>
    intro x y p i j a b namedA namedB first second outcome
    have made : (s.store.swap a b).1 = .ok (i, j) := by rw [forest.swap_eq first second]
    have after : outcome.session = { s with store := (s.store.swap a b).2 } :=
      reachable.run_swap namedA namedB
    refine ⟨?_, events_run_swap namedA namedB made, after, ?_, ?_, ?_⟩
    · rw [answer_run_swap namedA namedB, made]
      rfl
    · rw [after, reachable.run_swap namedB namedA, forest.swap_comm first second]
    · have again : outcome.session.Reachable := reachable.step _
      have namedA' : outcome.session.node? x = some a := by rw [after]; exact namedA
      have namedB' : outcome.session.node? y = some b := by rw [after]; exact namedB
      rw [again.run_swap namedA' namedB', after, forest.swap_swap first second]
    · rintro rfl
      rw [after, forest.swap_self first]
  case named =>
    intro names after
    obtain ⟨pairs, same⟩ := reachable.exists_swapAll names
    have whole : after = { s with store := s.store.swapAll pairs } := same
    rw [whole]
    exact ⟨rfl, runs pairs⟩

/-- The sum `a + (b + c) + d`, and its first and last operands. -/
theorem swap_transposes_in_sum :
    let s := (((((((empty.perform (.literal "a" "a")).session.perform
      (.literal "b" "b")).session.perform (.literal "c" "c")).session.perform
      (.operator "inner" .add "b" "c")).session.perform
      (.operator "sum" .add "a" "inner")).session.perform (.literal "d" "d")).session.perform
      (.addChild "sum" "d")).session
    let outcome := s.run (.change (.swap "a" "d"))
    let mixed := s.swapAll [("a", "d"), ("b", "c"), ("a", "b"), ("inner", "a")]
    s.Reachable ∧ s.store.children 4 = [0, 3, 5] ∧
      (∃! i : Nat, (s.store.children 4)[i]? = some 5) ∧ outcome.events = [.swapped 0 2] ∧
      outcome.session.store.children 4 = [5, 3, 0] ∧
      (outcome.session.run (.change (.swap "a" "d"))).session = s ∧
      (mixed.store.children 4).Perm [0, 3, 5] ∧ mixed.store.parent? 3 = some 4 := by
  intro s outcome mixed
  have reachable : s.Reachable :=
    ((((((Reachable.empty.perform _ (by decide)).perform _ (by decide)).perform _
      (by decide)).perform _ (by decide)).perform _ (by decide)).perform _
      (by decide)).perform _ (by decide)
  have before : s.store.children 4 = [0, 3, 5] := by decide
  obtain ⟨position, -, command, -, named⟩ := reachable.swap_transposes
  have hereA : (s.store.children 4)[0]? = some 0 := by rw [before]; rfl
  have hereD : (s.store.children 4)[2]? = some 5 := by rw [before]; rfl
  obtain ⟨-, events, after, -, again, -⟩ :=
    command "a" "d" 4 0 2 0 5 (by decide) (by decide) hereA hereD
  obtain ⟨-, kept⟩ := named [("a", "d"), ("b", "c"), ("a", "b"), ("inner", "a")]
  refine ⟨reachable, before, position 4 5 (by decide), events, ?_, again,
    before ▸ (kept 4).2.2, ?_⟩
  · rw [after]
    decide
  · exact (kept 3).2.1.trans (by decide)

end OperatorTree.Session
