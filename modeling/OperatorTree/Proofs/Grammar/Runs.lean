/-
# OperatorTree.Proofs.Grammar.Runs -- runs of a search on bytes

A search on bytes is run from what has been done so far, and ends with a node, without
one, or with a fault.  `Ends` is about a run by itself: there is no fault, and what comes
of it meets a condition.  `Refines` compares two searches, of which the second may do
without some fault of the first.  Both have a rule for each way to put searches together.
-/
import OperatorTree.Grammar.Ranges

namespace OperatorTree.Grammar

set_option autoImplicit false

variable {α β : Type} {m m' k k' : Ranged α} {f f' : α → Ranged β} {w w' : Work} {a : α}

/-! ## Runs of steps -/

theorem Ranged.run_bind (m : Ranged α) (f : α → Ranged β) (w : Work) :
    (m >>= f).run.run w =
      match m.run.run w with
      | .error e => .error e
      | .ok (none, w') => .ok (none, w')
      | .ok (some a, w') => (f a).run.run w' := by
  simp only [OptionT.run_bind, Option.elimM, StateT.run_bind]
  rcases m.run.run w with e | ⟨_ | a, w'⟩
  · rfl
  · rfl
  · rfl

theorem Ranged.run_orElse (m m' : Ranged α) (w : Work) :
    (m <|> m').run.run w =
      match m.run.run w with
      | .error e => .error e
      | .ok (none, w') => m'.run.run w'
      | .ok (some a, w') => .ok (some a, w') := by
  simp only [OptionT.run_orElse, Option.elimM, StateT.run_bind]
  rcases m.run.run w with e | ⟨_ | a, w'⟩
  · rfl
  · rfl
  · rfl

theorem Ranged.run_use (p : Production) (start stop : Nat) (w : Work) :
    (Ranged.use p start stop).run.run w =
      .ok (some (), { w with uses := w.uses ++ [⟨p, start, stop⟩] }) := rfl

theorem Ranged.run_byte {input : List Char} {i : Nat} {b : UInt8}
    (here : (Text.bytes input)[i]? = some b) (stop : Nat) (w : Work) :
    (Ranged.byte input i stop).run.run w =
      .ok (some b, { w with accesses := w.accesses ++ [⟨i, stop⟩] }) := by
  rw [Ranged.byte, here]
  rfl

theorem Ranged.run_make {edit : Store → Except NodeError NodeId × Store} {n : NodeId}
    {store : Store} (made : edit w.store = (.ok n, store)) :
    (Ranged.make edit).run.run w = .ok (some n, { w with store }) := by
  have got : (get : Ranged Work).run.run w = .ok (some w, w) := rfl
  rw [Ranged.make, Ranged.run_bind, got]
  dsimp only
  rw [made]
  rfl

/-! ## Runs without a fault -/

/-- The search runs from `w` without a fault, and its outcome is as the condition says. -/
def Ends (m : Ranged α) (w : Work) (post : Option α → Work → Prop) : Prop :=
  ∃ r w', m.run.run w = .ok (r, w') ∧ post r w'

namespace Ends

variable {post post' : Option α → Work → Prop} {next : Option β → Work → Prop}

theorem mono (ends : Ends m w post) (weaker : ∀ r w', post r w' → post' r w') :
    Ends m w post' := by
  obtain ⟨r, w', run, holds⟩ := ends
  exact ⟨r, w', run, weaker r w' holds⟩

theorem pure (holds : post (some a) w) : Ends (pure a) w post :=
  ⟨some a, w, rfl, holds⟩

theorem failure (holds : post none w) : Ends failure w post :=
  ⟨none, w, rfl, holds⟩

theorem bind (first : Ends m w post) (failed : ∀ w', post none w' → next none w')
    (goesOn : ∀ a w', post (some a) w' → Ends (f a) w' next) : Ends (m >>= f) w next := by
  obtain ⟨r, w', run, holds⟩ := first
  rw [Ends, Ranged.run_bind, run]
  cases r with
  | none => exact ⟨none, w', rfl, failed w' holds⟩
  | some a => exact goesOn a w' holds

theorem orElse (first : Ends m w post) (found : ∀ a w', post (some a) w' → post' (some a) w')
    (other : ∀ w', post none w' → Ends m' w' post') : Ends (m <|> m') w post' := by
  obtain ⟨r, w', run, holds⟩ := first
  rw [Ends, Ranged.run_orElse, run]
  cases r with
  | none => exact other w' holds
  | some a => exact ⟨some a, w', rfl, found a w' holds⟩

end Ends

/-! ## Searches with fewer faults -/

/-- Whatever the one search ends with, without a fault, the other ends with. -/
def Refines (m m' : Ranged α) : Prop :=
  ∀ w r w', m.run.run w = .ok (r, w') → m'.run.run w = .ok (r, w')

namespace Refines

theorem refl (m : Ranged α) : Refines m m := fun _ _ _ run => run

theorem bind (first : Refines m m') (next : ∀ a, Refines (f a) (f' a)) :
    Refines (m >>= f) (m' >>= f') := by
  intro w r w'' run
  rw [Ranged.run_bind] at run ⊢
  rcases outcome : m.run.run w with e | ⟨_ | a, w'⟩
  · simp [outcome] at run
  · rw [outcome] at run
    rw [first w _ _ outcome]
    exact run
  · rw [outcome] at run
    rw [first w _ _ outcome]
    exact next a w' r w'' run

theorem orElse (first : Refines m m') (second : Refines k k') :
    Refines (m <|> k) (m' <|> k') := by
  intro w r w'' run
  rw [Ranged.run_orElse] at run ⊢
  rcases outcome : m.run.run w with e | ⟨_ | a, w'⟩
  · simp [outcome] at run
  · rw [outcome] at run
    rw [first w _ _ outcome]
    exact second w' r w'' run
  · rw [outcome] at run
    rw [first w _ _ outcome]
    exact run

theorem firstM {γ : Type} {g g' : γ → Ranged α} (each : ∀ c, Refines (g c) (g' c)) :
    ∀ cs : List γ, Refines (cs.firstM g) (cs.firstM g')
  | [] => refl _
  | c :: cs => (each c).orElse (firstM each cs)

end Refines

end OperatorTree.Grammar
