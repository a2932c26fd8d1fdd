/-
# OperatorTree.Grammar.Search -- searches that count their attempts

A search finds something or fails, and reports how many attempts it made either
way.  Steps done one after the other add their attempts, and so do alternatives
tried in turn; only `attempt` itself counts one.  The second step of a sequence
is made only if the first found something, and an alternative is tried only if
all before it failed, so the count tells exactly what was tried.
-/

namespace OperatorTree.Grammar

set_option autoImplicit false

universe u v

/-- The outcome of a search. -/
structure Search (α : Type u) where
  /-- What was found, if anything. -/
  found : Option α
  /-- How many attempts were made, the failed ones included. -/
  attempts : Nat
  deriving DecidableEq, Repr

namespace Search

variable {α : Type u} {β : Type v}

/-- Fails at once. -/
def fail : Search α := ⟨none, 0⟩

/-- Counts one attempt for the search as a whole. -/
def attempt (s : Search α) : Search α :=
  ⟨s.found, s.attempts + 1⟩

/-- Goes on with what was found. -/
def andThen (s : Search α) (next : α → Search β) : Search β :=
  match s.found with
  | none => ⟨none, s.attempts⟩
  | some a =>
    let t := next a
    ⟨t.found, s.attempts + t.attempts⟩

/-- Tries the other search if the first one fails. -/
def orElse (s : Search α) (other : Unit → Search α) : Search α :=
  match s.found with
  | some _ => s
  | none =>
    let t := other ()
    ⟨t.found, s.attempts + t.attempts⟩

instance : Monad Search.{u} where
  pure a := ⟨some a, 0⟩
  bind := andThen

instance : OrElse (Search α) where
  orElse := orElse

/-- Tries the candidates in order, up to the first with which the search succeeds. -/
def first (search : β → Search α) : List β → Search α
  | [] => fail
  | b :: bs => search b <|> first search bs

/-! ## What each step finds -/

@[simp] theorem found_fail : (fail : Search α).found = none := rfl

@[simp] theorem found_attempt (s : Search α) : s.attempt.found = s.found := rfl

@[simp] theorem found_pure (a : α) : (pure a : Search α).found = some a := rfl

@[simp] theorem found_bind {γ : Type u} (s : Search α) (next : α → Search γ) :
    (s >>= next).found = s.found.bind fun a => (next a).found := by
  simp only [bind, andThen]
  cases s.found <;> rfl

@[simp] theorem found_orElse (s t : Search α) : (s <|> t).found = s.found.or t.found := by
  simp only [HOrElse.hOrElse, OrElse.orElse, orElse]
  split <;> simp_all

/-! ## What each step counts -/

@[simp] theorem attempts_fail : (fail : Search α).attempts = 0 := rfl

@[simp] theorem attempts_attempt (s : Search α) : s.attempt.attempts = s.attempts + 1 := rfl

@[simp] theorem attempts_pure (a : α) : (pure a : Search α).attempts = 0 := rfl

@[simp] theorem attempts_bind {γ : Type u} (s : Search α) (next : α → Search γ) :
    (s >>= next).attempts = s.attempts + (s.found.map fun a => (next a).attempts).getD 0 := by
  simp only [bind, andThen]
  cases s.found <;> rfl

@[simp] theorem attempts_orElse (s t : Search α) :
    (s <|> t).attempts = if s.found.isSome then s.attempts else s.attempts + t.attempts := by
  simp only [HOrElse.hOrElse, OrElse.orElse, orElse]
  split <;> simp_all

/-! ## Steps that count for nothing -/

theorem fail_orElse (s : Search α) : (fail <|> s) = s := by
  cases s
  simp [HOrElse.hOrElse, OrElse.orElse, orElse, fail]

theorem pure_bind {γ : Type u} (a : α) (next : α → Search γ) :
    ((pure a : Search α) >>= next) = next a := by
  cases outcome : next a
  simp [bind, andThen, pure, outcome]

/-! ## Candidates -/

@[simp] theorem first_nil (search : β → Search α) : first search [] = fail := rfl

@[simp] theorem first_cons (search : β → Search α) (b : β) (bs : List β) :
    first search (b :: bs) = (search b <|> first search bs) := rfl

theorem first_map {γ : Type v} (search : β → Search α) (f : γ → β) (cs : List γ) :
    first search (cs.map f) = first (search ∘ f) cs := by
  induction cs with
  | nil => rfl
  | cons c cs ih => simp [ih]

/-- Carrying along that a candidate is in the list does not change the search. -/
theorem first_attach (search : β → Search α) (bs : List β) :
    first (fun b : { b // b ∈ bs } => search b.1) bs.attach = first search bs := by
  have := first_map search Subtype.val bs.attach
  rw [List.attach_map_subtype_val] at this
  exact this.symm

/-- A search over candidates finds what it finds with the first that succeeds. -/
theorem found_first (search : β → Search α) (bs : List β) :
    (first search bs).found = bs.findSome? fun b => (search b).found := by
  induction bs with
  | nil => rfl
  | cons b bs ih =>
    rw [first_cons, found_orElse, ih, List.findSome?_cons]
    cases (search b).found <;> rfl

/-- A search over candidates succeeds as soon as one of them does. -/
theorem isSome_found_first {search : β → Search α} {bs : List β} :
    (first search bs).found.isSome ↔ ∃ b ∈ bs, (search b).found.isSome := by
  induction bs with
  | nil => simp
  | cons b bs ih => simp [ih]

end Search

end OperatorTree.Grammar
