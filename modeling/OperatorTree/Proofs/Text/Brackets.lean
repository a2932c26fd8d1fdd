/-
# OperatorTree.Proofs.Text.Brackets -- parentheses that belong together

Whether two parentheses belong together is a matter of counting.  From an opening one
on, more parentheses have been opened than closed, up to the one that closes it: there
the numbers are equal for the first time (`Enclosed`).  `Text.closeFrom` cuts a text where
this comes about, and makes no cut if it does not (`closeFrom_eq_some_iff`).

`openings text` lists what begins at each opening parenthesis of a text, from left to
right.
-/
import Mathlib.Data.List.Infix
import OperatorTree.Text.Brackets

namespace OperatorTree.Text

set_option autoImplicit false

variable {text inner rest : List Char} {depth : Nat} {c : Char}

/-! ## Counting -/

/-- The text closes `depth` parentheses more than it opens, and no part of it from the start
closes more than that. -/
def Closes (depth : Nat) (text : List Char) : Prop :=
  text.count ')' = text.count '(' + depth ∧ ∀ p, p <+: text → p.count ')' ≤ p.count '(' + depth

theorem forall_prefix_cons {Q : List Char → Prop} :
    (∀ p, p <+: c :: text → Q p) ↔ Q [] ∧ ∀ p, p <+: text → Q (c :: p) := by
  simp only [List.prefix_cons_iff]
  constructor
  · intro each
    exact ⟨each [] (.inl rfl), fun p pre => each _ (.inr ⟨p, rfl, pre⟩)⟩
  · rintro ⟨first, later⟩ p (rfl | ⟨q, rfl, pre⟩)
    · exact first
    · exact later q pre

theorem closes_nil_iff : Closes depth [] ↔ depth = 0 := by
  simp [Closes, eq_comm]

theorem not_closes_zero_closing : ¬ Closes 0 (')' :: inner) := by
  rintro ⟨-, part⟩
  simpa using part [')'] (by simp)

theorem closes_closing_iff : Closes (depth + 1) (')' :: inner) ↔ Closes depth inner := by
  simp [Closes, forall_prefix_cons, ← Nat.add_assoc]

theorem closes_opening_iff : Closes depth ('(' :: inner) ↔ Closes (depth + 1) inner := by
  simp [Closes, forall_prefix_cons, Nat.add_right_comm, ← Nat.add_assoc]

theorem closes_cons_iff_of_ne (notOpening : c ≠ '(') (notClosing : c ≠ ')') :
    Closes depth (c :: inner) ↔ Closes depth inner := by
  simp [Closes, forall_prefix_cons, List.count_cons_of_ne, notOpening, notClosing]

/-- Past a character that is no cut, the cut is the one of what follows. -/
theorem closeFrom_cons_eq_some_iff {depth' : Nat} (stays : c = ')' → depth ≠ 0)
    (step : closeFrom depth (c :: text) =
      (closeFrom depth' text).map fun (inner, rest) => (c :: inner, rest))
    (closes : ∀ tail, Closes depth (c :: tail) ↔ Closes depth' tail)
    (later : ∀ tail, closeFrom depth' text = some (tail, rest) ↔
      text = tail ++ ')' :: rest ∧ Closes depth' tail) :
    closeFrom depth (c :: text) = some (inner, rest) ↔
      c :: text = inner ++ ')' :: rest ∧ Closes depth inner := by
  rw [step, Option.map_eq_some_iff]
  cases inner with
  | nil =>
      simp only [closes_nil_iff, List.nil_append, List.cons.injEq]
      simpa using fun closing _ => stays closing
  | cons d inner =>
      simp only [Prod.exists, Prod.mk.injEq, List.cons.injEq, List.cons_append]
      constructor
      · rintro ⟨tail, after, found, ⟨rfl, rfl⟩, rfl⟩
        obtain ⟨rfl, inside⟩ := (later tail).1 found
        exact ⟨⟨rfl, rfl⟩, (closes tail).2 inside⟩
      · rintro ⟨⟨rfl, rfl⟩, inside⟩
        exact ⟨inner, rest, (later inner).2 ⟨rfl, (closes _).1 inside⟩, ⟨rfl, rfl⟩, rfl⟩

/-- **The cut is where the counts say**: what stands before it closes as many parentheses
as were open, and no more on the way. -/
theorem closeFrom_eq_some_iff :
    closeFrom depth text = some (inner, rest) ↔
      text = inner ++ ')' :: rest ∧ Closes depth inner := by
  induction text generalizing depth inner with
  | nil => simp [closeFrom]
  | cons c text ih =>
      by_cases closing : c = ')'
      · subst closing
        cases depth with
        | zero =>
            cases inner with
            | nil => simp [closeFrom, closes_nil_iff]
            | cons d inner =>
                have differ :
                    ')' :: text = d :: inner ++ ')' :: rest → ¬ Closes 0 (d :: inner) := by
                  intro same
                  rw [← (List.cons.inj same).1]
                  exact not_closes_zero_closing
                simpa [closeFrom] using differ
        | succ depth =>
            exact closeFrom_cons_eq_some_iff (by simp) (by simp [closeFrom])
              (fun _ => closes_closing_iff) fun _ => ih
      · by_cases opening : c = '('
        · subst opening
          exact closeFrom_cons_eq_some_iff (by simp) (by simp [closeFrom])
            (fun _ => closes_opening_iff) fun _ => ih
        · exact closeFrom_cons_eq_some_iff (fun same => absurd same closing)
            (by simp [closeFrom, closing, opening])
            (fun _ => closes_cons_iff_of_ne opening closing) fun _ => ih

/-! ## The text from a parenthesis to the one that closes it -/

/-- The text begins with an opening parenthesis, which its last character closes: as many are
closed as opened in the whole of it, and fewer in any part from the start. -/
structure Enclosed (text : List Char) : Prop where
  opening : text.head? = some '('
  total : text.count ')' = text.count '('
  part : ∀ p, p <+: text → p ≠ [] → p ≠ text → p.count ')' < p.count '('

theorem Closes.enclosed (closes : Closes 0 inner) : Enclosed ('(' :: inner ++ [')']) where
  opening := rfl
  total := by simpa using closes.1
  part p pre some proper := by
    rcases List.prefix_cons_iff.1 pre with rfl | ⟨q, rfl, within⟩
    · exact absurd rfl some
    · have shorter : q <+: inner := by
        rcases List.prefix_concat_iff.1 within with whole | shorter
        · exact absurd (congrArg ('(' :: ·) whole) proper
        · exact shorter
      have := closes.2 q shorter
      simp
      omega

/-- What stands before the rest of a text that begins with a group is enclosed. -/
theorem enclosed_of_group? (grouped : group? text = some (inner, rest)) :
    Enclosed ('(' :: inner ++ [')']) := by
  unfold group? at grouped
  split at grouped
  · exact (closeFrom_eq_some_iff.1 grouped).2.enclosed
  · cases grouped

/-! ## The opening parentheses of a text -/

/-- What begins at each opening parenthesis, from left to right. -/
def openings (text : List Char) : List (List Char) :=
  text.tails.filter (·.head? = some '(')

theorem openings_cons_opening (text : List Char) :
    openings ('(' :: text) = ('(' :: text) :: openings text := by
  simp [openings]

theorem openings_cons_of_ne (other : c ≠ '(') (text : List Char) :
    openings (c :: text) = openings text := by
  simp [openings, other]

theorem openings_append (text rest : List Char) :
    openings (text ++ rest) = (openings text).map (· ++ rest) ++ openings rest := by
  induction text with
  | nil => simp [openings]
  | cons c text ih =>
      by_cases opening : c = '('
      · subst opening
        rw [List.cons_append, openings_cons_opening, openings_cons_opening, ih]
        simp
      · rw [List.cons_append, openings_cons_of_ne opening, openings_cons_of_ne opening, ih]

theorem openings_of_not_mem (none : '(' ∉ text) : openings text = [] := by
  induction text with
  | nil => rfl
  | cons c text ih =>
      simp only [List.mem_cons, not_or] at none
      rw [openings_cons_of_ne (Ne.symm none.1), ih none.2]

end OperatorTree.Text
