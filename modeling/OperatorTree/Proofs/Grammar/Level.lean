/-
# OperatorTree.Proofs.Grammar.Level -- the factors of an expression and what stands between them

A factor is a literal, or a level in parentheses.  A level is a sequence of
factors with an operator between each two of them, so it records the nesting of
the parentheses and nothing of how the operators bind.  Only a text that is a
literal can be a factor (`Factor.literal` carries the proof).

Each level has a spelling, and a text is the spelling of one level at most
(`Level.spelling_injective`).  The reason is that the parenthesis which closes
a group is found by counting alone: counting passes over the spelling of any
level unchanged (`Level.closeFrom_spelling`).

A level may be cut at each of its operators.  Cutting its spelling at a symbol
finds these cuts and others, inside parentheses, and of the latter no side is a
spelling (`filter_cuts_spelling`).
-/
import Mathlib.Data.List.Sort
import OperatorTree.Grammar.Production

namespace OperatorTree.Grammar

set_option autoImplicit false

mutual

/-- An operand: a literal, or a level in parentheses. -/
inductive Factor where
  | literal (text : List Char) (valid : IsLiteral text)
  | group (inner : Level)

/-- Factors, with an operator between each two of them. -/
inductive Level where
  | single (f : Factor)
  | cons (f : Factor) (op : Operator) (rest : Level)

end

mutual

/-- The characters of a factor. -/
def Factor.spelling : Factor → List Char
  | .literal text _ => text
  | .group inner => '(' :: inner.spelling ++ [')']

/-- The characters of a level. -/
def Level.spelling : Level → List Char
  | .single f => f.spelling
  | .cons f op rest => f.spelling ++ op.symbol :: rest.spelling

end

namespace Level

/-- Joins two levels by an operator. -/
def append : Level → Operator → Level → Level
  | single f, op, right => cons f op right
  | cons f o rest, op, right => cons f o (rest.append op right)

/-- The cuts of a level at an operator, from left to right. -/
def cuts (op : Operator) : Level → List (Level × Level)
  | single _ => []
  | cons f o rest =>
      let later := (rest.cuts op).map fun (left, right) => (cons f o left, right)
      if o = op then (single f, rest) :: later else later

/-- Induction from factor to factor of a level, without a look into the groups. -/
@[induction_eliminator]
theorem induction_factors {P : Level → Prop} (single : ∀ f, P (.single f))
    (cons : ∀ f op rest, P rest → P (.cons f op rest)) : ∀ l, P l
  | .single f => single f
  | .cons f op rest => cons f op rest (induction_factors single cons rest)

/-! ## Cuts of a level -/

theorem spelling_append (op : Operator) (right : Level) : ∀ left : Level,
    (left.append op right).spelling = left.spelling ++ op.symbol :: right.spelling
  | single f => rfl
  | cons f o rest => by
      simp [append, spelling, spelling_append op right rest]

theorem mem_cuts {op : Operator} {right : Level} : ∀ {l left : Level},
    (left, right) ∈ l.cuts op ↔ l = left.append op right
  | single f, single g => by simp [cuts, append]
  | single f, cons g p left => by simp [cuts, append]
  | cons f o rest, single g => by
      simp only [cuts, append, cons.injEq]
      split
      · rename_i here
        simp [here, eq_comm]
      · rename_i elsewhere
        simp [elsewhere]
  | cons f o rest, cons g p left => by
      have later : (cons g p left, right) ∈ (rest.cuts op).map (fun c => (cons f o c.1, c.2)) ↔
          f = g ∧ o = p ∧ rest = left.append op right := by
        simp only [List.mem_map, Prod.mk.injEq, cons.injEq, Prod.exists]
        constructor
        · rintro ⟨l, r, member, ⟨rfl, rfl, rfl⟩, rfl⟩
          exact ⟨rfl, rfl, mem_cuts.1 member⟩
        · rintro ⟨rfl, rfl, joined⟩
          exact ⟨left, right, mem_cuts.2 joined, ⟨rfl, rfl, rfl⟩, rfl⟩
      simp only [cuts, append, cons.injEq]
      split
      · rw [List.mem_cons, later]
        simp
      · exact later

end Level

/-! ## Passing over a level in search of a parenthesis -/

theorem not_allowed_symbol (op : Operator) : ¬ Allowed op.symbol := by
  cases op <;> decide

theorem closeFrom_cons_of_ne {c : Char} (notOpening : c ≠ '(') (notClosing : c ≠ ')') (depth : Nat)
    (rest : List Char) :
    Text.closeFrom depth (c :: rest) =
      (Text.closeFrom depth rest).map fun (inner, after) => (c :: inner, after) := by
  simp [Text.closeFrom, notOpening, notClosing]

theorem closeFrom_literal {text : List Char} (allowed : ∀ c ∈ text, Allowed c) (depth : Nat)
    (rest : List Char) :
    Text.closeFrom depth (text ++ rest) =
      (Text.closeFrom depth rest).map fun (inner, after) => (text ++ inner, after) := by
  induction text with
  | nil => simp
  | cons c text ih =>
      have notOpening : c ≠ '(' := fun same => allowed c List.mem_cons_self (same ▸ by decide)
      have notClosing : c ≠ ')' := fun same => allowed c List.mem_cons_self (same ▸ by decide)
      rw [List.cons_append, closeFrom_cons_of_ne notOpening notClosing,
        ih fun d member => allowed d (List.mem_cons_of_mem c member), Option.map_map]
      rfl

mutual

theorem Factor.closeFrom_spelling : ∀ (f : Factor) (depth : Nat) (rest : List Char),
    Text.closeFrom depth (f.spelling ++ rest) =
      (Text.closeFrom depth rest).map fun (inner, after) => (f.spelling ++ inner, after)
  | .literal text valid, depth, rest => closeFrom_literal valid.2 depth rest
  | .group inner, depth, rest => by
      have opened : Text.closeFrom depth (Factor.spelling (.group inner) ++ rest) =
          (Text.closeFrom (depth + 1) (inner.spelling ++ ')' :: rest)).map
            fun (before, after) => ('(' :: before, after) := by
        simp [Factor.spelling, Text.closeFrom]
      have closed : Text.closeFrom (depth + 1) (')' :: rest) =
          (Text.closeFrom depth rest).map fun (before, after) => (')' :: before, after) := by
        simp [Text.closeFrom]
      rw [opened, inner.closeFrom_spelling, closed, Option.map_map, Option.map_map]
      congr 1
      funext cut
      simp [Factor.spelling]

/-- Counting parentheses passes over the spelling of a level unchanged. -/
theorem Level.closeFrom_spelling : ∀ (l : Level) (depth : Nat) (rest : List Char),
    Text.closeFrom depth (l.spelling ++ rest) =
      (Text.closeFrom depth rest).map fun (inner, after) => (l.spelling ++ inner, after)
  | .single f, depth, rest => f.closeFrom_spelling depth rest
  | .cons f op tail, depth, rest => by
      have notOpening : op.symbol ≠ '(' := by cases op <;> decide
      have notClosing : op.symbol ≠ ')' := by cases op <;> decide
      rw [Level.spelling, List.append_assoc, f.closeFrom_spelling, List.cons_append,
        closeFrom_cons_of_ne notOpening notClosing, tail.closeFrom_spelling, Option.map_map,
        Option.map_map]
      congr 1
      funext cut
      simp

end

/-- The parentheses around a level are the ones that belong together. -/
theorem group?_group (inner : Level) (rest : List Char) :
    Text.group? (Factor.spelling (.group inner) ++ rest) = some (inner.spelling, rest) := by
  have closed : Text.closeFrom 0 (')' :: rest) = some ([], rest) := by simp [Text.closeFrom]
  simp only [Factor.spelling, List.cons_append, List.append_assoc, List.nil_append, Text.group?]
  rw [inner.closeFrom_spelling, closed]
  simp

/-! ## A text is the spelling of one level at most -/

/-- What may follow a factor: nothing, or an operator. -/
def EndsFactor (rest : List Char) : Prop :=
  ∀ c ∈ rest.head?, ∃ op : Operator, c = op.symbol

theorem endsFactor_nil : EndsFactor [] := by
  simp [EndsFactor]

theorem endsFactor_symbol (op : Operator) (rest : List Char) : EndsFactor (op.symbol :: rest) := by
  intro c first
  exact ⟨op, by simpa using first.symm⟩

/-- A literal ends where the first operator stands, so what follows it cannot be a part of it. -/
theorem takeWhile_literal {text rest : List Char} (allowed : ∀ c ∈ text, Allowed c)
    (ends : EndsFactor rest) : (text ++ rest).takeWhile (Allowed ·) = text := by
  have stops : rest.takeWhile (Allowed ·) = [] := by
    cases rest with
    | nil => rfl
    | cons c rest =>
        obtain ⟨op, rfl⟩ := ends c rfl
        simp [not_allowed_symbol op]
  rw [List.takeWhile_append_of_pos (by simpa using allowed), stops, List.append_nil]

theorem head?_group (inner : Level) (rest : List Char) :
    (Factor.spelling (.group inner) ++ rest).head? = some '(' := rfl

theorem head?_literal_ne {text : List Char} (valid : IsLiteral text) (rest : List Char) :
    (text ++ rest).head? ≠ some '(' := by
  cases text with
  | nil => exact absurd rfl valid.1
  | cons c text =>
      intro opening
      have same : c = '(' := by simpa using opening
      exact valid.2 c List.mem_cons_self (same ▸ by decide)

mutual

theorem Factor.eq_of_spelling_append : ∀ {f g : Factor} {s t : List Char},
    EndsFactor s → EndsFactor t → f.spelling ++ s = g.spelling ++ t → f = g ∧ s = t
  | .literal u hu, .literal v hv, s, t, endsS, endsT, same => by
      simp only [Factor.spelling] at same
      have texts : u = v := by
        rw [← takeWhile_literal hu.2 endsS, same, takeWhile_literal hv.2 endsT]
      subst texts
      exact ⟨rfl, List.append_cancel_left same⟩
  | .literal u hu, .group m, s, t, _, _, same => by
      have := head?_group m t
      rw [← same] at this
      exact absurd this (head?_literal_ne hu s)
  | .group l, .literal v hv, s, t, _, _, same => by
      have := head?_group l s
      rw [same] at this
      exact absurd this (head?_literal_ne hv t)
  | .group l, .group m, s, t, _, _, same => by
      have cut := group?_group l s
      rw [same, group?_group m t] at cut
      simp only [Option.some.injEq, Prod.mk.injEq] at cut
      exact ⟨by rw [Level.eq_of_spelling cut.1.symm], cut.2.symm⟩

theorem Level.eq_of_spelling : ∀ {l m : Level}, l.spelling = m.spelling → l = m
  | .single f, .single g, same => by
      have factors : f.spelling ++ [] = g.spelling ++ [] := by
        simpa [Level.spelling] using same
      obtain ⟨rfl, -⟩ := Factor.eq_of_spelling_append endsFactor_nil endsFactor_nil factors
      rfl
  | .single f, .cons g p m, same => by
      have factors : f.spelling ++ [] = g.spelling ++ p.symbol :: m.spelling := by
        simpa [Level.spelling] using same
      have := (Factor.eq_of_spelling_append endsFactor_nil (endsFactor_symbol p _) factors).2
      simp at this
  | .cons f o l, .single g, same => by
      have factors : f.spelling ++ o.symbol :: l.spelling = g.spelling ++ [] := by
        simpa [Level.spelling] using same
      have := (Factor.eq_of_spelling_append (endsFactor_symbol o _) endsFactor_nil factors).2
      simp at this
  | .cons f o l, .cons g p m, same => by
      obtain ⟨rfl, tails⟩ :=
        Factor.eq_of_spelling_append (endsFactor_symbol o _) (endsFactor_symbol p _) same
      obtain ⟨symbols, levels⟩ := List.cons.inj tails
      obtain rfl := Operator.symbol_injective symbols
      rw [Level.eq_of_spelling levels]

end

/-- A text is the spelling of one level at most. -/
theorem Level.spelling_injective : Function.Injective Level.spelling :=
  fun _ _ => Level.eq_of_spelling

/-! ## Cutting a spelling finds the cuts of the level, and nothing else whose sides are spellings -/

/-- A text that reads as a level. -/
def IsLevel (text : List Char) : Prop :=
  ∃ l : Level, l.spelling = text

theorem Factor.spelling_ne_nil : ∀ f : Factor, f.spelling ≠ []
  | .literal _ valid => valid.1
  | .group inner => by simp [spelling]

theorem Level.spelling_ne_nil : ∀ l : Level, l.spelling ≠ []
  | .single f => f.spelling_ne_nil
  | .cons f op rest => by simp [spelling]

theorem IsLevel.ne_nil {text : List Char} (level : IsLevel text) : text ≠ [] := by
  obtain ⟨l, rfl⟩ := level
  exact l.spelling_ne_nil

/-- Two levels are the sides of a cut of a spelling just when they are the sides
of a cut of the level. -/
theorem spelling_mem_cuts {op : Operator} {l left right : Level} :
    (left.spelling, right.spelling) ∈ Grammar.cuts op.symbol l.spelling ↔
      (left, right) ∈ l.cuts op := by
  rw [Grammar.mem_cuts, Level.mem_cuts]
  constructor
  · rintro ⟨same, -, -⟩
    apply Level.spelling_injective
    rw [same, Level.spelling_append]
  · rintro rfl
    exact ⟨Level.spelling_append .., left.spelling_ne_nil, right.spelling_ne_nil⟩

theorem mem_cuts_spelling_append (op : Operator) (left right : Level) :
    (left.spelling, right.spelling) ∈ Grammar.cuts op.symbol (left.append op right).spelling :=
  spelling_mem_cuts.2 (Level.mem_cuts.2 rfl)

/-- A cut with a level on both sides joins them. -/
theorem exists_append_of_mem_cuts {op : Operator} {l : Level} {left right : List Char}
    (member : (left, right) ∈ Grammar.cuts op.symbol l.spelling) (first : IsLevel left)
    (last : IsLevel right) :
    ∃ a b : Level, a.spelling = left ∧ b.spelling = right ∧ l = a.append op b := by
  obtain ⟨a, rfl⟩ := first
  obtain ⟨b, rfl⟩ := last
  exact ⟨a, b, rfl, rfl, Level.mem_cuts.1 (spelling_mem_cuts.1 member)⟩

theorem pairwise_cuts (symbol : Char) (text : List Char) :
    (Grammar.cuts symbol text).Pairwise fun c d => c.1.length < d.1.length := by
  induction text with
  | nil => simp [Grammar.cuts]
  | cons a text ih =>
      cases text with
      | nil => simp [Grammar.cuts]
      | cons b rest =>
          have later : ((Grammar.cuts symbol (b :: rest)).map fun c => (a :: c.1, c.2)).Pairwise
              fun c d => c.1.length < d.1.length := by
            rw [List.pairwise_map]
            exact ih.imp fun shorter => by simpa using shorter
          simp only [Grammar.cuts]
          split
          · refine List.pairwise_cons.2 ⟨fun c member => ?_, later⟩
            obtain ⟨d, cut, rfl⟩ := List.mem_map.1 member
            have := List.length_pos_iff.2 (Grammar.mem_cuts.1 cut).2.1
            simp only [List.length_cons, List.length_nil]
            omega
          · exact later

theorem Level.pairwise_cuts (op : Operator) : ∀ l : Level,
    (l.cuts op).Pairwise fun c d => c.1.spelling.length < d.1.spelling.length
  | single f => by simp [cuts]
  | cons f o rest => by
      have later : ((rest.cuts op).map fun c => (cons f o c.1, c.2)).Pairwise
          fun c d => c.1.spelling.length < d.1.spelling.length := by
        rw [List.pairwise_map]
        exact (Level.pairwise_cuts op rest).imp fun shorter => by simpa [spelling] using shorter
      simp only [cuts]
      split
      · refine List.pairwise_cons.2 ⟨fun c member => ?_, later⟩
        obtain ⟨d, -, rfl⟩ := List.mem_map.1 member
        simp only [spelling, List.length_append, List.length_cons]
        omega
      · exact later

open Classical in
/-- Of the cuts of a spelling, those with a level on both sides are the cuts of the level. -/
theorem filter_cuts_spelling (op : Operator) (l : Level) :
    ((Grammar.cuts op.symbol l.spelling).filter fun c => IsLevel c.1 ∧ IsLevel c.2) =
      (l.cuts op).map fun c => (c.1.spelling, c.2.spelling) := by
  -- Both lists go strictly from left to right, so it is enough that they have the same members.
  let Before (c d : List Char × List Char) : Prop := c.1.length < d.1.length
  have : Std.Irrefl Before := ⟨fun c => Nat.lt_irrefl c.1.length⟩
  have : Std.Antisymm Before := ⟨fun c d before after => absurd before (Nat.lt_asymm after)⟩
  have spellings : ((l.cuts op).map fun c => (c.1.spelling, c.2.spelling)).Pairwise Before := by
    rw [List.pairwise_map]
    exact l.pairwise_cuts op
  refine List.Pairwise.eq_of_mem_iff ((pairwise_cuts ..).filter _) spellings ?_
  rintro ⟨left, right⟩
  simp only [List.mem_filter, decide_eq_true_eq, List.mem_map, Prod.mk.injEq, Prod.exists]
  constructor
  · rintro ⟨member, ⟨a, rfl⟩, ⟨b, rfl⟩⟩
    exact ⟨a, b, spelling_mem_cuts.1 member, rfl, rfl⟩
  · rintro ⟨a, b, member, rfl, rfl⟩
    exact ⟨spelling_mem_cuts.2 member, ⟨a, rfl⟩, ⟨b, rfl⟩⟩

end OperatorTree.Grammar
