/-
# OperatorTree.Proofs.Grammar.Respelled -- how literals are spelled makes no difference

A search looks at symbols, at parentheses, and at whether what is left is a literal.  It
finds all of these in the same order in a text that is respelled.  So it makes the same
attempts there, comes to the same end, and finds a tree of the same shape: with other labels
on its literals, and on its parentheses the respelled labels (`related_search`).
-/
import OperatorTree.Proofs.Grammar.Inventory
import OperatorTree.Proofs.Text.Respelled
import OperatorTree.Proofs.Tree.Pairs

namespace OperatorTree

set_option autoImplicit false

/-- The same node, its label respelled. -/
inductive Content.Respelled : Content → Content → Prop where
  | literal {a b : String} : IsLiteral a.toList → IsLiteral b.toList →
      Respelled (.literal a) (.literal b)
  | operator (op : Operator) : Respelled (.operator op) (.operator op)
  | parenthetical {a b : String} : Text.Respelled a.toList b.toList →
      Respelled (.parenthetical a) (.parenthetical b)

theorem Content.Respelled.kind_eq {a b : Content} (respelled : a.Respelled b) :
    a.kind = b.kind := by
  cases respelled <;> rfl

theorem Content.Respelled.operator?_eq {a b : Content} (respelled : a.Respelled b) :
    a.operator? = b.operator? := by
  cases respelled <;> rfl

/-- The same expression, its labels respelled. -/
def Expr.Respelled : Expr → Expr → Prop :=
  Tree.Related Content.Respelled

namespace Grammar

open Text (RespelledCut)

/-! ## Searches side by side -/

/-- Two searches make as many attempts and fail together, or find what is related. -/
structure Search.Related {α β : Type} (R : α → β → Prop) (s : Search α) (t : Search β) : Prop where
  attempts_eq : s.attempts = t.attempts
  found : Option.Rel R s.found t.found

namespace Search.Related

variable {α β γ δ : Type} {R : α → β → Prop} {S : γ → δ → Prop}

theorem fail : Related R (.fail : Search α) (.fail : Search β) :=
  ⟨rfl, .none⟩

theorem pure {a : α} {b : β} (related : R a b) :
    Related R (Pure.pure a : Search α) (Pure.pure b : Search β) :=
  ⟨rfl, .some related⟩

theorem isSome_eq {s : Search α} {t : Search β} (related : Related R s t) :
    s.found.isSome = t.found.isSome := by
  obtain ⟨sFound, sAttempts⟩ := s
  obtain ⟨tFound, tAttempts⟩ := t
  obtain ⟨-, found⟩ := related
  cases found <;> rfl

theorem attempt {s : Search α} {t : Search β} (related : Related R s t) :
    Related R s.attempt t.attempt :=
  ⟨congrArg (· + 1) related.attempts_eq, related.found⟩

theorem bind {s : Search α} {t : Search β} {next : α → Search γ} {next' : β → Search δ}
    (related : Related R s t) (later : ∀ a b, R a b → Related S (next a) (next' b)) :
    Related S (s >>= next) (t >>= next') := by
  obtain ⟨sFound, sAttempts⟩ := s
  obtain ⟨tFound, tAttempts⟩ := t
  obtain ⟨attempts, found⟩ := related
  cases found with
  | none => exact ⟨attempts, .none⟩
  | @some a b here =>
      have after := later a b here
      exact ⟨congrArg₂ (· + ·) attempts after.attempts_eq, after.found⟩

theorem orElse {s s' : Search α} {t t' : Search β} (first : Related R s t)
    (second : Related R s' t') : Related R (s <|> s') (t <|> t') := by
  obtain ⟨sFound, sAttempts⟩ := s
  obtain ⟨tFound, tAttempts⟩ := t
  obtain ⟨attempts, found⟩ := first
  cases found with
  | none => exact ⟨congrArg₂ (· + ·) attempts second.attempts_eq, second.found⟩
  | some here => exact ⟨attempts, .some here⟩

theorem first {search : γ → Search α} {search' : δ → Search β} {cs : List γ} {ds : List δ}
    (each : List.Forall₂ (fun c d => Related R (search c) (search' d)) cs ds) :
    Related R (.first search cs) (.first search' ds) := by
  induction each with
  | nil => exact fail
  | cons here _ ih => exact here.orElse ih

end Search.Related

/-! ## Production by production -/

/-- The search for a production finds in respelled texts what is the same but respelled. -/
def RespellsAt (p : Production) (u : List Char) : Prop :=
  ∀ v, Text.Respelled u v → Search.Related Expr.Respelled (search p u) (search p v)

theorem related_split {op : Operator} {p q : Production} {u v : List Char}
    (sides : ∀ cut ∈ cuts op.symbol u, RespellsAt p cut.1 ∧ RespellsAt q cut.2)
    (respelled : Text.Respelled u v) :
    Search.Related Expr.Respelled (split op p q u) (split op p q v) := by
  have pairs := (List.forall₂_and_left _ _).2
    ⟨sides, respelled.forall₂_cuts (not_allowed_symbol op)⟩
  refine .first (pairs.imp ?_)
  rintro cut cut' ⟨⟨left, right⟩, parts⟩
  refine (left _ parts.1).bind fun l l' first => (right _ parts.2).bind fun r r' last => ?_
  exact .pure (.node (.operator op) (.cons first (.cons last .nil)))

/-- A literal does not follow a group. -/
theorem afterGroup_literal {a : List Char} (valid : IsLiteral a) (g : Expr) (rest : List Char) :
    afterGroup g (a ++ rest) = .fail := by
  obtain ⟨c, a, rfl⟩ := List.exists_cons_of_ne_nil valid.1
  have noSymbol : Operator.ofSymbol? c = none :=
    Option.eq_none_iff_forall_ne_some.2 fun op symbol => not_allowed_symbol op
      (Operator.ofSymbol?_eq_some_iff.1 symbol ▸ valid.2 c List.mem_cons_self)
  simp only [List.cons_append, afterGroup, noSymbol]

theorem related_afterGroup {rest rest' : List Char} {g g' : Expr}
    (operand : ∀ c operand, rest = c :: operand → RespellsAt .expression operand)
    (respelled : Text.Respelled rest rest') (group : Expr.Respelled g g') :
    Search.Related Expr.Respelled (afterGroup g rest) (afterGroup g' rest') := by
  cases respelled with
  | nil => exact .pure group
  | @char c u v _ later =>
      simp only [afterGroup]
      cases Operator.ofSymbol? c with
      | none => exact .fail
      | some op =>
          refine (operand c u rfl v later).bind fun r r' last => ?_
          exact .pure (.node (.operator op) (.cons group (.cons last .nil)))
  | run validA validB =>
      rw [afterGroup_literal validA, afterGroup_literal validB]
      exact .fail

/-- The labels of respelled groups. -/
theorem respelled_groupLabel {inner inner' : List Char} (respelled : Text.Respelled inner inner') :
    Content.Respelled (.parenthetical (groupLabel inner)) (.parenthetical (groupLabel inner')) := by
  refine .parenthetical ?_
  have closing : Text.Respelled (inner ++ [')']) (inner' ++ [')']) :=
    respelled.append_cons (by decide) .nil
  simpa [groupLabel] using Text.Respelled.char (c := '(') (by decide) closing

/-- **A search makes the same attempts in a respelled text, and finds the same tree, respelled.** -/
theorem related_search : ∀ (p : Production) (u : List Char), RespellsAt p u := by
  refine Production.induction ?expression ?additive ?product ?atom
  case expression =>
    intro u additive atom v respelled
    rw [search_expression, search_expression]
    exact ((additive v respelled).orElse (atom v respelled)).attempt
  case additive =>
    intro u sides product v respelled
    rw [search_additive, search_additive]
    exact ((related_split sides respelled).orElse (product v respelled)).attempt
  case product =>
    intro u sides atom v respelled
    rw [search_product, search_product]
    exact ((related_split sides respelled).orElse (atom v respelled)).attempt
  case atom =>
    intro u parts v respelled
    rw [search_atom, search_atom]
    refine Search.Related.attempt ?_
    have groups := respelled.group?
    cases groupU : Text.group? u with
    | none =>
        cases groupV : Text.group? v with
        | some cut => simp [groupU, groupV] at groups
        | none =>
            by_cases valid : IsLiteral u
            · have valid' := respelled.isLiteral_iff.1 valid
              simp only [if_pos valid, if_pos valid']
              exact .pure (.node (.literal (by simpa using valid) (by simpa using valid')) .nil)
            · simp only [if_neg valid, if_neg (mt respelled.isLiteral_iff.2 valid)]
              exact .fail
    | some cut =>
        cases groupV : Text.group? v with
        | none => simp [groupU, groupV] at groups
        | some cut' =>
            rw [groupU, groupV, Option.rel_some_some] at groups
            obtain ⟨contents, remainder⟩ := groups
            obtain ⟨inside, operand⟩ := parts cut.1 cut.2 groupU
            refine (inside cut'.1 contents).bind fun e e' same => ?_
            exact related_afterGroup operand remainder
              (.node (respelled_groupLabel contents) (.cons same .nil))

/-! ## Readings side by side -/

section Readings

variable {settings : Settings} {text text' : String} {e e' : Expr}

theorem related_searchText (respelled : Text.Respelled (strip text) (strip text')) :
    Search.Related Expr.Respelled (searchText text) (searchText text') :=
  related_search .expression _ _ respelled

theorem respelled_flatten (respelled : e.Respelled e') : e.flatten.Respelled e'.flatten :=
  Tree.Related.flatten (fun _ _ labels => labels.operator?_eq) respelled

/-- A respelled text reads if the text does. -/
theorem exists_parse_iff_of_respelled (settings : Settings)
    (respelled : Text.Respelled (strip text) (strip text')) :
    (∃ e, parse settings text = .ok e) ↔ ∃ e, parse settings text' = .ok e := by
  rw [exists_parse_iff, exists_parse_iff, (related_searchText respelled).isSome_eq]

/-- A respelled text reads as the same tree, respelled. -/
theorem respelled_of_parse (respelled : Text.Respelled (strip text) (strip text'))
    (parsed : parse settings text = .ok e) (parsed' : parse settings text' = .ok e') :
    e.Respelled e' := by
  obtain ⟨raw, found, rfl⟩ := parse_eq_ok_iff.1 parsed
  obtain ⟨raw', found', rfl⟩ := parse_eq_ok_iff.1 parsed'
  have same := (related_searchText respelled).found
  rw [found, found', Option.rel_some_some] at same
  split
  · exact respelled_flatten same
  · exact same

end Readings

end Grammar

end OperatorTree
