/-
# OperatorTree.Proofs.Text.Respelled -- texts that differ in the spelling of their literals

A text is respelled by putting another literal in the place of each longest run of allowed
characters; every other character stays (`Text.Respelled`).  The texts may differ in length
from the first run on, so no position of the one is a position of the other.  What does
correspond is the order of the characters that stay, and with it all that a search looks at:
the cuts at a symbol, one for one (`Respelled.forall₂_cuts`), the parentheses that belong
together (`Respelled.group?`), and whether the whole text is a literal
(`Respelled.isLiteral_iff`).
-/
import Mathlib.Data.List.Forall2
import Mathlib.Data.Option.Basic
import OperatorTree.Proofs.Grammar.Lookahead

namespace OperatorTree.Text

set_option autoImplicit false

/-- The text does not go on with an allowed character. -/
def EndsRun (text : List Char) : Prop :=
  ∀ c ∈ text.head?, ¬ Allowed c

/-- The second text is the first one with another literal for each longest run of allowed
characters. -/
inductive Respelled : List Char → List Char → Prop where
  | nil : Respelled [] []
  | char {c : Char} {u v : List Char} : ¬ Allowed c → Respelled u v → Respelled (c :: u) (c :: v)
  | run {a b u v : List Char} : IsLiteral a → IsLiteral b → EndsRun u → Respelled u v →
      Respelled (a ++ u) (b ++ v)

theorem endsRun_nil : EndsRun [] := by
  simp [EndsRun]

theorem endsRun_cons {c : Char} {u : List Char} (stays : ¬ Allowed c) : EndsRun (c :: u) := by
  simpa [EndsRun] using stays

/-- What a text begins with ends a run where the text does, unless it is empty. -/
theorem EndsRun.of_append {u v : List Char} (ends : EndsRun (u ++ v)) : EndsRun u := by
  cases u with
  | nil => exact endsRun_nil
  | cons c u => exact ends

theorem not_endsRun_literal {a : List Char} (valid : IsLiteral a) (u : List Char) :
    ¬ EndsRun (a ++ u) := by
  obtain ⟨c, a, rfl⟩ := List.exists_cons_of_ne_nil valid.1
  exact fun ends => ends c rfl (valid.2 c List.mem_cons_self)

namespace Respelled

variable {u v left right : List Char} {c : Char}

theorem eq_nil_iff (respelled : Respelled u v) : u = [] ↔ v = [] := by
  cases respelled with
  | nil => exact Iff.rfl
  | char => simp
  | run validA validB => simp [validA.1, validB.1]

theorem endsRun_iff (respelled : Respelled u v) : EndsRun u ↔ EndsRun v := by
  cases respelled with
  | nil => exact Iff.rfl
  | char => exact Iff.rfl
  | run validA validB =>
      simp only [not_endsRun_literal validA, not_endsRun_literal validB]

theorem append_cons {left' right' : List Char} (stays : ¬ Allowed c)
    (first : Respelled left left') (last : Respelled right right') :
    Respelled (left ++ c :: right) (left' ++ c :: right') := by
  induction first with
  | nil => exact .char stays last
  | char other _ ih => exact .char other ih
  | @run a b u v validA validB ends _ ih =>
      have ends' : EndsRun (u ++ c :: right) := by
        cases u with
        | nil => exact endsRun_cons stays
        | cons d u => exact ends
      rw [List.append_assoc, List.append_assoc]
      exact .run validA validB ends' ih

/-! ## Literals -/

theorem isLiteral_append_iff {a : List Char} (valid : IsLiteral a) (ends : EndsRun u) :
    IsLiteral (a ++ u) ↔ u = [] := by
  constructor
  · intro whole
    cases u with
    | nil => rfl
    | cons c u => exact absurd (whole.2 c (by simp)) (ends c rfl)
  · rintro rfl
    rwa [List.append_nil]

/-- Respelling makes no text a literal, and takes none. -/
theorem isLiteral_iff (respelled : Respelled u v) : IsLiteral u ↔ IsLiteral v := by
  cases respelled with
  | nil => exact Iff.rfl
  | @char c u v stays _ =>
      have neither : ∀ w, ¬ IsLiteral (c :: w) := fun w whole =>
        stays (whole.2 c List.mem_cons_self)
      simp only [neither]
  | run validA validB ends rest =>
      rw [isLiteral_append_iff validA ends,
        isLiteral_append_iff validB (rest.endsRun_iff.1 ends), rest.eq_nil_iff]

end Respelled

/-! ## Cuts -/

/-- The occurrences of a character, with what is before and after them; either may be empty. -/
def splits (symbol : Char) : List Char → List (List Char × List Char)
  | [] => []
  | c :: rest =>
    let later := (splits symbol rest).map fun (left, right) => (c :: left, right)
    if c = symbol then ([], rest) :: later else later

theorem cuts_eq_filter (symbol : Char) (text : List Char) :
    Grammar.cuts symbol text =
      (splits symbol text).filter fun cut => cut.1 ≠ [] ∧ cut.2 ≠ [] := by
  induction text with
  | nil => rfl
  | cons a text ih =>
      cases text with
      | nil => by_cases here : a = symbol <;> simp [Grammar.cuts, splits, here]
      | cons b rest =>
          have later : splits symbol (a :: b :: rest) =
              (if a = symbol then [([], b :: rest)] else []) ++
                (splits symbol (b :: rest)).map fun cut => (a :: cut.1, cut.2) := by
            rw [splits]
            split <;> rfl
          have first : ((if a = symbol then [([], b :: rest)] else []).filter
              fun cut : List Char × List Char => cut.1 ≠ [] ∧ cut.2 ≠ []) = [] := by
            split <;> rfl
          rw [later, List.filter_append, first, List.nil_append, Grammar.cuts, ih, splits]
          by_cases here : b = symbol <;> by_cases last : rest = [] <;>
            simp [here, last, List.filter_map, Function.comp_def]

theorem eq_of_mem_splits {symbol : Char} {text left right : List Char}
    (member : (left, right) ∈ splits symbol text) : text = left ++ symbol :: right := by
  induction text generalizing left with
  | nil => cases member
  | cons c rest ih =>
      have either : (c = symbol ∧ left = [] ∧ right = rest) ∨
          ∃ l, (l, right) ∈ splits symbol rest ∧ left = c :: l := by
        rw [splits] at member
        split at member <;> simp_all [eq_comm]
      rcases either with ⟨rfl, rfl, rfl⟩ | ⟨l, later, rfl⟩
      · rfl
      · rw [ih later, List.cons_append]

theorem splits_append {symbol : Char} {a : List Char} (absent : symbol ∉ a) (u : List Char) :
    splits symbol (a ++ u) = (splits symbol u).map fun cut => (a ++ cut.1, cut.2) := by
  induction a with
  | nil => simp
  | cons c a ih =>
      rw [List.mem_cons, not_or] at absent
      rw [List.cons_append, splits, if_neg (Ne.symm absent.1), ih absent.2, List.map_map]
      rfl

/-- Two texts cut in two parts, the parts respelled. -/
def RespelledCut (cut cut' : List Char × List Char) : Prop :=
  Respelled cut.1 cut'.1 ∧ Respelled cut.2 cut'.2

namespace Respelled

variable {u v : List Char} {symbol : Char}

theorem forall₂_splits (stays : ¬ Allowed symbol) (respelled : Respelled u v) :
    List.Forall₂ RespelledCut (splits symbol u) (splits symbol v) := by
  induction respelled with
  | nil => exact .nil
  | @char c u v other rest ih =>
      have later : List.Forall₂ RespelledCut
          ((splits symbol u).map fun cut => (c :: cut.1, cut.2))
          ((splits symbol v).map fun cut => (c :: cut.1, cut.2)) := by
        rw [List.forall₂_map_left_iff, List.forall₂_map_right_iff]
        exact ih.imp fun _ _ parts => ⟨.char other parts.1, parts.2⟩
      by_cases here : c = symbol
      · rw [splits, splits, if_pos here, if_pos here]
        exact .cons ⟨.nil, rest⟩ later
      · rw [splits, splits, if_neg here, if_neg here]
        exact later
  | @run a b u v validA validB ends rest ih =>
      rw [splits_append (fun inside => stays (validA.2 symbol inside)),
        splits_append (fun inside => stays (validB.2 symbol inside)),
        List.forall₂_map_left_iff, List.forall₂_map_right_iff]
      -- The part before a cut of `u` begins as `u` does, so it ends the run, too.
      have before : ∀ cut ∈ splits symbol u, EndsRun cut.1 := fun cut member =>
        EndsRun.of_append (eq_of_mem_splits member ▸ ends)
      refine ((List.forall₂_and_left _ _).2 ⟨before, ih⟩).imp ?_
      rintro cut cut' ⟨begins, parts⟩
      exact ⟨.run validA validB begins parts.1, parts.2⟩

/-- **The cuts of respelled texts correspond one for one**, and so do their parts. -/
theorem forall₂_cuts (stays : ¬ Allowed symbol) (respelled : Respelled u v) :
    List.Forall₂ RespelledCut (Grammar.cuts symbol u) (Grammar.cuts symbol v) := by
  rw [cuts_eq_filter, cuts_eq_filter]
  refine List.rel_filter ?_ (respelled.forall₂_splits stays)
  intro cut cut' parts
  simp only [decide_eq_true_eq, ne_eq, parts.1.eq_nil_iff, parts.2.eq_nil_iff]

end Respelled

/-! ## Parentheses -/

theorem rel_map {α β γ δ : Type} {R : α → β → Prop} {S : γ → δ → Prop} {f : α → γ} {g : β → δ}
    {x : Option α} {y : Option β} (related : Option.Rel R x y)
    (step : ∀ a ∈ x, ∀ b, R a b → S (f a) (g b)) : Option.Rel S (x.map f) (y.map g) := by
  cases related with
  | none => exact .none
  | some here => exact .some (step _ rfl _ here)

namespace Respelled

variable {u v : List Char}

theorem closeFrom (respelled : Respelled u v) (depth : Nat) :
    Option.Rel RespelledCut (Text.closeFrom depth u) (Text.closeFrom depth v) := by
  induction respelled generalizing depth with
  | nil => exact .none
  | @char c u v stays rest ih =>
      have pass (d : Nat) : Option.Rel RespelledCut
          ((Text.closeFrom d u).map fun cut => (c :: cut.1, cut.2))
          ((Text.closeFrom d v).map fun cut => (c :: cut.1, cut.2)) :=
        rel_map (ih d) fun _ _ _ parts => ⟨.char stays parts.1, parts.2⟩
      unfold Text.closeFrom
      by_cases closing : c = ')'
      · rw [if_pos closing, if_pos closing]
        cases depth with
        | zero => exact .some ⟨.nil, rest⟩
        | succ outer => exact pass outer
      · by_cases opening : c = '('
        · rw [if_neg closing, if_neg closing, if_pos opening, if_pos opening]
          exact pass (depth + 1)
        · rw [if_neg closing, if_neg closing, if_neg opening, if_neg opening]
          exact pass depth
  | @run a b u v validA validB ends rest ih =>
      rw [Grammar.closeFrom_literal validA.2, Grammar.closeFrom_literal validB.2]
      refine rel_map (ih depth) fun cut closed _ parts => ⟨?_, parts.2⟩
      have begins : EndsRun cut.1 := EndsRun.of_append (eq_of_closeFrom closed ▸ ends)
      exact .run validA validB begins parts.1

/-- **The parentheses that respelled texts start with correspond**, contents and remainders. -/
theorem group? (respelled : Respelled u v) :
    Option.Rel RespelledCut (Text.group? u) (Text.group? v) := by
  cases respelled with
  | nil => exact .none
  | @char c u v stays rest =>
      by_cases opening : c = '('
      · subst opening
        exact rest.closeFrom 0
      · rw [Grammar.group?_eq_none (by simpa using opening),
          Grammar.group?_eq_none (by simpa using opening)]
        exact .none
  | run validA validB =>
      rw [Grammar.group?_eq_none (Grammar.head?_literal_ne validA _),
        Grammar.group?_eq_none (Grammar.head?_literal_ne validB _)]
      exact .none

end Respelled

end OperatorTree.Text
