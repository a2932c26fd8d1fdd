/-
# OperatorTree.Grammar.Cuts -- the places where a text may be cut at a symbol

A cut of a text at a symbol is one occurrence of the symbol with something
before it and something after it, given as these two parts.  `cuts` lists them
from left to right; `mem_cuts` says that it lists exactly those.

Most searches stop at one of the first cuts, so a search goes through the
positions of the cuts and forms the two parts only where it looks
(`map_cutAt_cutPositions`).
-/

namespace OperatorTree.Grammar

set_option autoImplicit false

/-- The cuts of a text at a symbol, from left to right. -/
def cuts (symbol : Char) : List Char → List (List Char × List Char)
  | a :: b :: rest =>
    let later := (cuts symbol (b :: rest)).map fun (left, right) => (a :: left, right)
    if b = symbol ∧ rest ≠ [] then ([a], rest) :: later else later
  | _ => []

theorem mem_cuts {symbol : Char} {text left right : List Char} :
    (left, right) ∈ cuts symbol text ↔
      text = left ++ symbol :: right ∧ left ≠ [] ∧ right ≠ [] := by
  induction text generalizing left with
  | nil => simp [cuts]
  | cons a text ih =>
    cases text with
    | nil =>
      simp only [cuts, List.not_mem_nil, false_iff]
      rintro ⟨same, leftSome, -⟩
      have := congrArg List.length same
      have := List.length_pos_iff.2 leftSome
      simp at *
      omega
    | cons b rest =>
      have later : (left, right) ∈ (cuts symbol (b :: rest)).map (fun c => (a :: c.1, c.2)) ↔
          ∃ l, left = a :: l ∧ b :: rest = l ++ symbol :: right ∧ l ≠ [] ∧ right ≠ [] := by
        simp only [List.mem_map, Prod.mk.injEq, Prod.exists]
        constructor
        · rintro ⟨l, r, member, rfl, rfl⟩
          exact ⟨l, rfl, ih.1 member⟩
        · rintro ⟨l, rfl, cut⟩
          exact ⟨l, right, ih.2 cut, rfl, rfl⟩
      have here : a :: b :: rest = left ++ symbol :: right ∧ left ≠ [] ∧ right ≠ [] ↔
          (left = [a] ∧ right = rest ∧ b = symbol ∧ rest ≠ []) ∨
            ∃ l, left = a :: l ∧ b :: rest = l ++ symbol :: right ∧ l ≠ [] ∧ right ≠ [] := by
        match left with
        | [] => simp
        | [x] => grind
        | x :: y :: l => grind
      rw [here, cuts]
      split
      · rename_i cut
        rw [List.mem_cons, later]
        simp only [Prod.mk.injEq, cut, true_and]
        grind
      · rename_i noCut
        rw [later]
        grind

/-! ## Cuts by their positions -/

/-- The two sides of a position, the character there left out. -/
def cutAt (text : List Char) (i : Nat) : List Char × List Char :=
  (text.take i, text.drop (i + 1))

theorem cutAt_length (left : List Char) (c : Char) (right : List Char) :
    cutAt (left ++ c :: right) left.length = (left, right) := by
  simp [cutAt]

/-- The positions of the cuts, counted from the given number on. -/
def cutPositionsFrom (symbol : Char) (i : Nat) : List Char → List Nat
  | _ :: b :: rest =>
    let later := cutPositionsFrom symbol (i + 1) (b :: rest)
    if b = symbol ∧ rest ≠ [] then (i + 1) :: later else later
  | _ => []

/-- The positions of the cuts of a text at a symbol, from left to right. -/
def cutPositions (symbol : Char) (text : List Char) : List Nat :=
  cutPositionsFrom symbol 0 text

theorem map_cutAt_cutPositionsFrom (symbol : Char) (before text : List Char) :
    (cutPositionsFrom symbol before.length text).map (cutAt (before ++ text)) =
      (cuts symbol text).map fun (left, right) => (before ++ left, right) := by
  induction text generalizing before with
  | nil => rfl
  | cons a text ih =>
    cases text with
    | nil => rfl
    | cons b rest =>
      have later := ih (before ++ [a])
      simp only [List.length_append, List.length_singleton, List.append_assoc,
        List.singleton_append] at later
      have here : cutAt (before ++ a :: b :: rest) (before.length + 1) = (before ++ [a], rest) := by
        simpa using cutAt_length (before ++ [a]) b rest
      rw [cuts, cutPositionsFrom]
      split
      · simp [here, later]
      · simp [later]

/-- The cuts are the two sides of their positions. -/
theorem map_cutAt_cutPositions (symbol : Char) (text : List Char) :
    (cutPositions symbol text).map (cutAt text) = cuts symbol text := by
  simpa [cutPositions] using map_cutAt_cutPositionsFrom symbol [] text

/-- Both parts of a cut are shorter than the text, and by two at least. -/
theorem length_of_mem_cuts {symbol : Char} {text : List Char} {cut : List Char × List Char}
    (member : cut ∈ cuts symbol text) :
    cut.1.length + 2 ≤ text.length ∧ cut.2.length + 2 ≤ text.length := by
  obtain ⟨rfl, leftSome, rightSome⟩ := mem_cuts.1 member
  have := List.length_pos_iff.2 leftSome
  have := List.length_pos_iff.2 rightSome
  simp only [List.length_append, List.length_cons]
  omega

theorem length_of_mem_cutPositions {symbol : Char} {text : List Char} {i : Nat}
    (member : i ∈ cutPositions symbol text) :
    (cutAt text i).1.length + 2 ≤ text.length ∧ (cutAt text i).2.length + 2 ≤ text.length :=
  length_of_mem_cuts (map_cutAt_cutPositions symbol text ▸ List.mem_map_of_mem member)

end OperatorTree.Grammar
