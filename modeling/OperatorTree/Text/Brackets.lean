/-
# OperatorTree.Text.Brackets -- the parenthesis that closes another

`closeFrom depth text` reads on inside `depth + 1` open parentheses and cuts the
text at the one that closes the outermost of them: what stands before it, and
what follows.  `group? text` does so for a text that starts with an opening
parenthesis.  Other characters, operators included, count for nothing.
-/

namespace OperatorTree.Text

set_option autoImplicit false

/-- Cuts the text at the parenthesis that closes the outermost of `depth + 1` open
ones, or answers nothing if the text ends before it. -/
def closeFrom (depth : Nat) : List Char → Option (List Char × List Char)
  | [] => none
  | c :: text =>
    if c = ')' then
      match depth with
      | 0 => some ([], text)
      | outer + 1 => (closeFrom outer text).map fun (inner, rest) => (c :: inner, rest)
    else if c = '(' then (closeFrom (depth + 1) text).map fun (inner, rest) => (c :: inner, rest)
    else (closeFrom depth text).map fun (inner, rest) => (c :: inner, rest)

/-- The contents of the parentheses that a text starts with, and what follows them. -/
def group? : List Char → Option (List Char × List Char)
  | '(' :: text => closeFrom 0 text
  | _ => none

/-- Cutting loses nothing: the parts and the parenthesis between them are the text. -/
theorem eq_of_closeFrom {depth : Nat} {text inner rest : List Char}
    (closed : closeFrom depth text = some (inner, rest)) : text = inner ++ ')' :: rest := by
  induction text generalizing depth inner with
  | nil => simp [closeFrom] at closed
  | cons c text ih =>
    simp only [closeFrom] at closed
    split at closed
    · rename_i closing
      subst closing
      split at closed
      · simp_all
      · obtain ⟨⟨inner', rest'⟩, cut, same⟩ := Option.map_eq_some_iff.1 closed
        simp only [Prod.mk.injEq] at same
        obtain ⟨rfl, rfl⟩ := same
        simp [ih cut]
    · split at closed <;>
      · obtain ⟨⟨inner', rest'⟩, cut, same⟩ := Option.map_eq_some_iff.1 closed
        simp only [Prod.mk.injEq] at same
        obtain ⟨rfl, rfl⟩ := same
        simp [ih cut]

theorem eq_of_group? {text inner rest : List Char} (grouped : group? text = some (inner, rest)) :
    text = '(' :: inner ++ ')' :: rest := by
  unfold group? at grouped
  split at grouped
  · simp [eq_of_closeFrom grouped]
  · simp at grouped

end OperatorTree.Text
