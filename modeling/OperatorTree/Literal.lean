/-
# OperatorTree.Literal -- which texts are literals

A literal is a non-empty run of allowed characters.  Allowed is everything but
the operators, the parentheses and most other ASCII punctuation: letters,
digits, every kind of white space and all of Unicode beyond ASCII count alike,
so `x`, `12` and `x1 y` are each one literal.
-/

namespace OperatorTree

set_option autoImplicit false

/-- The characters that no literal contains, in the order in which they are listed to users. -/
def disallowed : List Char :=
  ['*', '+', '~', '`', '!', '@', '#', '$', '%', '^', '&', '(', ')', '-', '_', '=', '{', '[', '}',
    ']', ':', ';', '"', '\\', '\'', '?', '/', '>', '.', '<', ',', '|']

/-- A character may stand in a literal unless it is listed as disallowed. -/
def Allowed (c : Char) : Prop :=
  c ∉ disallowed

instance (c : Char) : Decidable (Allowed c) :=
  inferInstanceAs (Decidable (c ∉ disallowed))

/-- A text is a literal when it has a character and each of its characters is allowed. -/
def IsLiteral (text : List Char) : Prop :=
  text ≠ [] ∧ ∀ c ∈ text, Allowed c

-- The walk over the text is named: left to a search, the check may come to try every character
-- there is and not only those of the text.
instance (text : List Char) : Decidable (IsLiteral text) :=
  @instDecidableAnd (text ≠ []) (∀ c ∈ text, Allowed c) _ (List.decidableBAll Allowed text)

theorem isLiteral_singleton {c : Char} : IsLiteral [c] ↔ Allowed c := by
  simp [IsLiteral]

end OperatorTree
