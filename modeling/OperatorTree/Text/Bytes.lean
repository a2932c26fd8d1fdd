/-
# OperatorTree.Text.Bytes -- texts by the bytes that encode them

A text is kept as its bytes in UTF-8, and a position in it counts bytes.  A byte
can be read at any position that has one.  A part of the text can be taken out only
between two positions with whole characters before them (`Boundary`, `slice?`).

`matchingParenthesis` finds the parenthesis that closes the first one of a text, and
looks at nothing but the bytes.
-/

namespace OperatorTree.Text

set_option autoImplicit false

/-- The bytes of a text. -/
def bytes (text : List Char) : List UInt8 :=
  text.flatMap String.utf8EncodeChar

/-- The number of bytes of a text. -/
def size (text : List Char) : Nat :=
  (bytes text).length

/-- The text before the position consists of whole characters. -/
def Boundary (text : List Char) (i : Nat) : Prop :=
  ∃ before after, text = before ++ after ∧ size before = i

/-- The two sides of a position, if it is a boundary. -/
def splitBytes? : Nat → List Char → Option (List Char × List Char)
  | 0, text => some ([], text)
  | _ + 1, [] => none
  | i + 1, c :: text =>
    if c.utf8Size ≤ i + 1 then
      (splitBytes? (i + 1 - c.utf8Size) text).map fun (left, right) => (c :: left, right)
    else none

/-- The part of a text from one position to another, if both are boundaries and the
first is not after the second. -/
def slice? (text : List Char) (start stop : Nat) : Option (List Char) := do
  guard (start ≤ stop)
  let (_, rest) ← splitBytes? start text
  let (part, _) ← splitBytes? (stop - start) rest
  return part

/-- The position of the parenthesis that closes the outermost of `depth` open ones. -/
def matchingFrom (depth i : Nat) : List UInt8 → Option Nat
  | [] => none
  | b :: rest =>
    if b = '('.toUInt8 then matchingFrom (depth + 1) (i + 1) rest
    else if b = ')'.toUInt8 then
      match depth with
      | 0 => none
      | outer + 1 => if outer = 0 then some i else matchingFrom outer (i + 1) rest
    else matchingFrom depth (i + 1) rest

/-- The position of the parenthesis that closes the one that a text starts with. -/
def matchingParenthesis (text : List Char) : Option Nat :=
  matchingFrom 0 0 (bytes text)

end OperatorTree.Text
