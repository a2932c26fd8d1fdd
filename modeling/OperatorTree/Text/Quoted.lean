/-
# OperatorTree.Text.Quoted -- text in double quotes, with escapes

A quoted text is its characters between double quotes.  A double quote and a
backslash get a backslash before them; tab, line feed, carriage return and NUL
have letters of their own; any other unprintable character is written as its
code point in lower-case hexadecimal digits between braces, without leading
zeros; every other character stands for itself, an apostrophe included.
-/
import OperatorTree.Text.Unprintable

namespace OperatorTree.Text

set_option autoImplicit false

/-- The form of one character inside quoted text. -/
def escape (c : Char) : List Char :=
  if c = '"' then ['\\', '"']
  else if c = '\\' then ['\\', '\\']
  else if c = '\t' then ['\\', 't']
  else if c = '\n' then ['\\', 'n']
  else if c = '\r' then ['\\', 'r']
  else if c = '\x00' then ['\\', '0']
  else if Unprintable c then ['\\', 'u', '\x7b'] ++ Nat.toDigits 16 c.toNat ++ ['\x7d']
  else [c]

/-- The text between double quotes, each character in its escaped form. -/
def quoted (text : List Char) : List Char :=
  '"' :: text.flatMap escape ++ ['"']

end OperatorTree.Text
