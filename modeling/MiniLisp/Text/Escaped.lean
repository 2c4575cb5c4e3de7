import MiniLisp.Text.Hidden

/-!
# Escaped text

The text of a dump shows every character of a string: a hidden character appears as its number, and
the common ones among them as a letter after a backslash.
-/

namespace MiniLisp.Text

/-- A character named by its number, in hexadecimal. -/
def numbered (c : Char) : List Char :=
  "\\u\x7b".toList ++ Nat.toDigits 16 c.toNat ++ ['}']

/-- How a dump shows the character `c` of a string. -/
def escapedChar (c : Char) : List Char :=
  if c = '\x00' then ['\\', '0']
  else if c = '\t' then ['\\', 't']
  else if c = '\n' then ['\\', 'n']
  else if c = '\r' then ['\\', 'r']
  else if c = '"' then ['\\', '"']
  else if c = '\\' then ['\\', '\\']
  else if isHidden c then numbered c
  else [c]

/-- A string as a dump shows it, between quotes. -/
def escaped (s : String) : String :=
  String.ofList ('"' :: (s.toList.flatMap escapedChar ++ ['"']))

end MiniLisp.Text
