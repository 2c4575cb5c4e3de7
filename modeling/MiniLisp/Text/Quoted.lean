/-!
# Quoted text

A string is written between quotes. Inside, a backslash, a quote and a line feed are written as a
backslash and a letter; an apostrophe may be read after a backslash but is never written so.

* `unescape_of_escape`: what is written for a character is read as that character.
-/

namespace MiniLisp.Text

/-- The letter that stands for `c` after a backslash, if `c` is not written as it is. -/
def escape (c : Char) : Option Char :=
  if c = '\\' then some '\\'
  else if c = '"' then some '"'
  else if c = '\n' then some 'n'
  else none

/-- The character that `c` stands for after a backslash. -/
def unescape (c : Char) : Option Char :=
  if c = '\\' then some '\\'
  else if c = '"' then some '"'
  else if c = 'n' then some '\n'
  else if c = '\'' then some '\''
  else none

theorem unescape_of_escape {c e : Char} (h : escape c = some e) : unescape e = some c := by
  unfold escape at h
  split at h
  · next hc => cases h; subst hc; rfl
  · split at h
    · next hc => cases h; subst hc; rfl
    · split at h
      · next hc => cases h; subst hc; rfl
      · cases h

/-- How a string writes the character `c`. -/
def quoteChar (c : Char) : List Char :=
  match escape c with
  | some e => ['\\', e]
  | none => [c]

/-- The text `cs` between quotes. -/
def quote (cs : List Char) : List Char :=
  '"' :: (cs.flatMap quoteChar ++ ['"'])

end MiniLisp.Text
