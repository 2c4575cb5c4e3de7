import MiniLisp.Text.Blank

/-!
# Marks

The characters that give a text its structure: brackets, the marks that stand for a form around the
next datum, and the classes of characters between which the reader tells.
-/

namespace MiniLisp

/-- The three kinds of brackets. -/
inductive Bracket where
  | list
  | vector
  | map
deriving DecidableEq, Repr

/-- The character that closes a bracket. -/
def Bracket.closer : Bracket → Char
  | .list => ')'
  | .vector => ']'
  | .map => '}'

/-- What a pair of brackets encloses, in words. -/
def Bracket.text : Bracket → String
  | .list => "list"
  | .vector => "vector"
  | .map => "hash-map"

/-- The forms that have a short notation in front of a datum. -/
inductive Sugar where
  | quote
  | quasiquote
  | unquote
  | spliceUnquote
  | deref
  | withMeta
deriving DecidableEq, Repr

/-- The symbol at the head of the form that the short notation stands for. -/
def Sugar.name : Sugar → String
  | .quote => "quote"
  | .quasiquote => "quasiquote"
  | .unquote => "unquote"
  | .spliceUnquote => "splice-unquote"
  | .deref => "deref"
  | .withMeta => "with-meta"

/-- Whether a character only separates data: a blank or a comma. -/
def isSeparator (c : Char) : Bool :=
  Text.isBlank c || c = ','

/-- Whether a character ends the symbol before it although it is no separator. -/
def isDelimiter (c : Char) : Bool :=
  c = '(' || c = ')' || c = '[' || c = ']' || c = '{' || c = '}' || c = '"' || c = ';'

/-- Whether a character can stand in a symbol. -/
def isSymbolChar (c : Char) : Bool :=
  !(isSeparator c || isDelimiter c)

end MiniLisp
