import MiniLisp.Location
import MiniLisp.Reader.Mark

/-!
# Errors of reading

Why a text could not be read, and where. An error is blamed on the character that is wrong or, if
the text ends too early, on the beginning of what is unfinished.
-/

namespace MiniLisp

/-- Why a text could not be read. -/
inductive ReadCause where
  | unterminated (bracket : Bracket)
  | unterminatedString
  | unknownEscape (c : Char)
  | missingMapValue
  | missingTarget (sugar : Sugar)
  | unexpectedCloser (c : Char)
deriving DecidableEq, Repr

/-- The cause in words. -/
def ReadCause.message : ReadCause → String
  | .unterminated bracket => "unterminated " ++ bracket.text
  | .unterminatedString => "unterminated string"
  | .unknownEscape c => "cannot parse \\" ++ c.toString
  | .missingMapValue => "hash-map key has no value"
  | .missingTarget sugar => sugar.name ++ " has no form to apply to"
  | .unexpectedCloser c => "unexpected '" ++ c.toString ++ "'"

/-- An error of reading. -/
structure ReadError where
  cause : ReadCause
  location : Location
deriving DecidableEq, Repr

/-- The error in words, with its location. -/
def ReadError.message (e : ReadError) : String :=
  e.cause.message ++ " at " ++ e.location.text

end MiniLisp
