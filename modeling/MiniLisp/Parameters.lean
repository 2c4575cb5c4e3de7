import MiniLisp.Arity

/-!
# Parameters of a closure

A closure names its arguments. An ampersand before the last name makes that name stand for all the
arguments that the names before do not take.
-/

namespace MiniLisp

/-- The names a closure gives to its arguments, and the name for the rest of them, if there is
one. -/
structure Parameters where
  positional : List String
  rest : Option String
deriving DecidableEq, Repr

/-- Why a list of names is no list of parameters. -/
inductive BadParameters where
  | tooManyAmpersands (count : Nat)
  | misplacedAmpersand
deriving DecidableEq, Repr

/-- What is wrong with the names, in words. -/
def BadParameters.message : BadParameters → String
  | .tooManyAmpersands count => "expected at most one '&', found " ++ toString count
  | .misplacedAmpersand => "'&' must be followed by exactly one parameter"

namespace Parameters

/-- The mark before the name for the rest. -/
def ampersand : String := "&"

/-- Reads a list of names as parameters. An ampersand may stand once, in the last place but one. -/
def ofNames (names : List String) : Except BadParameters Parameters :=
  match names.count ampersand with
  | 0 => .ok ⟨names, none⟩
  | 1 =>
    match names.reverse with
    | rest :: mark :: positional =>
      if mark = ampersand then .ok ⟨positional.reverse, some rest⟩
      else .error .misplacedAmpersand
    | _ => .error .misplacedAmpersand
  | count => .error (.tooManyAmpersands count)

/-- How many arguments the parameters take. Without a name for the rest, surplus arguments are
refused only if `strict` is on. -/
def arity (p : Parameters) (strict : Bool) : Arity :=
  match p.rest, strict with
  | none, true => .exactly p.positional.length
  | _, _ => .atLeast p.positional.length

/-- The parameters as they are written between the brackets. -/
def text (p : Parameters) : String :=
  let names := " ".intercalate p.positional
  match p.rest with
  | none => names
  | some rest => names ++ " & " ++ rest

end Parameters

end MiniLisp
