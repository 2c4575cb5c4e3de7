import MiniLisp.Store

/-!
# Command line options

The arguments of the program: flags begin with two hyphens, and at most one argument is no flag, the
script to run.
-/

namespace MiniLisp

/-- What the command line asks for. -/
structure Options where
  settings : Settings
  script : Option String
deriving DecidableEq, Repr

/-- An argument that the program does not understand. -/
structure UsageError where
  argument : String
deriving DecidableEq, Repr

/-- The error in words, with how the program is used. -/
def UsageError.message (e : UsageError) : String :=
  "unexpected argument " ++ e.argument ++ "\nusage: tinylisp [--strict-arity] [FILE]"

namespace Options

/-- The options without any argument. -/
def default : Options := ⟨.default, none⟩

/-- The flag that turns the strict count of arguments on. -/
def strictFlag : String := "--strict-arity"

/-- Whether an argument is a flag. -/
def isFlag (argument : String) : Bool :=
  match argument.toList with
  | '-' :: '-' :: _ => true
  | _ => false

/-- Takes one more argument into account. -/
def accept (o : Options) (argument : String) : Except UsageError Options :=
  if argument = strictFlag then .ok { o with settings := ⟨true⟩ }
  else if isFlag argument || o.script.isSome then .error ⟨argument⟩
  else .ok { o with script := some argument }

/-- The options that the arguments behind the name of the program ask for. -/
def parse (arguments : List String) : Except UsageError Options :=
  arguments.foldlM accept default

end Options

end MiniLisp
