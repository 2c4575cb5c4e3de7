import MiniLisp.Options
import MiniLisp.Session

/-!
# Launching

What the program does with its arguments: a script is read from a file and run in a fresh session;
without one the program talks to its user. How files are read is a parameter.
-/

namespace MiniLisp

/-- Why a file has no text. -/
inductive FileError where
  | missing
  | directory
  | notADirectory
  | longName
  | zeroInPath
  | notText
  | other (reason : String)
deriving DecidableEq, Repr

/-- The error in words. -/
def FileError.message : FileError → String
  | .missing => "io error: No such file or directory (os error 2)"
  | .directory => "io error: Is a directory (os error 21)"
  | .notADirectory => "io error: Not a directory (os error 20)"
  | .longName => "io error: File name too long (os error 36)"
  | .zeroInPath => "io error: file name contained an unexpected NUL byte"
  | .notText => "io error: stream did not contain valid UTF-8"
  | .other reason => "io error: " ++ reason

/-- The text that a file with these bytes holds. -/
def decodeText (bytes : ByteArray) : Except FileError String :=
  match String.fromUTF8? bytes with
  | some text => .ok text
  | none => .error .notText

/-- Why launching failed. -/
inductive LaunchError where
  | usage (error : UsageError)
  | file (error : FileError)
  | stopped (stop : Stop)
deriving DecidableEq, Repr

/-- Evaluates the text of a script in a session. -/
def Session.runScript (s : Session) (depth : Nat) (text : Except FileError String) :
    Except LaunchError Unit × Session :=
  match text with
  | .error e => (.error (.file e), s)
  | .ok text =>
    let outcome := s.perform (runText depth text)
    match outcome.result with
    | .error stop => (.error (.stopped stop), outcome.session)
    | .ok _ => (.ok (), outcome.session)

/-- What the program is asked to do. -/
inductive Task where
  | console (settings : Settings)
  | script (settings : Settings) (path : String)
deriving DecidableEq, Repr

/-- The task that the arguments ask for. -/
def Task.ofArguments (arguments : List String) : Except UsageError Task :=
  (Options.parse arguments).map fun o =>
    match o.script with
    | none => .console o.settings
    | some path => .script o.settings path

end MiniLisp
