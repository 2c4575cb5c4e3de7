import MiniLisp.Console
import MiniLisp.Launch

/-!
# The program

Reads the arguments, then runs a script or talks to the user line by line.
-/

namespace MiniLisp

/-- How deep forms and calls may nest in the program: deeper than the machine can go. -/
def programDepth : Nat := 1000000000000

/-- The bytes of a file. -/
def readFile (path : String) : IO (Except FileError ByteArray) := do
  try
    return .ok (← IO.FS.readBinFile path)
  catch
    | .noFileOrDirectory .. => return .error .missing
    | .inappropriateType _ code _ =>
      return .error (if code = 21 then .directory else .notADirectory)
    | .invalidArgument _ code _ => return .error (if code = 22 then .zeroInPath else .longName)
    | e => return .error (.other (toString e))

/-- Why the program failed, in words. -/
def LaunchError.message : LaunchError → String
  | .usage e => e.message
  | .file e => e.message
  | .stopped (.failed failure) => failure.message
  | .stopped .stuck => "evaluation is stuck"
  | .stopped .tooDeep => "evaluation is too deep"

/-- What the program shows before each line. -/
def prompt : String := "user> "

/-- Prompts for a line and answers it, until the input ends. Nothing is kept of the lines: a plain
stream has no history. -/
partial def talk (input output : IO.FS.Stream) (colour : Bool) (console : Console Unit) : IO Unit := do
  output.putStr prompt
  output.flush
  let line ← input.getLine
  if line.isEmpty then
    output.putStrLn ""
  else
    let line := String.ofList (line.toList.reverse.dropWhile (· = '\n')).reverse
    let written := console.rows.length
    let console := console.enter (fun _ _ => ()) colour programDepth line
    for row in console.rows.drop written do
      output.putStrLn row
    match console.stopped with
    | some stop => output.putStrLn (LaunchError.stopped stop).message
    | none => talk input output colour console

/-- Does what the arguments ask for. -/
def launch (arguments : List String) : IO (Except LaunchError Unit) := do
  match Task.ofArguments arguments with
  | .error e => return .error (.usage e)
  | .ok (.console settings) =>
    let output ← IO.getStdout
    talk (← IO.getStdin) output (← output.isTty) (.fresh () settings)
    return .ok ()
  | .ok (.script settings path) =>
    let text := (← readFile path).bind decodeText
    return ((Session.fresh settings).runScript programDepth text).1

end MiniLisp

def main (arguments : List String) : IO UInt32 := do
  match ← MiniLisp.launch arguments with
  | .ok () => return 0
  | .error e =>
    IO.eprintln e.message
    return 1
