import MiniLisp.Session
import MiniLisp.Text.Blank

/-!
# The console

A console answers each line that it is given in one row and keeps a history. Blank lines are passed
over: they get no answer and leave no trace in the history. The terminal around it, which shows the
prompt and the line, is not part of it.
-/

namespace MiniLisp

/-- The text of an answer. On a coloured terminal a nothing is painted red. -/
def render (v : Value) (colour : Bool) : String :=
  if colour && v.isNop then "\x1b[31m" ++ v.text ++ "\x1b[0m" else v.text

/-- Whether a line has nothing but blanks. -/
def isBlankLine (line : String) : Bool :=
  line.toList.all Text.isBlank

/-- What a console has written and kept: the rows of its answers, the history, the session, and why
it stopped early if it did. What a history is, the terminal decides. -/
structure Console (History : Type) where
  rows : List String
  history : History
  session : Session
  stopped : Option Stop

namespace Console

variable {History : Type}

/-- A console before the first line. -/
def fresh (history : History) (settings : Settings) : Console History :=
  ⟨[], history, .fresh settings, none⟩

/-- Takes a line. How the terminal remembers a line and whether it shows colours are parameters. -/
def enter (remember : History → String → History) (colour : Bool) (depth : Nat)
    (c : Console History) (line : String) : Console History :=
  if c.stopped.isSome || isBlankLine line then c
  else
    let outcome := c.session.perform (answer depth line)
    let history := remember c.history line
    match outcome.result with
    | .ok v => ⟨c.rows ++ [render v colour], history, outcome.session, none⟩
    | .error stop => ⟨c.rows, history, outcome.session, some stop⟩

/-- Takes the lines in turn. -/
def enterAll (remember : History → String → History) (colour : Bool) (depth : Nat)
    (c : Console History) (lines : List String) : Console History :=
  lines.foldl (enter remember colour depth) c

end Console

end MiniLisp
