import MiniLisp.Eval
import MiniLisp.Reader.Basic

/-!
# Sessions

A session keeps one store from text to text, so what one text defines the next one can use.

* `answer`: the value of the first datum of a line. A failure is answered by a nothing that says
  why.
* `runText`: the value of the last datum of a text, all of whose data are evaluated in order up to
  the first failure.
-/

namespace MiniLisp

/-- A session: its store. -/
structure Session where
  store : Store

/-- What came of an evaluation: its result, the events in order, and the session after it. -/
structure Outcome (α : Type) where
  result : Except Stop α
  log : List Event
  session : Session

namespace Session

/-- A fresh session. -/
def fresh (settings : Settings) : Session :=
  ⟨.fresh settings⟩

/-- Performs an evaluation in a session. -/
def perform {α : Type} (s : Session) (evaluation : Eval α) : Outcome α :=
  let (result, machine) := evaluation.run ⟨s.store, []⟩
  ⟨result, machine.log.reverse, ⟨machine.store⟩⟩

end Session

open Eval

/-- Evaluates a value in the root frame. -/
def evaluate (depth : Nat) (v : Value) : Eval Value :=
  eval depth Store.rootFrame v

/-- Reads the first datum of a text. -/
def readDatum (text : String) : Eval Value :=
  match readFirst text with
  | .error e => stop (.failed (.unreadable e))
  | .ok v => do
    emit (.read v)
    return v

/-- Reads and evaluates the first datum of a text. -/
def evaluateFirst (depth : Nat) (text : String) : Eval Value := do
  evaluate depth (← readDatum text)

/-- The answer to a line: the value of its first datum, or a nothing that says what failed. -/
def answer (depth : Nat) (line : String) : Eval Value :=
  (evaluateFirst depth line).recover Failure.toNop

/-- Evaluates the data of a reading in order, up to the first failure. The result is the last value;
`last` is the value so far. -/
def runData (depth : Nat) (ending : Except ReadError Location) (last : Value) :
    List Value → Eval Value
  | [] =>
    match ending with
    | .ok location => do
      emit (.read (.nop location ""))
      return last
    | .error e => stop (.failed (.unreadable e))
  | v :: vs => do
    emit (.read v)
    let last ← evaluate depth v
    runData depth ending last vs

/-- Evaluates every datum of a text. The result is the last value: the empty nothing if there is
none. -/
def runText (depth : Nat) (text : String) : Eval Value :=
  let reading := Reading.ofText text
  runData depth reading.ending (.nop .start "") reading.data

end MiniLisp
