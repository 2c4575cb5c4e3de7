import MiniLisp.Fault
import MiniLisp.Value.Dump
import MiniLisp.Value.Text

/-!
# Events

What reading and evaluating report on the way. An event keeps the values themselves; `Event.message`
puts it into words.
-/

namespace MiniLisp

/-- What happened during reading or evaluating. -/
inductive Event where
  /-- A datum was read; the empty nothing at the end of a text counts too. -/
  | read (datum : Value)
  /-- A list is about to be evaluated as an application. -/
  | application (form : Value)
  /-- A value is about to be evaluated by its contents. -/
  | evaluation (value : Value)
  /-- A name was defined. -/
  | definition (key value : Value)
  /-- A primitive is called with operands whose number is right. -/
  | call (code : Primitive) (operands : List Value)
  /-- The called primitive has a result. -/
  | returned (code : Primitive) (result : Value)
  /-- The called primitive failed. -/
  | failed (code : Primitive) (fault : Fault)
  /-- A closure is called. -/
  | closureCall (parameters : Parameters) (operands : List Value)

/-- How important an event is. -/
inductive Level where
  | trace
  | debug
deriving DecidableEq, Repr

/-- The level in words. -/
def Level.text : Level → String
  | .trace => "TRACE"
  | .debug => "DEBUG"

/-- The operands of a call: one on the same line, several on lines of their own. -/
def operandsText : List Value → String
  | [] => "no args"
  | [v] => v.text
  | vs => String.join (vs.map fun v => "\n\t" ++ v.text)

namespace Event

/-- How important the event is. -/
def level : Event → Level
  | .definition .. => .debug
  | _ => .trace

/-- The event in words. -/
def message : Event → String
  | .read datum => "read " ++ datum.text ++ " at " ++ datum.location.text
  | .application form => "apply " ++ form.text
  | .evaluation value => "evaluate_ast " ++ value.dump
  | .definition key value => "define " ++ key.text ++ " as " ++ value.text
  | .call code operands => "Call " ++ code.name ++ " with " ++ operandsText operands
  | .returned code result => "Call to " ++ code.name ++ " resulted in " ++ result.text
  | .failed code fault => "Call to " ++ code.name ++ " failed: " ++ fault.message
  | .closureCall parameters operands =>
    "Call closure (" ++ parameters.text ++ ") with " ++ operandsText operands

end Event

end MiniLisp
