import MiniLisp.Builtin
import MiniLisp.Machine

/-!
# Evaluation

Evaluation need not end, so it is bounded in depth: `eval depth` gives up with `Stop.tooDeep` where
forms and calls nest deeper than `depth`. Every rule is written for a given evaluator `recur` of the
parts of a form, and `eval` ties the knot.

* `evalForm`: a list with a head: a definition, local bindings or a call.
* `evalContents`: any other value: a symbol has the value it is bound to, vectors and hash-maps are
  evaluated by their contents, and all else stands for itself.
* `apply`: a call with operands in their final form.
-/

namespace MiniLisp

open Eval

/-- Evaluates the elements of a sequence in order. -/
def evalElements (recur : Evaluator) (frame : FrameId) : List Value → Eval (List Value)
  | [] => pure []
  | v :: vs => do
    let v ← recur frame v
    let vs ← evalElements recur frame vs
    return v :: vs

/-- Evaluates the values of a hash-map in order. The keys stay as they are. -/
def evalEntries (recur : Evaluator) (frame : FrameId) :
    List (Value × Value) → Eval (List (Value × Value))
  | [] => pure []
  | (key, v) :: entries => do
    let v ← recur frame v
    let entries ← evalEntries recur frame entries
    return (key, v) :: entries

/-- Evaluates a value by its contents. A list is not applied, but evaluated element by element. -/
def evalContents (recur : Evaluator) (frame : FrameId) (v : Value) : Eval Value := do
  emit (.evaluation v)
  match v with
  | .symbol .. => lookup frame v
  | .list location elements => return .list location (← evalElements recur frame elements)
  | .vector location elements => return .vector location (← evalElements recur frame elements)
  | .map location entries => return .map location (← evalEntries recur frame entries)
  | v => return v

/-- A definition: binds the first operand, a symbol, to the value of the second. -/
def define (recur : Evaluator) (frame : FrameId) (head : Location) (operands : List Value) :
    Eval Value :=
  match operands with
  | [key, value] =>
    match key.symbol? with
    | none => fail .defineKey key.location
    | some name => do
      let v ← recur frame value
      update fun s => s.insert frame name v
      return v
  | _ => fail (.defineCount operands.length) head

/-- Binds the key of each pair in a frame, in which the values are evaluated too, so that a value
may refer to the keys before. -/
def bindPairs (recur : Evaluator) (frame : FrameId) : List (Value × Value) → Eval Unit
  | [] => pure ()
  | (key, value) :: pairs =>
    match key.symbol? with
    | none => fail (.letKey key.tag) key.location
    | some name => do
      let v ← recur frame value
      update fun s => s.insert frame name v
      bindPairs recur frame pairs

/-- Local bindings: binds the pairs of the first operand in a frame of their own and evaluates the
second one there. -/
def bindLocally (recur : Evaluator) (frame : FrameId) (head : Location) (operands : List Value) :
    Eval Value :=
  match operands with
  | [bindings, body] =>
    match bindings.elements? with
    | none => fail (.letBindings bindings.tag) bindings.location
    | some elements =>
      match Value.pairs elements with
      | .error _ => fail (.letUnpaired elements.length) bindings.location
      | .ok pairs => do
        let inner ← spawn frame
        bindPairs recur inner pairs
        recur inner body
  | _ => fail (.letCount operands.length) head

/-- Calls a primitive. A wrong number of operands is no call. -/
def callPrimitive (frame : FrameId) (head : Location) (code : Primitive) (operands : List Value) :
    Eval Value := do
  if code.arity.contains operands.length then
    emit (.call code operands)
    match (← getStore).primitive? frame code head operands with
    | none => stop .stuck
    | some (.ok result, store) =>
      update fun _ => store
      emit (.returned code result)
      return result
    | some (.error f, store) =>
      update fun _ => store
      emit (.failed code f)
      stop (.failed (.fault f))
  else fail (.argumentCount (.primitive code) code.arity operands.length) head

/-- What a call of a closure binds: each positional name to its operand and the name for the rest,
if there is one, to the list of the operands behind. There is no rule for too few operands. -/
def Parameters.bind? (p : Parameters) (head : Location) (operands : List Value) :
    Option (List (String × Value)) :=
  let count := p.positional.length
  if operands.length < count then none
  else
    let positional := p.positional.zip (operands.take count)
    match p.rest with
    | none => some positional
    | some rest => some (positional ++ [(rest, .list head (operands.drop count))])

/-- Calls a closure: binds the operands in a new frame inside the one the closure was made in, and
evaluates the body there. -/
def callClosure (recur : Evaluator) (head : Location) (parameters : Parameters) (body : Value)
    (captured : FrameId) (operands : List Value) : Eval Value := do
  emit (.closureCall parameters operands)
  let arity := parameters.arity ((← getStore).settings captured).strictArity
  if arity.contains operands.length then
    let inner ← spawn captured
    match parameters.bind? head operands with
    | none => stop .stuck
    | some pairs =>
      update fun s => s.insertAll inner pairs
      recur inner body
  else fail (.argumentCount .closure arity operands.length) head

/-- Calls the function `head` with operands in their final form. Nothing is no operand. -/
def apply (recur : Evaluator) (frame : FrameId) (head : Value) (operands : List Value) :
    Eval Value :=
  match operands.find? Value.isNop with
  | some nothing => fail .nopOperand nothing.location
  | none =>
    match head with
    | .primitive location _ code => callPrimitive frame location code operands
    | .closure location _ parameters body captured =>
      callClosure recur location parameters body captured operands
    | _ => fail (.notAFunction head.tag) head.location

/-- How a function gets its operands. -/
def Value.passing? : Value → Option Passing
  | .primitive _ _ code => some code.passing
  | .closure .. => some .evaluated
  | _ => none

/-- The symbol at the head of a definition. -/
def defineName : String := "def!"

/-- The symbol at the head of local bindings. -/
def letName : String := "let*"

/-- Evaluates a list with a head. The names of the two special forms are never looked up. -/
def evalForm (recur : Evaluator) (frame : FrameId) (form head : Value) (operands : List Value) :
    Eval Value := do
  emit (.application form)
  if head.symbol? = some defineName then
    let v ← define recur frame head.location operands
    match operands with
    | [] => stop .stuck
    | key :: _ =>
      emit (.definition key v)
      return v
  else if head.symbol? = some letName then
    bindLocally recur frame head.location operands
  else
    let function ← recur frame head
    match function.passing? with
    | none => fail (.notAFunction function.tag) function.location
    | some .unevaluated => apply recur frame function operands
    | some .evaluated =>
      let operands ← evalElements recur frame operands
      apply recur frame function operands

/-- One level of evaluation. The empty list stands for itself. -/
def evalStep (recur : Evaluator) : Evaluator := fun frame v =>
  match v with
  | .list _ [] => pure v
  | .list _ (head :: operands) => evalForm recur frame v head operands
  | _ => evalContents recur frame v

/-- Evaluates a value in a frame, at most `depth` levels deep. -/
def eval : (depth : Nat) → Evaluator
  | 0 => fun _ _ => stop .tooDeep
  | depth + 1 => evalStep (eval depth)

end MiniLisp
