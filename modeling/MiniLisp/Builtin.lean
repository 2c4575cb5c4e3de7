import MiniLisp.Fault
import MiniLisp.Store
import MiniLisp.Value.Equality
import MiniLisp.Value.Text

/-!
# What the primitives compute

`Primitive.result?` gives the result of every primitive that needs no frame, and `Store.lambda?`
makes a closure. Both answer `none` where no rule fits the operands. That happens only if there are
too few of them, which a call rules out before.

Results are located at the head of the call; `if`, `do` and `quote` hand an operand on as it is.
-/

namespace MiniLisp

/-- The numbers that the operands are. The first operand that is none is to blame. -/
def numbers (operator : String) (head : Location) : List Value → Except Fault (List Float)
  | [] => .ok []
  | v :: vs =>
    match v.number? with
    | none => .error ⟨.typeMismatch operator .number v.tag, head⟩
    | some x => (numbers operator head vs).map (x :: ·)

/-- Whether a relation holds between each two neighbours. -/
def adjacent {α : Type} (r : α → α → Bool) : List α → Bool
  | [] => true
  | [_] => true
  | x :: y :: rest => r x y && adjacent r (y :: rest)

namespace Arithmetic

/-- The result of an operation on several numbers, taken from the left. A sum starts from the
negative zero and a product from one, which change nothing. Nothing is divided if a divisor is
zero. -/
def result? (operation : Arithmetic) (head : Location) (xs : List Float) :
    Option (Except Fault Float) :=
  match operation, xs with
  | .add, xs => some (.ok (xs.foldl (· + ·) (-0.0)))
  | .multiply, xs => some (.ok (xs.foldl (· * ·) 1.0))
  | .subtract, x :: xs => some (.ok (xs.foldl (· - ·) x))
  | .divide, x :: xs =>
    if xs.any (· == 0.0) then some (.error ⟨.divideByZero, head⟩)
    else some (.ok (xs.foldl (· / ·) x))
  | _, [] => none

end Arithmetic

/-- Whether the relation holds between two numbers. -/
def Comparison.holds (relation : Comparison) (x y : Float) : Bool :=
  match relation with
  | .greater => y < x
  | .greaterOrEqual => y ≤ x
  | .less => x < y
  | .lessOrEqual => x ≤ y

/-- The kind of value that is asked for. -/
def Question.tag : Question → Tag
  | .list => .list
  | .vector => .vector
  | .nil => .nil
  | .number => .number
  | .string => .string
  | .symbol => .symbol
  | .keyword => .keyword
  | .function => .function

/-- Whether a collection is empty, if the value is one; `nil` is an empty collection. -/
def Value.isEmpty? : Value → Option Bool
  | .list _ elements => some elements.isEmpty
  | .vector _ elements => some elements.isEmpty
  | .map _ entries => some entries.isEmpty
  | .nil _ => some true
  | _ => none

namespace Primitive

/-- The result of a primitive that needs no frame, for a call whose head stands at `head`. -/
def result? (p : Primitive) (head : Location) (operands : List Value) :
    Option (Except Fault Value) :=
  match p, operands with
  | .arithmetic operation, _ =>
    match numbers operation.name head operands with
    | .error f => some (.error f)
    | .ok xs => (operation.result? head xs).map fun r => r.map (.number head)
  | .compare relation, _ =>
    some ((numbers relation.name head operands).map fun xs =>
      .bool head (adjacent relation.holds xs))
  | .equal, _ => some (.ok (.bool head (adjacent Value.equal operands)))
  | .list, _ => some (.ok (.list head operands))
  | .vector, _ => some (.ok (.vector head operands))
  | .ask question, v :: _ => some (.ok (.bool head (v.tag = question.tag)))
  | .isEmpty, v :: _ =>
    match v.isEmpty? with
    | some b => some (.ok (.bool head b))
    | none => some (.error ⟨.typeMismatch "empty?" .collection v.tag, head⟩)
  | .count, v :: _ =>
    some (.ok (.number head (Float.ofNat ((v.elements?.map List.length).getD 0))))
  | .choose, test :: yes :: others =>
    some (.ok (if test.truthy then yes else others.head?.getD (.nil head)))
  | .last, _ => operands.getLast?.map .ok
  | .not, v :: _ => some (.ok (.bool head (!v.truthy)))
  | .quote, v :: _ => some (.ok v)
  | .print, _ =>
    some (.ok (.string head (String.ofList (Text.spaced (operands.map Value.spell)))))
  | _, _ => none

end Primitive

/-- The names that a list of parameters consists of. The first element that is no symbol is to
blame. -/
def parameterNames : List Value → Except Fault (List String)
  | [] => .ok []
  | v :: vs =>
    match v.symbol? with
    | none => .error ⟨.lambdaParameter v.tag, v.location⟩
    | some name => (parameterNames vs).map (name :: ·)

/-- The parameters that the first operand of `fn*` gives. -/
def parametersOf (head : Location) (v : Value) : Except Fault Parameters :=
  match v.elements? with
  | none => .error ⟨.lambdaParameters v.tag, v.location⟩
  | some elements =>
    match parameterNames elements with
    | .error f => .error f
    | .ok names =>
      match Parameters.ofNames names with
      | .error reason => .error ⟨.lambdaNames reason, head⟩
      | .ok parameters => .ok parameters

/-- Makes a closure over a frame from parameters and a body. Operands behind the body do not
matter. -/
def Store.lambda? (s : Store) (frame : FrameId) (head : Location) (operands : List Value) :
    Option (Except Fault Value × Store) :=
  match operands with
  | parameters :: body :: _ =>
    match parametersOf head parameters with
    | .error f => some (.error f, s)
    | .ok parameters =>
      let (identity, s) := s.newFunction
      some (.ok (.closure head identity parameters body frame), s)
  | _ => none

/-- The result of any primitive, and the store after it. -/
def Store.primitive? (s : Store) (frame : FrameId) (p : Primitive) (head : Location)
    (operands : List Value) : Option (Except Fault Value × Store) :=
  match p with
  | .lambda => s.lambda? frame head operands
  | _ => (p.result? head operands).map fun result => (result, s)

end MiniLisp
