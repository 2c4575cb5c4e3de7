import MiniLisp.Location
import MiniLisp.Parameters
import MiniLisp.Primitive

/-!
# Values

A value is both a piece of a program and what the program computes with. Every value carries the
location where it was written or made.

A function is known by its identity: a number that a store gives out once. A closure refers to the
frame that it was made in by the frame's number, so a value is finite even if the frame binds it.

* `Value.ind`: induction over values, with the hypothesis for every element of a sequence, for every
  key and value of a hash-map and for the body of a closure.
-/

namespace MiniLisp

/-- The number of a frame in a store. -/
abbrev FrameId := Nat

/-- The number that tells a function from every other one. -/
abbrev FunctionId := Nat

/-- A value, with the location where it was written or made. -/
inductive Value where
  | list (location : Location) (elements : List Value)
  | vector (location : Location) (elements : List Value)
  | map (location : Location) (entries : List (Value × Value))
  | number (location : Location) (value : Float)
  | symbol (location : Location) (name : String)
  | keyword (location : Location) (name : String)
  | string (location : Location) (text : String)
  | bool (location : Location) (value : Bool)
  | nil (location : Location)
  | primitive (location : Location) (identity : FunctionId) (code : Primitive)
  | closure (location : Location) (identity : FunctionId) (parameters : Parameters) (body : Value)
      (frame : FrameId)
  | nop (location : Location) (message : String)

/-- The kind of a value. -/
inductive Tag where
  | list
  | vector
  | map
  | number
  | symbol
  | keyword
  | string
  | bool
  | nil
  | function
  | nop
deriving DecidableEq, Repr

/-- The kind in words. -/
def Tag.text : Tag → String
  | .list => "list"
  | .vector => "vector"
  | .map => "hash-map"
  | .number => "number"
  | .symbol => "symbol"
  | .keyword => "keyword"
  | .string => "string"
  | .bool => "bool"
  | .nil => "nil"
  | .function => "function"
  | .nop => "nop"

namespace Value

/-- **Induction over values.** -/
@[induction_eliminator, elab_as_elim]
theorem ind {motive : Value → Prop}
    (list : ∀ location elements, (∀ v ∈ elements, motive v) → motive (.list location elements))
    (vector : ∀ location elements, (∀ v ∈ elements, motive v) → motive (.vector location elements))
    (map : ∀ location entries, (∀ e ∈ entries, motive e.1 ∧ motive e.2) →
      motive (.map location entries))
    (number : ∀ location value, motive (.number location value))
    (symbol : ∀ location name, motive (.symbol location name))
    (keyword : ∀ location name, motive (.keyword location name))
    (string : ∀ location text, motive (.string location text))
    (bool : ∀ location value, motive (.bool location value))
    (nil : ∀ location, motive (.nil location))
    (primitive : ∀ location identity code, motive (.primitive location identity code))
    (closure : ∀ location identity parameters body frame, motive body →
      motive (.closure location identity parameters body frame))
    (nop : ∀ location message, motive (.nop location message))
    (v : Value) : motive v :=
  @Value.rec motive (fun vs => ∀ v ∈ vs, motive v)
    (fun es => ∀ e ∈ es, motive e.1 ∧ motive e.2) (fun e => motive e.1 ∧ motive e.2)
    list vector map number symbol keyword string bool nil primitive closure nop
    (by simp) (fun _ _ hv hvs => by simpa using ⟨hv, hvs⟩)
    (by simp) (fun _ _ he hes => by
      intro e h
      rcases List.mem_cons.mp h with rfl | h
      · exact he
      · exact hes e h)
    (fun _ _ hk hv => ⟨hk, hv⟩) v

/-- Where a value was written or made. -/
def location : Value → Location
  | .list l _ | .vector l _ | .map l _ | .number l _ | .symbol l _ | .keyword l _ | .string l _
  | .bool l _ | .nil l | .primitive l _ _ | .closure l _ _ _ _ | .nop l _ => l

/-- The same value at another location. What it contains stays where it is. -/
def moveTo (v : Value) (l : Location) : Value :=
  match v with
  | .list _ elements => .list l elements
  | .vector _ elements => .vector l elements
  | .map _ entries => .map l entries
  | .number _ value => .number l value
  | .symbol _ name => .symbol l name
  | .keyword _ name => .keyword l name
  | .string _ text => .string l text
  | .bool _ value => .bool l value
  | .nil _ => .nil l
  | .primitive _ identity code => .primitive l identity code
  | .closure _ identity parameters body frame => .closure l identity parameters body frame
  | .nop _ message => .nop l message

/-- The kind of a value. -/
def tag : Value → Tag
  | .list .. => .list
  | .vector .. => .vector
  | .map .. => .map
  | .number .. => .number
  | .symbol .. => .symbol
  | .keyword .. => .keyword
  | .string .. => .string
  | .bool .. => .bool
  | .nil .. => .nil
  | .primitive .. => .function
  | .closure .. => .function
  | .nop .. => .nop

/-- The number that a value is. -/
def number? : Value → Option Float
  | .number _ value => some value
  | _ => none

/-- The name of a symbol. -/
def symbol? : Value → Option String
  | .symbol _ name => some name
  | _ => none

/-- The elements of a list or a vector. -/
def elements? : Value → Option (List Value)
  | .list _ elements => some elements
  | .vector _ elements => some elements
  | _ => none

/-- The identity of a function. -/
def identity? : Value → Option FunctionId
  | .primitive _ identity _ => some identity
  | .closure _ identity _ _ _ => some identity
  | _ => none

/-- The name under which a function appears in messages. -/
def functionName? : Value → Option String
  | .primitive _ _ code => some code.name
  | .closure .. => some "closure"
  | _ => none

/-- Whether a value is `nil`. -/
def isNil : Value → Bool
  | .nil _ => true
  | _ => false

/-- Whether a value is nothing: what stands for no answer, or for an answer that failed. -/
def isNop : Value → Bool
  | .nop .. => true
  | _ => false

/-- Whether a value counts as true: everything but `nil` and `false` does. -/
def truthy : Value → Bool
  | .nil _ => false
  | .bool _ value => value
  | _ => true

@[simp] theorem location_moveTo (v : Value) (l : Location) : (v.moveTo l).location = l := by
  cases v <;> rfl

@[simp] theorem tag_moveTo (v : Value) (l : Location) : (v.moveTo l).tag = v.tag := by
  cases v <;> rfl

/-- Splits a sequence into pairs. If it has an odd length, the element left over comes back. -/
def pairs : List Value → Except Value (List (Value × Value))
  | [] => .ok []
  | [key] => .error key
  | key :: value :: rest => (pairs rest).map ((key, value) :: ·)

end Value

end MiniLisp
