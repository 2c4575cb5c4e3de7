import MiniLisp.Arity

/-!
# Primitives

The functions that every session starts with: their names, how many operands they take, and whether
they get the operands evaluated or as written. What they compute is in `MiniLisp.Builtin`.

* `Primitive.name_injective`: no two primitives share a name.
-/

namespace MiniLisp

/-- The four operations on numbers. -/
inductive Arithmetic where
  | add
  | subtract
  | multiply
  | divide
deriving DecidableEq, Repr

/-- The four order relations of numbers. -/
inductive Comparison where
  | greater
  | greaterOrEqual
  | less
  | lessOrEqual
deriving DecidableEq, Repr

/-- The kinds of value that can be asked for. -/
inductive Question where
  | list
  | vector
  | nil
  | number
  | string
  | symbol
  | keyword
  | function
deriving DecidableEq, Repr

/-- A function that every session starts with. -/
inductive Primitive where
  | arithmetic (operation : Arithmetic)
  | compare (relation : Comparison)
  | equal
  | list
  | vector
  | ask (question : Question)
  | isEmpty
  | count
  | choose
  | last
  | not
  | lambda
  | quote
  | print
deriving DecidableEq, Repr

/-- Whether a function gets its operands evaluated or as written. -/
inductive Passing where
  | evaluated
  | unevaluated
deriving DecidableEq, Repr

/-- The passing in words. -/
def Passing.text : Passing → String
  | .evaluated => "evaluated"
  | .unevaluated => "unevaluated"

/-- The sign of an operation. -/
def Arithmetic.name : Arithmetic → String
  | .add => "+"
  | .subtract => "-"
  | .multiply => "*"
  | .divide => "/"

/-- The sign of a relation. -/
def Comparison.name : Comparison → String
  | .greater => ">"
  | .greaterOrEqual => ">="
  | .less => "<"
  | .lessOrEqual => "<="

/-- The name of the function that asks. -/
def Question.name : Question → String
  | .list => "list?"
  | .vector => "vector?"
  | .nil => "nil?"
  | .number => "number?"
  | .string => "string?"
  | .symbol => "symbol?"
  | .keyword => "keyword?"
  | .function => "fn?"

namespace Primitive

/-- The name a primitive is bound to. -/
def name : Primitive → String
  | .arithmetic operation => operation.name
  | .compare relation => relation.name
  | .equal => "="
  | .list => "list"
  | .vector => "vector"
  | .ask question => question.name
  | .isEmpty => "empty?"
  | .count => "count"
  | .choose => "if"
  | .last => "do"
  | .not => "not"
  | .lambda => "fn*"
  | .quote => "quote"
  | .print => "pr-str"

/-- How many operands a primitive takes. -/
def arity : Primitive → Arity
  | .arithmetic _ => .atLeast 2
  | .compare _ => .atLeast 2
  | .equal => .atLeast 2
  | .list => .atLeast 0
  | .vector => .atLeast 0
  | .ask .list => .atLeast 1
  | .ask _ => .exactly 1
  | .isEmpty => .atLeast 1
  | .count => .atLeast 1
  | .choose => .between 2 3
  | .last => .atLeast 1
  | .not => .exactly 1
  | .lambda => .atLeast 2
  | .quote => .exactly 1
  | .print => .atLeast 0

/-- How a primitive gets its operands. -/
def passing : Primitive → Passing
  | .lambda => .unevaluated
  | .quote => .unevaluated
  | _ => .evaluated

/-- All primitives. -/
def all : List Primitive :=
  [.arithmetic .add, .arithmetic .subtract, .arithmetic .multiply, .arithmetic .divide,
    .compare .greater, .compare .greaterOrEqual, .compare .less, .compare .lessOrEqual, .equal,
    .list, .ask .list, .vector, .ask .vector, .isEmpty, .count,
    .choose, .last, .not, .lambda, .quote,
    .ask .nil, .ask .number, .ask .string, .ask .symbol, .ask .keyword, .ask .function,
    .print]

/-- The primitive of that name. -/
def ofName? (name : String) : Option Primitive :=
  all.find? fun p => p.name = name

theorem mem_all (p : Primitive) : p ∈ all := by
  cases p with
  | arithmetic operation => cases operation <;> decide
  | compare relation => cases relation <;> decide
  | ask question => cases question <;> decide
  | _ => decide

theorem name_injective {p q : Primitive} (h : p.name = q.name) : p = q := by
  have distinct : ∀ p ∈ all, ∀ q ∈ all, p.name = q.name → p = q := by decide
  exact distinct p (mem_all p) q (mem_all q) h

/-- A dump of a primitive. -/
def dump (p : Primitive) : String :=
  "primitive function #<" ++ p.name ++ ">"

end Primitive

end MiniLisp
