import MiniLisp.Reader.Error
import MiniLisp.Value.Basic

/-!
# Faults

Why an evaluation has no value, and where. A `Failure` is a fault or an error of reading: what a
session reports instead of an answer.
-/

namespace MiniLisp

/-- What an operator asked for. -/
inductive Expected where
  | number
  | symbol
  | collection
deriving DecidableEq, Repr

/-- What was asked for, in words. -/
def Expected.text : Expected → String
  | .number => "number"
  | .symbol => "symbol"
  | .collection => "list, vector, hash-map or nil"

/-- Who was called with a wrong number of arguments. -/
inductive Callee where
  | primitive (code : Primitive)
  | closure
deriving DecidableEq, Repr

/-- The name of the callee. -/
def Callee.name : Callee → String
  | .primitive code => code.name
  | .closure => "closure"

/-- Why an evaluation has no value. -/
inductive Cause where
  | undefinedSymbol (name : String)
  | notAFunction (got : Tag)
  | nopOperand
  | defineCount (got : Nat)
  | defineKey
  | letCount (got : Nat)
  | letBindings (got : Tag)
  | letUnpaired (count : Nat)
  | letKey (got : Tag)
  | lambdaParameters (got : Tag)
  | lambdaParameter (got : Tag)
  | lambdaNames (reason : BadParameters)
  | typeMismatch (operator : String) (expected : Expected) (got : Tag)
  | argumentCount (callee : Callee) (expected : Arity) (got : Nat)
  | divideByZero
deriving DecidableEq, Repr

/-- The cause in words. -/
def Cause.message : Cause → String
  | .undefinedSymbol name => "'" ++ name ++ "' not found"
  | .notAFunction got => "Expect function. Got " ++ got.text
  | .nopOperand => "nothing cannot be used as an operand"
  | .defineCount got => "def!: expected exactly 2 arguments, got " ++ toString got
  | .defineKey => "def!: First parameter of def! should be a symbol name"
  | .letCount got => "let*: expected exactly 2 arguments, got " ++ toString got
  | .letBindings got => "let*: bindings should be a list or vector, got " ++ got.text
  | .letUnpaired count =>
    "let*: bindings should come in pairs, got " ++ toString count ++ " forms"
  | .letKey got => "let*: cannot bind to " ++ got.text
  | .lambdaParameters got => "fn*: parameters should be a list, got " ++ got.text
  | .lambdaParameter got => "fn*: parameter names should be symbols, got " ++ got.text
  | .lambdaNames reason => "fn*: " ++ reason.message
  | .typeMismatch operator expected got =>
    operator ++ ": expected " ++ expected.text ++ ", got " ++ got.text
  | .argumentCount callee expected got =>
    callee.name ++ ": expected " ++ expected.text ++ " arguments, got " ++ toString got
  | .divideByZero => "cannot divide by zero!"

/-- Why an evaluation has no value, and where. -/
structure Fault where
  cause : Cause
  location : Location
deriving DecidableEq, Repr

/-- The fault in words, with its location. -/
def Fault.message (f : Fault) : String :=
  f.cause.message ++ " at " ++ f.location.text

/-- What a session reports instead of an answer. -/
inductive Failure where
  | unreadable (error : ReadError)
  | fault (fault : Fault)
deriving DecidableEq, Repr

namespace Failure

/-- The failure in words. -/
def message : Failure → String
  | .unreadable e => "read error: " ++ e.message
  | .fault f => f.message

/-- Where the failure is blamed. -/
def location : Failure → Location
  | .unreadable e => e.location
  | .fault f => f.location

/-- The nothing that is shown in place of an answer. -/
def toNop (f : Failure) : Value :=
  .nop f.location f.message

end Failure

end MiniLisp
