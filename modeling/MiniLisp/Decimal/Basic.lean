/-!
# Decimals

A `Decimal` is a signed natural number times a power of ten. It is what a number literal spells, and
its value is the nearest double: a half goes to the even neighbour, and what is too large becomes
infinite.
-/

namespace MiniLisp

/-- The number `± digits * 10 ^ exponent`. -/
structure Decimal where
  negative : Bool
  digits : Nat
  exponent : Int
deriving DecidableEq, Repr

namespace Decimal

/-- The nearest double. A negative zero keeps its sign. -/
def toFloat (d : Decimal) : Float :=
  let magnitude := Float.ofModel (Float.Model.ofScientific d.digits d.exponent)
  if d.negative then -magnitude else magnitude

/-- Whether `c` is one of the ten ASCII digits. -/
def isDigit (c : Char) : Bool :=
  '0' ≤ c && c ≤ '9'

/-- The number that a digit stands for. -/
def digitValue (c : Char) : Nat :=
  c.toNat - '0'.toNat

/-- The decimal with one more digit before the point. -/
def pushDigit (d : Decimal) (c : Char) : Decimal :=
  { d with digits := 10 * d.digits + digitValue c }

/-- The decimal with one more digit after the point. -/
def pushPlace (d : Decimal) (c : Char) : Decimal :=
  { d.pushDigit c with exponent := d.exponent - 1 }

end Decimal

end MiniLisp
