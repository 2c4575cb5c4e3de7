import MiniLisp.Decimal.Basic

/-!
# The shortest decimal of a double

Among the decimals that read back as a given double, `Decimal.shortest` takes one with the fewest
digits, and of those the nearest to the double; of two equally near the larger. It looks for it on
coarser and then finer grids. On the grid with `count` digits only the two neighbours of the exact
value matter: if any point of the grid reads back, one of them does.

All arithmetic is exact: the double is the fraction `num / den` of natural numbers. Seventeen digits
always suffice; were they not enough, the exact expansion of the double would be taken instead, so
the result reads back in any case.
-/

namespace MiniLisp.Decimal

/-- How many digits `n` is written with. -/
def digitCount (n : Nat) : Nat :=
  (Nat.toDigits 10 n).length

/-- A positive fraction of natural numbers. -/
structure Fraction where
  num : Nat
  den : Nat

namespace Fraction

/-- The fraction `mantissa * 2 ^ exponent`. -/
def ofBinary (mantissa : Nat) (exponent : Int) : Fraction :=
  match exponent with
  | .ofNat e => ⟨mantissa * Nat.pow 2 e, 1⟩
  | .negSucc e => ⟨mantissa, Nat.pow 2 (e + 1)⟩

/-- The fraction times `10 ^ k`. -/
def scale (q : Fraction) (k : Int) : Fraction :=
  match k with
  | .ofNat k => ⟨q.num * Nat.pow 10 k, q.den⟩
  | .negSucc k => ⟨q.num, q.den * Nat.pow 10 (k + 1)⟩

/-- The number of digits before the point: `10 ^ (width - 1) ≤ q < 10 ^ width`. It is at most zero
for a fraction below one. -/
def width (q : Fraction) : Int :=
  let guess : Int := digitCount q.num - digitCount q.den
  let scaled := q.scale (-guess)
  if scaled.den ≤ scaled.num then guess + 1 else guess

end Fraction

/-- The same number with no power of ten above one: what its positional text spells. -/
def spread (d : Decimal) : Decimal :=
  match d.exponent with
  | .ofNat e => { d with digits := d.digits * Nat.pow 10 e, exponent := 0 }
  | .negSucc _ => d

/-- Whether the positional text of a decimal reads back as `x`. -/
def readsBack (x : Float) (d : Decimal) : Bool :=
  d.spread.toFloat == x

/-- The decimal with `count` digits that reads back as the positive double `x`, whose exact value is
`q`, if there is one. Of two such decimals the nearer is taken, and a tie goes up. -/
def shortestAt (x : Float) (q : Fraction) (count : Nat) : Option Decimal :=
  let exponent := q.width - count
  let scaled := q.scale (-exponent)
  let floor := scaled.num / scaled.den
  let below : Decimal := ⟨false, floor, exponent⟩
  let above : Decimal :=
    if floor + 1 = Nat.pow 10 count then ⟨false, 1, q.width⟩ else ⟨false, floor + 1, exponent⟩
  match readsBack x below, readsBack x above with
  | true, true => if 2 * (scaled.num % scaled.den) < scaled.den then some below else some above
  | true, false => some below
  | false, true => some above
  | false, false => none

/-- The exact value of `mantissa * 2 ^ exponent`: a half is five tenths. -/
def exact (mantissa : Nat) (exponent : Int) : Decimal :=
  match exponent with
  | .ofNat e => ⟨false, mantissa * Nat.pow 2 e, 0⟩
  | .negSucc e => ⟨false, mantissa * Nat.pow 5 (e + 1), .negSucc e⟩

/-- The shortest decimal that reads back as the positive double `mantissa * 2 ^ exponent`. -/
def shortest (x : Float) (mantissa : Nat) (exponent : Int) : Decimal :=
  let q := Fraction.ofBinary mantissa exponent
  ((List.range' 1 17).findSome? (shortestAt x q)).getD (exact mantissa exponent)

end MiniLisp.Decimal
