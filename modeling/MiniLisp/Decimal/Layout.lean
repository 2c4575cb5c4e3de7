import MiniLisp.Decimal.Shortest

/-!
# Written numbers

Two ways to write a double, both with its shortest digits. `Decimal.plain` is what the language
prints: positional, however long. `Decimal.dump` is what a dump shows: a point in every number, and
an exponent where a positional text would be long.
-/

namespace MiniLisp.Decimal

/-- The digits of a number. -/
def spellNat (n : Nat) : List Char :=
  Nat.toDigits 10 n

/-- The decimal `digits * 10 ^ exponent` written without an exponent. -/
def positional (digits : Nat) (exponent : Int) : List Char :=
  let ds := spellNat digits
  match exponent with
  | .ofNat e => ds ++ List.replicate e '0'
  | .negSucc e =>
    let places := e + 1
    if places < ds.length then
      ds.take (ds.length - places) ++ '.' :: ds.drop (ds.length - places)
    else
      '0' :: '.' :: (List.replicate (places - ds.length) '0' ++ ds)

/-- The decimal `digits * 10 ^ exponent` written with one digit before the point. -/
def exponential (digits : Nat) (exponent : Int) : List Char :=
  let ds := spellNat digits
  let tail := ds.drop 1
  let point := if tail.isEmpty then [] else '.' :: tail
  ds.take 1 ++ point ++ 'e' :: (toString (exponent + tail.length)).toList

/-- The sign of a number, if it is negative. -/
def spellSign : Float.Model.UnpackedFloat.Sign → List Char
  | .positive => []
  | .negative => ['-']

/-- The text of a double: not a number, the infinities and the zeros by name, and any other number
by its shortest decimal. -/
def spellFloat (zero : List Char) (finite : Decimal → List Char) (x : Float) : List Char :=
  match x.toModel.unpack with
  | .notANumber => "NaN".toList
  | .infinity sign => spellSign sign ++ "inf".toList
  | .zero sign => spellSign sign ++ zero
  | .finite sign mantissa exponent _ =>
    spellSign sign ++ finite (shortest x.abs mantissa exponent)

/-- A double as the language prints it: `3`, `0.1`, `-0`, `inf`. -/
def plain (x : Float) : List Char :=
  spellFloat ['0'] (fun d => positional d.digits d.exponent) x

/-- A dump writes an exponent from this many digits before the point on. -/
def dumpWidth : Int := 17

/-- A dump writes an exponent for numbers with this many zeros after the point. -/
def dumpZeros : Int := 4

/-- A decimal as a dump shows it: `3.0`, `0.1`, `1e16`, `1.25e-20`. -/
def dumpDecimal (d : Decimal) : List Char :=
  let width := d.exponent + digitCount d.digits
  if dumpWidth ≤ width || width ≤ -dumpZeros then exponential d.digits d.exponent
  else if d.exponent < 0 then positional d.digits d.exponent
  else positional d.digits d.exponent ++ ['.', '0']

/-- A double as a dump shows it. -/
def dump (x : Float) : List Char :=
  spellFloat ['0', '.', '0'] dumpDecimal x

end MiniLisp.Decimal
