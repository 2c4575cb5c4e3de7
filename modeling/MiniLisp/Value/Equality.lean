import MiniLisp.Value.Basic

/-!
# Equality of values

Two values are equal if they are of one kind and have equal contents; where they stand does not
matter. A list is never equal to a vector. Functions are equal if they have one identity. Numbers
are compared as doubles: the two zeros are equal, and what is not a number is equal to nothing.
-/

namespace MiniLisp.Value

mutual

/-- Whether two values are equal. -/
def equal : Value → Value → Bool
  | .list _ us, .list _ vs => equalElements us vs
  | .vector _ us, .vector _ vs => equalElements us vs
  | .map _ us, .map _ vs => equalEntries us vs
  | .number _ x, .number _ y => x == y
  | .symbol _ x, .symbol _ y => x == y
  | .keyword _ x, .keyword _ y => x == y
  | .string _ x, .string _ y => x == y
  | .bool _ x, .bool _ y => x == y
  | .nil _, .nil _ => true
  | .primitive _ i _, .primitive _ j _ => i == j
  | .primitive _ i _, .closure _ j _ _ _ => i == j
  | .closure _ i _ _ _, .primitive _ j _ => i == j
  | .closure _ i _ _ _, .closure _ j _ _ _ => i == j
  | .nop _ x, .nop _ y => x == y
  | _, _ => false

/-- Whether two sequences are equal, element by element. -/
def equalElements : List Value → List Value → Bool
  | [], [] => true
  | u :: us, v :: vs => equal u v && equalElements us vs
  | _, _ => false

/-- Whether two hash-maps are equal, entry by entry in the order of writing. -/
def equalEntries : List (Value × Value) → List (Value × Value) → Bool
  | [], [] => true
  | (k, u) :: us, (l, v) :: vs => equal k l && equal u v && equalEntries us vs
  | _, _ => false

end

instance : BEq Value := ⟨equal⟩

end MiniLisp.Value
