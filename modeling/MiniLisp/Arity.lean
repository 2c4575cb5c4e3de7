/-!
# Arities

How many arguments a function takes: a number between two bounds, or any number from a bound on.
-/

namespace MiniLisp

/-- The numbers of arguments that a function takes. -/
inductive Arity where
  | between (least most : Nat)
  | atLeast (least : Nat)
deriving DecidableEq, Repr

namespace Arity

/-- Exactly `n` arguments. -/
def exactly (n : Nat) : Arity := .between n n

/-- Whether `n` arguments are taken. -/
def contains : Arity → Nat → Bool
  | .between least most, n => least ≤ n && n ≤ most
  | .atLeast least, n => least ≤ n

/-- The arity in words: `exactly 2`, `from 2 to 3`, `at least 1`. -/
def text : Arity → String
  | .between least most =>
    if least = most then "exactly " ++ toString least
    else "from " ++ toString least ++ " to " ++ toString most
  | .atLeast least => "at least " ++ toString least

@[simp] theorem contains_exactly (n m : Nat) : (exactly n).contains m = true ↔ m = n := by
  simp only [exactly, contains, Bool.and_eq_true, decide_eq_true_eq]
  omega

@[simp] theorem contains_atLeast (n m : Nat) : (atLeast n).contains m = true ↔ n ≤ m := by
  simp [contains]

end Arity

end MiniLisp
