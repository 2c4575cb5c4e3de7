import MiniLisp.Decimal.Basic

/-!
# Number literals

A literal is a number as it is written: a minus or none, at least one digit, and perhaps a point
with at least one digit behind it.  Its value is a decimal, and reading it digit by digit comes to
the same decimal.

* `Literal.spell`: the characters of a literal.
* `pushDigits_eq`: what a row of digits does to a decimal.
-/

namespace MiniLisp.Decimal

/-- A number as it is written. -/
structure Literal where
  negative : Bool
  whole : List Char
  /-- The digits behind the point; there is no point if there are none. -/
  places : List Char
  whole_ne_nil : whole ≠ []
  isDigit_whole : ∀ c ∈ whole, isDigit c = true
  isDigit_places : ∀ c ∈ places, isDigit c = true

namespace Literal

/-- The characters of a literal. -/
def spell (w : Literal) : List Char :=
  (if w.negative then ['-'] else []) ++ w.whole ++
    (if w.places.isEmpty then [] else '.' :: w.places)

theorem spell_ne_nil (w : Literal) : w.spell ≠ [] := by
  simp [spell, w.whole_ne_nil]

/-- The number that a literal stands for. -/
def value (w : Literal) : Decimal :=
  ⟨w.negative, Nat.ofDigitChars 10 (w.whole ++ w.places) 0, -w.places.length⟩

end Literal

/-- The decimal with more digits, behind the point if `point` holds. -/
def pushDigits (d : Decimal) (point : Bool) (cs : List Char) : Decimal :=
  cs.foldl (fun d c => if point then d.pushPlace c else d.pushDigit c) d

theorem pushDigits_eq (point : Bool) : ∀ (cs : List Char) (d : Decimal),
    d.pushDigits point cs =
      ⟨d.negative, Nat.ofDigitChars 10 cs d.digits,
        d.exponent - if point then (cs.length : Int) else 0⟩ := by
  intro cs
  induction cs with
  | nil => intro d; cases point <;> simp [pushDigits]
  | cons c cs ih =>
    intro d
    show pushDigits _ point cs = _
    rw [ih, Nat.ofDigitChars_cons]
    cases point
    · rfl
    · simp only [if_true, pushPlace, pushDigit, List.length_cons, mk.injEq, true_and]
      refine ⟨rfl, ?_⟩
      omega

/-- The value of a literal, digit by digit. -/
theorem Literal.value_eq_pushDigits (w : Literal) :
    ((Decimal.mk w.negative 0 0).pushDigits false w.whole).pushDigits true w.places = w.value := by
  rw [pushDigits_eq, pushDigits_eq, Literal.value, Nat.ofDigitChars_append]
  simp

/-! ### Rows of digits -/

theorem mem_digits_of_isDigit {c : Char} (h : isDigit c = true) :
    c ∈ ['0', '1', '2', '3', '4', '5', '6', '7', '8', '9'] := by
  obtain ⟨h1, h2⟩ : '0' ≤ c ∧ c ≤ '9' := by simpa [isDigit] using h
  have h1 : 48 ≤ c.toNat := h1
  have h2 : c.toNat ≤ 57 := h2
  have hc : c.toNat = 48 ∨ c.toNat = 49 ∨ c.toNat = 50 ∨ c.toNat = 51 ∨ c.toNat = 52 ∨
      c.toNat = 53 ∨ c.toNat = 54 ∨ c.toNat = 55 ∨ c.toNat = 56 ∨ c.toNat = 57 := by omega
  rw [← Char.ofNat_toNat c]
  rcases hc with h | h | h | h | h | h | h | h | h | h <;> rw [h] <;> decide

theorem takeWhile_isDigit_append {ds r : List Char} (hds : ∀ c ∈ ds, isDigit c = true)
    (hr : r.head?.any isDigit = false) : (ds ++ r).takeWhile isDigit = ds := by
  rw [List.takeWhile_append_of_pos hds]
  cases r with
  | nil => exact List.append_nil ds
  | cons c r =>
    have hc : isDigit c = false := hr
    rw [List.takeWhile_cons_of_neg (by simp [hc]), List.append_nil]

theorem dropWhile_isDigit_append {ds r : List Char} (hds : ∀ c ∈ ds, isDigit c = true)
    (hr : r.head?.any isDigit = false) : (ds ++ r).dropWhile isDigit = r := by
  rw [List.dropWhile_append_of_pos hds]
  cases r with
  | nil => rfl
  | cons c r =>
    have hc : isDigit c = false := hr
    rw [List.dropWhile_cons_of_neg (by simp [hc])]

end MiniLisp.Decimal
