import MiniLisp.Decimal.Layout
import MiniLisp.Text.Quoted
import MiniLisp.Value.Basic

/-!
# Printed values

The text of a value, as the language prints it. Apart from functions, nothings and numbers that are
not finite, it is the notation that reads back as the value.
-/

namespace MiniLisp.Text

/-- The texts in a row, with a space between each two. -/
def spaced : List (List Char) → List Char
  | [] => []
  | t :: ts => t ++ ts.flatMap fun u => ' ' :: u

end MiniLisp.Text

namespace MiniLisp.Value

mutual

/-- The characters that a value is printed with. -/
def spell : Value → List Char
  | .list _ elements => '(' :: (Text.spaced (spellElements elements) ++ [')'])
  | .vector _ elements => '[' :: (Text.spaced (spellElements elements) ++ [']'])
  | .map _ entries => '{' :: (Text.spaced (spellEntries entries) ++ ['}'])
  | .number _ value => Decimal.plain value
  | .symbol _ name => name.toList
  | .keyword _ name => ':' :: name.toList
  | .string _ text => Text.quote text.toList
  | .bool _ value => if value then "true".toList else "false".toList
  | .nil _ => "nil".toList
  | .primitive .. => "(function)".toList
  | .closure .. => "(function)".toList
  | .nop _ message => message.toList

/-- The characters of each element of a sequence. -/
def spellElements : List Value → List (List Char)
  | [] => []
  | v :: vs => spell v :: spellElements vs

/-- The characters of each key and each value of a hash-map, in the order of writing. -/
def spellEntries : List (Value × Value) → List (List Char)
  | [] => []
  | (k, v) :: es => spell k :: spell v :: spellEntries es

end

theorem spellElements_eq_map (vs : List Value) : spellElements vs = vs.map spell := by
  induction vs with
  | nil => rfl
  | cons v vs ih => simp [spellElements, ih]

theorem spellEntries_eq_map (es : List (Value × Value)) :
    spellEntries es = (es.flatMap fun e => [e.1, e.2]).map spell := by
  induction es with
  | nil => rfl
  | cons e es ih =>
    obtain ⟨k, v⟩ := e
    rw [spellEntries, ih]
    rfl

theorem spell_list (l : Location) (vs : List Value) :
    (list l vs).spell = '(' :: (Text.spaced (vs.map spell) ++ [')']) := by
  rw [← spellElements_eq_map]
  rfl

theorem spell_vector (l : Location) (vs : List Value) :
    (vector l vs).spell = '[' :: (Text.spaced (vs.map spell) ++ [']']) := by
  rw [← spellElements_eq_map]
  rfl

theorem spell_map (l : Location) (es : List (Value × Value)) :
    (map l es).spell =
      '{' :: (Text.spaced ((es.flatMap fun e => [e.1, e.2]).map spell) ++ ['}']) := by
  rw [← spellEntries_eq_map]
  rfl

theorem spell_number (l : Location) (x : Float) : (number l x).spell = Decimal.plain x := rfl

/-- The text of a value. -/
def text (v : Value) : String :=
  String.ofList v.spell

end MiniLisp.Value
