/-!
# Places in a text

A `Location` is the row and the column of a character. Rows and columns count from one, columns
count characters, and only a line feed starts a new row. Reading keeps the location of the next
unread character, and `Location.next` is what one character does to it.

* `Location.after_append`: passing over two texts in turn is passing over their concatenation.
-/

namespace MiniLisp

/-- The row and the column of a character of a text. -/
structure Location where
  row : Nat
  column : Nat
deriving DecidableEq, Repr

namespace Location

/-- Where the first character of a text stands. -/
def start : Location := ⟨1, 1⟩

/-- The location of what was never read from a text: the functions a session starts with. -/
def builtin : Location := ⟨0, 0⟩

/-- Where the character after `c` stands, if `c` stands at `l`. -/
def next (l : Location) (c : Char) : Location :=
  if c = '\n' then ⟨l.row + 1, 1⟩ else ⟨l.row, l.column + 1⟩

/-- Where the first character after the text `cs` stands, if `cs` begins at `l`. -/
def after (l : Location) (cs : List Char) : Location :=
  cs.foldl next l

@[simp] theorem after_nil (l : Location) : l.after [] = l := rfl

@[simp] theorem after_cons (l : Location) (c : Char) (cs : List Char) :
    l.after (c :: cs) = (l.next c).after cs := rfl

theorem after_append (l : Location) (cs ds : List Char) :
    l.after (cs ++ ds) = (l.after cs).after ds :=
  List.foldl_append

/-- The written form `row:column`. -/
def text (l : Location) : String :=
  toString l.row ++ ":" ++ toString l.column

end Location

end MiniLisp
