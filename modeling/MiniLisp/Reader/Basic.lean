import MiniLisp.Reader.State

/-!
# Reading

A `Cursor` is a place in a text: how many bytes stand before it, and what is still unread.
`Cursor.next` reads the next datum from there; at the end of the text it answers with the empty
nothing. A failed attempt leaves the cursor behind the character that showed the error, so reading
can go on.

`Reading.ofText` reads a whole text: the data up to the end or to the first error.
-/

namespace MiniLisp

/-- The unread characters of a text and the location of the first of them. -/
structure Unread where
  rest : List Char
  location : Location
deriving DecidableEq, Repr

/-- A place in a text: what is unread there, and the number of bytes before it. -/
structure Cursor extends Unread where
  position : Nat
deriving DecidableEq, Repr

namespace Reader

/-- Reads on from a state, with `n` bytes read before, until a datum is finished, the text ends or an
error shows. -/
def State.run (s : State) (l : Location) (n : Nat) : List Char → Except ReadError Value × Cursor
  | [] =>
    match s.atEnd? with
    | none => (.ok (.nop l ""), ⟨⟨[], l⟩, n⟩)
    | some e => (.error e, ⟨⟨[], l⟩, n⟩)
  | c :: cs =>
    match s.step l c cs with
    | .reading s => s.run (l.next c) (n + c.utf8Size) cs
    | .datum v => (.ok v, ⟨⟨cs, l.next c⟩, n + c.utf8Size⟩)
    | .failed e => (.error e, ⟨⟨cs, l.next c⟩, n + c.utf8Size⟩)

end Reader

namespace Cursor

/-- The beginning of a text. -/
def ofText (text : String) : Cursor :=
  ⟨⟨text.toList, .start⟩, 0⟩

/-- Reads the next datum: the empty nothing if there is none. -/
def next (c : Cursor) : Except ReadError Value × Cursor :=
  Reader.State.initial.run c.location c.position c.rest

/-- Reads `n` times, also after an error or the end. -/
def nexts : Nat → Cursor → List (Except ReadError Value)
  | 0, _ => []
  | n + 1, c => let (result, c) := c.next; result :: nexts n c

end Cursor

/-- The data of a text in order, and how reading ended: at a location, or with an error. -/
structure Reading where
  data : List Value
  ending : Except ReadError Location

namespace Reading

/-- Reads on from a state until the text ends or an error shows. -/
def scan (s : Reader.State) (l : Location) : List Char → Reading
  | [] =>
    match s.atEnd? with
    | none => ⟨[], .ok l⟩
    | some e => ⟨[], .error e⟩
  | c :: cs =>
    match s.step l c cs with
    | .reading s => scan s (l.next c) cs
    | .datum v =>
      let reading := scan .initial (l.next c) cs
      ⟨v :: reading.data, reading.ending⟩
    | .failed e => ⟨[], .error e⟩

/-- Reads a whole text. -/
def ofText (text : String) : Reading :=
  scan .initial .start text.toList

/-- The results one after the other: the data, and the error if there is one. -/
def results (r : Reading) : List (Except ReadError Value) :=
  r.data.map .ok ++ (match r.ending with
    | .ok _ => []
    | .error e => [.error e])

end Reading

/-- Reads the first datum of a text: the empty nothing if there is none. -/
def readFirst (text : String) : Except ReadError Value :=
  (Cursor.ofText text).next.1

/-- Reads all data of a text. -/
def readAll (text : String) : Except ReadError (List Value) :=
  let reading := Reading.ofText text
  match reading.ending with
  | .ok _ => .ok reading.data
  | .error e => .error e

end MiniLisp
