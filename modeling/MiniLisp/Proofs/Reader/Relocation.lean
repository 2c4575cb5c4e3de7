import MiniLisp.Proofs.Reader.Halt

/-!
# Reading a text that stands elsewhere

What the reader makes of a text depends on where the text stands only through the locations that it
writes into the data.  To `relocate` something is to send every location in it through a function, at
any depth; if the function goes along with passing over characters, then reading from another place is
reading from here and relocating what comes of it.

* `relocate_deliver`, `relocate_close`: the open forms do not look at locations.
* `relocate_step`: one character.
* `scan_relocate`: **reading from another place relocates the data and the error**.
* `halt_relocate_congr`: without its locations, what is found is the same everywhere.
* `Location.down_next`: moving down some rows goes along with passing over characters.
-/

namespace MiniLisp

/-- The location so many rows further down. -/
def Location.down (n : Nat) (l : Location) : Location :=
  ⟨l.row + n, l.column⟩

theorem Location.down_next (n : Nat) (l : Location) (c : Char) :
    (l.next c).down n = (l.down n).next c := by
  unfold Location.next
  split
  · rw [Location.down, Location.down, Nat.add_right_comm]
  · rfl

namespace Value

mutual

/-- A value with every location in it, at any depth, sent through a function. -/
def relocate (f : Location → Location) : Value → Value
  | .list l elements => .list (f l) (relocateElements f elements)
  | .vector l elements => .vector (f l) (relocateElements f elements)
  | .map l entries => .map (f l) (relocateEntries f entries)
  | .number l value => .number (f l) value
  | .symbol l name => .symbol (f l) name
  | .keyword l name => .keyword (f l) name
  | .string l text => .string (f l) text
  | .bool l value => .bool (f l) value
  | .nil l => .nil (f l)
  | .primitive l identity code => .primitive (f l) identity code
  | .closure l identity parameters body frame =>
    .closure (f l) identity parameters (relocate f body) frame
  | .nop l message => .nop (f l) message

/-- The elements of a sequence, relocated. -/
def relocateElements (f : Location → Location) : List Value → List Value
  | [] => []
  | v :: vs => relocate f v :: relocateElements f vs

/-- The keys and values of a hash-map, relocated. -/
def relocateEntries (f : Location → Location) : List (Value × Value) → List (Value × Value)
  | [] => []
  | (k, v) :: es => (relocate f k, relocate f v) :: relocateEntries f es

end

variable (f : Location → Location)

theorem relocateElements_eq_map (vs : List Value) :
    relocateElements f vs = vs.map (relocate f) := by
  induction vs with
  | nil => rfl
  | cons v vs ih => rw [relocateElements, ih, List.map_cons]

theorem relocateEntries_eq_map (es : List (Value × Value)) :
    relocateEntries f es = es.map (Prod.map (relocate f) (relocate f)) := by
  induction es with
  | nil => rfl
  | cons e es ih =>
    obtain ⟨k, v⟩ := e
    rw [relocateEntries, ih]
    rfl

theorem relocate_list (l : Location) (vs : List Value) :
    (list l vs).relocate f = list (f l) (vs.map (relocate f)) := by
  rw [← relocateElements_eq_map]
  rfl

theorem relocate_vector (l : Location) (vs : List Value) :
    (vector l vs).relocate f = vector (f l) (vs.map (relocate f)) := by
  rw [← relocateElements_eq_map]
  rfl

theorem relocate_map (l : Location) (es : List (Value × Value)) :
    (map l es).relocate f = map (f l) (es.map (Prod.map (relocate f) (relocate f))) := by
  rw [← relocateEntries_eq_map]
  rfl

@[simp] theorem location_relocate (v : Value) : (v.relocate f).location = f v.location := by
  cases v <;> rfl

theorem pairs_relocate : ∀ vs : List Value, pairs (vs.map (relocate f)) =
    ((pairs vs).map (List.map (Prod.map (relocate f) (relocate f)))).mapError (relocate f)
  | [] => rfl
  | [_] => rfl
  | key :: value :: vs => by
    rw [List.map_cons, List.map_cons, pairs, pairs, pairs_relocate vs]
    cases pairs vs with
    | ok es => rfl
    | error v => rfl

end Value

/-- An error at the location that a function gives. -/
def ReadError.relocate (f : Location → Location) (e : ReadError) : ReadError :=
  ⟨e.cause, f e.location⟩

/-- A reading with every location in it sent through a function. -/
def Reading.relocate (f : Location → Location) (r : Reading) : Reading :=
  ⟨r.data.map (Value.relocate f), (r.ending.map f).mapError (ReadError.relocate f)⟩

namespace Reader

/-! ### States elsewhere -/

/-- An open form with every location in it sent through a function. -/
def Open.relocate (f : Location → Location) : Open → Open
  | .bracket kind start elements => .bracket kind (f start) (elements.map (Value.relocate f))
  | .caret start => .caret (f start)
  | .target sugar start extra => .target sugar (f start) (extra.map (Value.relocate f))

/-- A mode with every location in it sent through a function. -/
def Mode.relocate (f : Location → Location) : Mode → Mode
  | .gap => .gap
  | .comment => .comment
  | .string start chars => .string (f start) chars
  | .escape start chars slash => .escape (f start) chars (f slash)
  | .symbol start chars => .symbol (f start) chars
  | .keyword start chars => .keyword (f start) chars
  | .number start value point => .number (f start) value point
  | .splice start => .splice (f start)

/-- A state with every location in it sent through a function. -/
def State.relocate (f : Location → Location) (s : State) : State :=
  ⟨s.mode.relocate f, s.stack.map (Open.relocate f)⟩

/-- A step with every location in it sent through a function. -/
def Step.relocate (f : Location → Location) : Step → Step
  | .reading s => .reading (s.relocate f)
  | .datum v => .datum (v.relocate f)
  | .failed e => .failed (e.relocate f)

variable (f : Location → Location)

/-! ### Open forms -/

theorem relocate_deliver (v : Value) (k : List Open) :
    (deliver v k).relocate f = deliver (v.relocate f) (k.map (Open.relocate f)) := by
  induction k generalizing v with
  | nil => rfl
  | cons form k ih =>
    cases form with
    | bracket bracket start elements => rfl
    | caret start => rfl
    | target sugar start extra =>
      rw [deliver, ih, Value.relocate_list]
      rfl

theorem build_relocate (bracket : Bracket) (start : Location) (elements : List Value) :
    build bracket (f start) (elements.map (Value.relocate f)) =
      ((build bracket start elements).map (Value.relocate f)).mapError (ReadError.relocate f) := by
  cases bracket with
  | list => exact congrArg Except.ok (Value.relocate_list f start elements).symm
  | vector => exact congrArg Except.ok (Value.relocate_vector f start elements).symm
  | map =>
    rw [build, build, Value.pairs_relocate]
    cases Value.pairs elements with
    | ok es => exact congrArg Except.ok (Value.relocate_map f start es).symm
    | error key =>
      show Except.error _ = Except.error _
      rw [Value.location_relocate]
      rfl

theorem relocate_close (c : Char) (l : Location) (k : List Open) :
    (close c l k).relocate f = close c (f l) (k.map (Open.relocate f)) := by
  cases k with
  | nil => rfl
  | cons form k =>
    cases form with
    | bracket bracket start elements =>
      rw [List.map_cons, Open.relocate, close, close, ← List.map_reverse, build_relocate]
      split
      · cases build bracket start elements.reverse with
        | ok v => exact relocate_deliver f v k
        | error e => rfl
      · rfl
    | caret start => rfl
    | target sugar start extra => rfl

/-! ### One character -/

theorem relocate_nameValue (start : Location) (name : String) :
    (nameValue start name).relocate f = nameValue (f start) name := by
  unfold nameValue
  split
  · rfl
  · split
    · rfl
    · split
      · rfl
      · rfl

theorem relocate_symbolChar (start : Location) (chars : List Char) (c : Char) (ahead : List Char)
    (k : List Open) : (symbolChar start chars c ahead k).relocate f =
      symbolChar (f start) chars c ahead (k.map (Open.relocate f)) := by
  unfold symbolChar
  split
  · rfl
  · rw [relocate_deliver, relocate_nameValue]

theorem relocate_keywordChars (start : Location) (chars : List Char) (ahead : List Char)
    (k : List Open) : (keywordChars start chars ahead k).relocate f =
      keywordChars (f start) chars ahead (k.map (Open.relocate f)) := by
  unfold keywordChars
  split
  · rfl
  · exact relocate_deliver f _ k

theorem relocate_numberDigit (start : Location) (value : Decimal) (point : Bool) (c : Char)
    (ahead : List Char) (k : List Open) : (numberDigit start value point c ahead k).relocate f =
      numberDigit (f start) value point c ahead (k.map (Open.relocate f)) := by
  unfold numberDigit
  dsimp only
  split
  · rfl
  · exact relocate_deliver f _ k

theorem relocate_begin (k : List Open) (l : Location) (c : Char) (ahead : List Char) :
    (State.begin ⟨.gap, k⟩ l c ahead).relocate f =
      State.begin ⟨.gap, k.map (Open.relocate f)⟩ (f l) c ahead := by
  unfold State.begin
  -- Marks that only open something write down where they stand; the others reach the open forms.
  split
  · rfl
  · rfl
  · rfl
  · rfl
  · exact relocate_close f _ l k
  · exact relocate_close f _ l k
  · exact relocate_close f _ l k
  · rfl
  · rfl
  · rfl
  · rfl
  · dsimp only
    split
    · rfl
    · rfl
  · dsimp only
    split
    · rfl
    · exact relocate_symbolChar f l [] _ ahead k
  · exact relocate_keywordChars f l [] ahead k
  · dsimp only
    split
    · rfl
    · exact relocate_symbolChar f l [] _ ahead k
  · split
    · rfl
    · split
      · exact relocate_numberDigit f l _ false c ahead k
      · exact relocate_symbolChar f l [] c ahead k

/-- **The reader takes a character elsewhere as it takes it here.** -/
theorem relocate_step (s : State) (l : Location) (c : Char) (ahead : List Char) :
    (s.step l c ahead).relocate f = (s.relocate f).step (f l) c ahead := by
  obtain ⟨mode, k⟩ := s
  cases mode with
  | gap => exact relocate_begin f k l c ahead
  | comment =>
    unfold State.step
    show Step.reading _ = Step.reading _
    split
    · rfl
    · rfl
  | string start chars =>
    unfold State.step
    dsimp only [State.relocate, Mode.relocate]
    split
    · exact relocate_deliver f _ k
    · split
      · rfl
      · rfl
  | escape start chars slash =>
    unfold State.step
    dsimp only [State.relocate, Mode.relocate]
    cases Text.unescape c with
    | some d => rfl
    | none => rfl
  | symbol start chars => exact relocate_symbolChar f start chars c ahead k
  | keyword start chars => exact relocate_keywordChars f start (c :: chars) ahead k
  | number start value point =>
    unfold State.step
    dsimp only [State.relocate, Mode.relocate]
    split
    · rfl
    · exact relocate_numberDigit f start value point c ahead k
  | splice start => rfl

theorem atEnd?_relocate (s : State) :
    (s.relocate f).atEnd? = s.atEnd?.map (ReadError.relocate f) := by
  obtain ⟨mode, k⟩ := s
  cases mode with
  | string start chars => rfl
  | escape start chars slash => rfl
  | _ =>
    cases k with
    | nil => rfl
    | cons form k => cases form <;> rfl

/-! ### Whole texts -/

variable {f}

/-- **Reading from another place relocates the data and the error**, if the places go along with
passing over characters. -/
theorem scan_relocate (hf : ∀ (l : Location) (c : Char), f (l.next c) = (f l).next c) (s : State)
    (l : Location) (cs : List Char) :
    Reading.scan (s.relocate f) (f l) cs = (Reading.scan s l cs).relocate f := by
  induction cs generalizing s l with
  | nil =>
    rw [Reading.scan, Reading.scan, atEnd?_relocate]
    cases s.atEnd? with
    | none => rfl
    | some e => rfl
  | cons c cs ih =>
    rw [Reading.scan, Reading.scan, ← relocate_step, ← hf]
    cases s.step l c cs with
    | reading s => exact ih s (l.next c)
    | datum v =>
      have hrest : Reading.scan .initial (f (l.next c)) cs = _ := ih .initial (l.next c)
      dsimp only [Step.relocate]
      rw [hrest]
      rfl
    | failed e => rfl

/-! ### Without locations -/

/-- Where reading halts, with every location sent through a function. -/
def Halt.relocate (f : Location → Location) : Halt → Halt
  | .ended s l => .ended (s.relocate f) (f l)
  | .datum v c => .datum (v.relocate f) ⟨c.rest, f c.location⟩
  | .failed e c => .failed (e.relocate f) ⟨c.rest, f c.location⟩

/-- **Where reading halts does not depend on locations.**  If all of them are made one, then reading
from any place, in states that are the same but for locations, finds the same. -/
theorem halt_relocate_congr (hf : ∀ l l', f l = f l') (cs : List Char) :
    ∀ {s s' : State}, s.relocate f = s'.relocate f → ∀ l l' : Location,
      (s.halt l cs).relocate f = (s'.halt l' cs).relocate f := by
  induction cs with
  | nil =>
    intro s s' hs l l'
    rw [State.halt_nil, State.halt_nil, Halt.relocate, Halt.relocate, hs, hf l l']
  | cons c cs ih =>
    intro s s' hs l l'
    have hstep : (s.step l c cs).relocate f = (s'.step l' c cs).relocate f := by
      rw [relocate_step, relocate_step, hs, hf l l']
    rw [State.halt_cons, State.halt_cons]
    generalize s.step l c cs = step, s'.step l' c cs = step' at hstep
    cases step with
    | reading t =>
      cases step' with
      | reading t' => exact ih (Step.reading.inj hstep) _ _
      | _ => cases hstep
    | datum v =>
      cases step' with
      | datum v' =>
        rw [Step.halt_datum, Step.halt_datum, Halt.relocate, Halt.relocate, Step.datum.inj hstep,
          hf (l.next c) (l'.next c)]
      | _ => cases hstep
    | failed e =>
      cases step' with
      | failed e' =>
        rw [Step.halt_failed, Step.halt_failed, Halt.relocate, Halt.relocate, Step.failed.inj hstep,
          hf (l.next c) (l'.next c)]
      | _ => cases hstep

end Reader

end MiniLisp
