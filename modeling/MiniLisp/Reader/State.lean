import MiniLisp.Decimal.Basic
import MiniLisp.Reader.Error
import MiniLisp.Text.Quoted
import MiniLisp.Value.Basic

/-!
# The reading automaton

Reading goes through a text once, character by character, with a stack. The stack holds the forms
that have been opened and wait for data, the innermost first; the mode says which token the reader
is in the middle of. To see where a token ends the reader looks at the characters ahead, so that
every token is finished by its own last character, and one character finishes at most one datum.

* `deliver`: what a finished datum does to the open forms.
* `close`: what a closing bracket does to them.
* `State.step`: one character.
* `State.atEnd?`: what is wrong if the text ends here.
-/

namespace MiniLisp.Reader

/-- A form that has been opened and waits for a datum. -/
inductive Open where
  /-- Brackets with the elements read so far, the latest first. -/
  | bracket (bracket : Bracket) (start : Location) (elements : List Value)
  /-- A caret that waits for the hash-map behind it. -/
  | caret (start : Location)
  /-- A short notation that waits for its datum; `extra` comes after the datum. -/
  | target (sugar : Sugar) (start : Location) (extra : List Value)

/-- The token that the reader is in the middle of, with the characters read so far, the latest
first. -/
inductive Mode where
  /-- Between two tokens. -/
  | gap
  /-- In a comment, up to the end of the line. -/
  | comment
  /-- In a string. -/
  | string (start : Location) (chars : List Char)
  /-- In a string, behind a backslash. -/
  | escape (start : Location) (chars : List Char) (slash : Location)
  /-- In a symbol. -/
  | symbol (start : Location) (chars : List Char)
  /-- In a keyword, behind its colon. -/
  | keyword (start : Location) (chars : List Char)
  /-- In a number, behind its point if `point` holds. -/
  | number (start : Location) (value : Decimal) (point : Bool)
  /-- Between the two characters of the mark for splicing. -/
  | splice (start : Location)

/-- The state of reading within a datum. -/
structure State where
  mode : Mode
  stack : List Open

/-- What one character leads to. -/
inductive Step where
  | reading (state : State)
  | datum (value : Value)
  | failed (error : ReadError)

/-- The state before the first character of a datum. -/
def State.initial : State := ⟨.gap, []⟩

/-- Opens a form. -/
def State.push (s : State) (form : Open) : Step :=
  .reading ⟨.gap, form :: s.stack⟩

/-- Hands a finished datum to the innermost open form. A short notation is finished by it and
becomes a datum in its turn; if no form is open, the datum is what was to be read. -/
def deliver (v : Value) : List Open → Step
  | [] => .datum v
  | .bracket bracket start elements :: stack =>
    .reading ⟨.gap, .bracket bracket start (v :: elements) :: stack⟩
  | .caret start :: stack => .reading ⟨.gap, .target .withMeta start [v] :: stack⟩
  | .target sugar start extra :: stack =>
    deliver (.list start (.symbol start sugar.name :: v :: extra)) stack

/-- The value of a pair of brackets. A hash-map needs a value for each key, and the last key is
blamed if it has none. -/
def build (bracket : Bracket) (start : Location) (elements : List Value) : Except ReadError Value :=
  match bracket with
  | .list => .ok (.list start elements)
  | .vector => .ok (.vector start elements)
  | .map =>
    match Value.pairs elements with
    | .ok entries => .ok (.map start entries)
    | .error key => .error ⟨.missingMapValue, key.location⟩

/-- Closes the innermost open form, if it is a pair of brackets that `c` closes. -/
def close (c : Char) (l : Location) : List Open → Step
  | .bracket bracket start elements :: stack =>
    if c = bracket.closer then
      match build bracket start elements.reverse with
      | .ok v => deliver v stack
      | .error e => .failed e
    else .failed ⟨.unexpectedCloser c, l⟩
  | _ => .failed ⟨.unexpectedCloser c, l⟩

/-- Whether the next character is in a class. -/
def nextIs (p : Char → Bool) (ahead : List Char) : Bool :=
  ahead.head?.any p

/-- Whether a number goes on: with a digit, or with a point and a digit if it has no point yet. -/
def numberGoesOn (point : Bool) : List Char → Bool
  | [] => false
  | c :: ahead => Decimal.isDigit c || (!point && c = '.' && nextIs Decimal.isDigit ahead)

/-- The value that a spelling without other meaning names: a literal or a symbol. -/
def nameValue (start : Location) (name : String) : Value :=
  if name = "true" then .bool start true
  else if name = "false" then .bool start false
  else if name = "nil" then .nil start
  else .symbol start name

/-- One more character of a symbol. -/
def symbolChar (start : Location) (chars : List Char) (c : Char) (ahead : List Char)
    (stack : List Open) : Step :=
  if nextIs isSymbolChar ahead then .reading ⟨.symbol start (c :: chars), stack⟩
  else deliver (nameValue start (String.ofList (c :: chars).reverse)) stack

/-- A keyword, finished or not, of which the characters `chars` have been read. -/
def keywordChars (start : Location) (chars : List Char) (ahead : List Char) (stack : List Open) :
    Step :=
  if nextIs isSymbolChar ahead then .reading ⟨.keyword start chars, stack⟩
  else deliver (.keyword start (String.ofList chars.reverse)) stack

/-- One more digit of a number. -/
def numberDigit (start : Location) (value : Decimal) (point : Bool) (c : Char) (ahead : List Char)
    (stack : List Open) : Step :=
  let value := if point then value.pushPlace c else value.pushDigit c
  if numberGoesOn point ahead then .reading ⟨.number start value point, stack⟩
  else deliver (.number start value.toFloat) stack

/-- The first character of a token, or one between two tokens. -/
def State.begin (s : State) (l : Location) (c : Char) (ahead : List Char) : Step :=
  match c with
  | ';' => .reading ⟨.comment, s.stack⟩
  | '(' => s.push (.bracket .list l [])
  | '[' => s.push (.bracket .vector l [])
  | '{' => s.push (.bracket .map l [])
  | ')' => close c l s.stack
  | ']' => close c l s.stack
  | '}' => close c l s.stack
  | '"' => .reading ⟨.string l [], s.stack⟩
  | '\'' => s.push (.target .quote l [])
  | '\x60' => s.push (.target .quasiquote l [])
  | '@' => s.push (.target .deref l [])
  | '~' =>
    if nextIs (· = '@') ahead then .reading ⟨.splice l, s.stack⟩
    else s.push (.target .unquote l [])
  | '^' =>
    if nextIs (· = '{') ahead then s.push (.caret l) else symbolChar l [] c ahead s.stack
  | ':' => keywordChars l [] ahead s.stack
  | '-' =>
    if nextIs Decimal.isDigit ahead then .reading ⟨.number l ⟨true, 0, 0⟩ false, s.stack⟩
    else symbolChar l [] c ahead s.stack
  | _ =>
    if isSeparator c then .reading s
    else if Decimal.isDigit c then numberDigit l ⟨false, 0, 0⟩ false c ahead s.stack
    else symbolChar l [] c ahead s.stack

/-- One character `c` at the location `l`, with the characters `ahead` behind it. -/
def State.step (s : State) (l : Location) (c : Char) (ahead : List Char) : Step :=
  match s.mode with
  | .gap => s.begin l c ahead
  | .comment => .reading ⟨if c = '\n' then .gap else .comment, s.stack⟩
  | .string start chars =>
    if c = '"' then deliver (.string start (String.ofList chars.reverse)) s.stack
    else if c = '\\' then .reading ⟨.escape start chars l, s.stack⟩
    else .reading ⟨.string start (c :: chars), s.stack⟩
  | .escape start chars slash =>
    match Text.unescape c with
    | some d => .reading ⟨.string start (d :: chars), s.stack⟩
    | none => .failed ⟨.unknownEscape c, slash⟩
  | .symbol start chars => symbolChar start chars c ahead s.stack
  | .keyword start chars => keywordChars start (c :: chars) ahead s.stack
  | .number start value point =>
    if c = '.' then .reading ⟨.number start value true, s.stack⟩
    else numberDigit start value point c ahead s.stack
  | .splice start => s.push (.target .spliceUnquote start [])

/-- What is wrong if the text ends in this state: a string or an open form is unfinished, and the
innermost is blamed. -/
def State.atEnd? (s : State) : Option ReadError :=
  match s.mode with
  | .string start _ => some ⟨.unterminatedString, start⟩
  | .escape start _ _ => some ⟨.unterminatedString, start⟩
  | _ =>
    match s.stack with
    | [] => none
    | .bracket bracket start _ :: _ => some ⟨.unterminated bracket, start⟩
    | .caret start :: _ => some ⟨.missingTarget .withMeta, start⟩
    | .target sugar start _ :: _ => some ⟨.missingTarget sugar, start⟩

end MiniLisp.Reader
