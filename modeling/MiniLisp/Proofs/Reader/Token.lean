import MiniLisp.Reader.Basic

/-!
# Tokens

The first of two passes in which a text can be read: the text is cut into tokens, each with the
location of its first character.  Where a token ends is said by the longest text of its kind that
stands there, and not character by character.  The two passes are written down from the notation
alone: the classes of characters, the escapes, the value of a number and the places in a text are
spelled out here and taken from nowhere else.

* `Location.beyond`: the location behind a text.
* `skip`: what stands between two tokens.
* `takeToken`: one token.
* `tokens`: all tokens of a text.  If no token begins where one should, the error comes last.
-/

namespace MiniLisp

/-- The location behind a text that begins at `l`: a row for each line feed in it, and a column for
each character behind the last one. -/
def Location.beyond (l : Location) (cs : List Char) : Location :=
  if '\n' ∈ cs then ⟨l.row + cs.count '\n', 1 + (cs.reverse.takeWhile (· ≠ '\n')).length⟩
  else ⟨l.row, l.column + cs.length⟩

namespace Reader

/-- The smallest parts of a text that have a meaning. -/
inductive Token where
  | opener (bracket : Bracket)
  | closer (c : Char)
  /-- A short notation. -/
  | mark (sugar : Sugar)
  /-- A caret together with the brace behind it. -/
  | caret
  | string (text : String)
  | keyword (name : String)
  | number (value : Float)
  | name (name : String)
  /-- What cannot be a token. -/
  | error (error : ReadError)

/-- A token and where it begins. -/
structure Located where
  token : Token
  location : Location

/-! ### Characters -/

/-- Whether a character is white space: the line breaks and blanks of Unicode. -/
def isWhiteSpace (c : Char) : Bool :=
  c.toNat ∈ [0x9, 0xA, 0xB, 0xC, 0xD, 0x20, 0x85, 0xA0, 0x1680, 0x2000, 0x2001, 0x2002, 0x2003,
    0x2004, 0x2005, 0x2006, 0x2007, 0x2008, 0x2009, 0x200A, 0x2028, 0x2029, 0x202F, 0x205F, 0x3000]

/-- Whether a character can stand in a name. -/
def isNameChar (c : Char) : Bool :=
  !isWhiteSpace c && c ∉ ['(', ')', '[', ']', '{', '}', ',', '"', ';']

/-- What the character behind a backslash stands for. -/
def escaped : Char → Option Char
  | '"' => some '"'
  | '\\' => some '\\'
  | 'n' => some '\n'
  | '\'' => some '\''
  | _ => none

/-- The text behind separators and comments, if it begins inside a comment or not. -/
def skip (comment : Bool) (l : Location) : List Char → Unread
  | [] => ⟨[], l⟩
  | c :: cs =>
    if comment then skip (c != '\n') (l.beyond [c]) cs
    else if isWhiteSpace c || c = ',' then skip false (l.beyond [c]) cs
    else if c = ';' then skip true (l.beyond [c]) cs
    else ⟨c :: cs, l⟩

/-! ### Numbers -/

/-- The longest of the first `n` beginnings of a text that a predicate accepts. -/
def longestUpTo (p : List Char → Bool) (cs : List Char) : Nat → List Char
  | 0 => []
  | n + 1 => if p (cs.take (n + 1)) then cs.take (n + 1) else longestUpTo p cs n

/-- The longest beginning of a text that a predicate accepts. -/
def longestMatch (p : List Char → Bool) (cs : List Char) : List Char :=
  longestUpTo p cs cs.length

/-- Whether a text is a minus or none, at least one digit, and perhaps a point with at least one digit
behind it. -/
def isLiteral (cs : List Char) : Bool :=
  let unsigned := if cs.head? = some '-' then cs.tail else cs
  let behind := unsigned.dropWhile Char.isDigit
  !(unsigned.takeWhile Char.isDigit).isEmpty &&
    (behind.isEmpty ||
      (behind.head? = some '.' && !behind.tail.isEmpty && behind.tail.all Char.isDigit))

/-- The double nearest to what a literal spells: its digits as one number, divided by ten for each
place behind the point. -/
def literalValue (literal : List Char) : Float :=
  let digits := Nat.ofDigitChars 10 (literal.filter Char.isDigit) 0
  let places := (literal.dropWhile (· ≠ '.')).length - 1
  let magnitude := Float.ofModel (Float.Model.ofScientific digits (-(places : Int)))
  if literal.head? = some '-' then -magnitude else magnitude

/-! ### One token -/

/-- The characters of a string up to its closing quote, and what stands behind it. -/
def stringText (start l : Location) : List Char → Except ReadError (List Char × Unread)
  | [] => .error ⟨.unterminatedString, start⟩
  | c :: cs =>
    if c = '"' then .ok ([], ⟨cs, l.beyond [c]⟩)
    else if c = '\\' then
      match cs with
      | [] => .error ⟨.unterminatedString, start⟩
      | d :: ds =>
        match escaped d with
        | none => .error ⟨.unknownEscape d, l⟩
        | some e =>
          (stringText start (l.beyond [c, d]) ds).map fun p => (e :: p.1, p.2)
    else (stringText start (l.beyond [c]) cs).map fun p => (c :: p.1, p.2)

def stringToken (l : Location) (c : Char) (cs : List Char) : Token × Unread :=
  match stringText l (l.beyond [c]) cs with
  | .ok (text, behind) => (.string (String.ofList text), behind)
  | .error e => (.error e, ⟨[], l⟩)

def keywordToken (l : Location) (c : Char) (cs : List Char) : Token × Unread :=
  let name := cs.takeWhile isNameChar
  (.keyword (String.ofList name), ⟨cs.dropWhile isNameChar, l.beyond (c :: name)⟩)

def nameToken (l : Location) (c : Char) (cs : List Char) : Token × Unread :=
  let name := c :: cs.takeWhile isNameChar
  (.name (String.ofList name), ⟨cs.dropWhile isNameChar, l.beyond name⟩)

def numberToken (l : Location) (c : Char) (cs : List Char) : Token × Unread :=
  let literal := longestMatch isLiteral (c :: cs)
  (.number (literalValue literal), ⟨cs.drop (literal.length - 1), l.beyond literal⟩)

/-- The token that begins with the character `c`, and what stands behind it. -/
def takeToken (l : Location) (c : Char) (cs : List Char) : Token × Unread :=
  match c with
  | '(' => (.opener .list, ⟨cs, l.beyond [c]⟩)
  | '[' => (.opener .vector, ⟨cs, l.beyond [c]⟩)
  | '{' => (.opener .map, ⟨cs, l.beyond [c]⟩)
  | ')' => (.closer c, ⟨cs, l.beyond [c]⟩)
  | ']' => (.closer c, ⟨cs, l.beyond [c]⟩)
  | '}' => (.closer c, ⟨cs, l.beyond [c]⟩)
  | '\'' => (.mark .quote, ⟨cs, l.beyond [c]⟩)
  | '\x60' => (.mark .quasiquote, ⟨cs, l.beyond [c]⟩)
  | '@' => (.mark .deref, ⟨cs, l.beyond [c]⟩)
  | '~' =>
    if cs.head? = some '@' then (.mark .spliceUnquote, ⟨cs.tail, l.beyond [c, '@']⟩)
    else (.mark .unquote, ⟨cs, l.beyond [c]⟩)
  | '"' => stringToken l c cs
  | ':' => keywordToken l c cs
  | _ =>
    if c = '^' && cs.head? = some '{' then (.caret, ⟨cs.tail, l.beyond [c, '{']⟩)
    else if Char.isDigit c || c = '-' && cs.head?.any Char.isDigit then numberToken l c cs
    else nameToken l c cs

/-! ### All tokens -/

theorem length_skip_le : ∀ (cs : List Char) (comment : Bool) (l : Location),
    (skip comment l cs).rest.length ≤ cs.length := by
  intro cs
  induction cs with
  | nil => intro comment l; exact Nat.le_refl _
  | cons c cs ih =>
    intro comment l
    unfold skip
    split
    · exact Nat.le_succ_of_le (ih _ _)
    · split
      · exact Nat.le_succ_of_le (ih _ _)
      · split
        · exact Nat.le_succ_of_le (ih _ _)
        · exact Nat.le_refl _

theorem length_stringText_le {start l : Location} {cs : List Char} {p : List Char × Unread}
    (h : stringText start l cs = .ok p) : p.2.rest.length ≤ cs.length := by
  fun_induction stringText start l cs generalizing p with
  | case1 => cases h
  | case2 l cs => cases h; exact Nat.le_succ _
  | case3 => cases h
  | case4 => cases h
  | case5 l d ds e he hq ih =>
    cases htext : stringText start (l.beyond ['\\', d]) ds with
    | error error => rw [htext] at h; cases h
    | ok q =>
      rw [htext] at h
      cases h
      have hle := ih htext
      exact Nat.le_succ_of_le (Nat.le_succ_of_le hle)
  | case6 l c cs hq hs ih =>
    cases htext : stringText start (l.beyond [c]) cs with
    | error error => rw [htext] at h; cases h
    | ok q =>
      rw [htext] at h
      cases h
      have hle := ih htext
      exact Nat.le_succ_of_le hle

theorem length_nameToken_le (l : Location) (c : Char) (cs : List Char) :
    (nameToken l c cs).2.rest.length ≤ cs.length :=
  (List.dropWhile_suffix _).length_le

theorem length_takeToken_le (l : Location) (c : Char) (cs : List Char) :
    (takeToken l c cs).2.rest.length ≤ cs.length := by
  unfold takeToken
  split
  iterate 9 exact Nat.le_refl _
  · split
    · exact (List.tail_suffix cs).length_le
    · exact Nat.le_refl _
  · unfold stringToken
    split
    · next text behind htext => exact length_stringText_le htext
    · exact Nat.zero_le _
  · exact (List.dropWhile_suffix _).length_le
  · split
    · exact (List.tail_suffix cs).length_le
    · split
      · exact (List.drop_suffix _ cs).length_le
      · exact length_nameToken_le l c cs

/-- The tokens of a text that begins at `l`. -/
def tokens (l : Location) (cs : List Char) : List Located :=
  match _hskip : skip false l cs with
  | ⟨[], _⟩ => []
  | ⟨c :: ds, start⟩ =>
    let taken := takeToken start c ds
    ⟨taken.1, start⟩ :: tokens taken.2.location taken.2.rest
termination_by cs.length
decreasing_by
  have hle := length_skip_le cs false l
  rw [_hskip] at hle
  exact Nat.lt_of_le_of_lt (length_takeToken_le start c ds) hle

end Reader

end MiniLisp
