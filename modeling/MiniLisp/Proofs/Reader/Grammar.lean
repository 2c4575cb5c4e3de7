import MiniLisp.Proofs.Reader.Token

/-!
# The grammar of data

The second of two passes in which a text can be read: data are made from the tokens by recursive
descent.  A datum is an atom, a pair of brackets with data between them, or a short notation in front
of a datum; a hash-map has an even number of data between its braces.

* `parseDatum`: one datum, and the tokens behind it.
* `parseAll`: all data of a text, or the first error that shows.
-/

namespace MiniLisp.Reader

/-- Tokens that are left of some others. -/
abbrev Rest (ts : List Located) := { rest : List Located // rest.length ≤ ts.length }

/-- Whether a token closes a bracket. -/
def Located.closes (t : Located) (bracket : Bracket) : Bool :=
  match t.token with
  | .closer c =>
    match bracket with
    | .list => c = ')'
    | .vector => c = ']'
    | .map => c = '}'
  | _ => false

/-- The datum that a name stands for: a literal or a symbol. -/
def nameDatum (l : Location) (name : String) : Value :=
  match name with
  | "true" => .bool l true
  | "false" => .bool l false
  | "nil" => .nil l
  | _ => .symbol l name

/-- The symbol at the head of the form that a short notation stands for. -/
def headOf : Sugar → String
  | .quote => "quote"
  | .quasiquote => "quasiquote"
  | .unquote => "unquote"
  | .spliceUnquote => "splice-unquote"
  | .deref => "deref"
  | .withMeta => "with-meta"

/-- Keys and values in turn. -/
def inPairs : List Value → List (Value × Value)
  | key :: value :: rest => (key, value) :: inPairs rest
  | _ => []

/-- The datum that data between brackets make, each with the location where it begins.  The last key of
a hash-map is blamed if it has no value. -/
def bracketDatum (bracket : Bracket) (start : Location) (elements : List (Location × Value)) :
    Except ReadError Value :=
  match bracket with
  | .list => .ok (.list start (elements.map Prod.snd))
  | .vector => .ok (.vector start (elements.map Prod.snd))
  | .map =>
    if elements.length % 2 = 0 then .ok (.map start (inPairs (elements.map Prod.snd)))
    else .error ⟨.missingMapValue, (elements.getLast?.map Prod.fst).getD start⟩

mutual

/-- The datum that begins with a token. -/
def parseDatum (t : Located) (ts : List Located) : Except ReadError (Value × Rest ts) :=
  match t.token with
  | .string text => .ok (.string t.location text, ⟨ts, Nat.le_refl _⟩)
  | .keyword name => .ok (.keyword t.location name, ⟨ts, Nat.le_refl _⟩)
  | .number x => .ok (.number t.location x, ⟨ts, Nat.le_refl _⟩)
  | .name name => .ok (nameDatum t.location name, ⟨ts, Nat.le_refl _⟩)
  | .opener bracket => parseBracket bracket t.location ts
  | .closer c => .error ⟨.unexpectedCloser c, t.location⟩
  | .mark sugar =>
    match parseTarget sugar t.location ts with
    | .error e => .error e
    | .ok (v, rest) => .ok (.list t.location [.symbol t.location (headOf sugar), v], rest)
  | .caret =>
    match parseBracket .map (t.location.beyond ['^']) ts with
    | .error e => .error e
    | .ok (data, ⟨rest, hrest⟩) =>
      match parseTarget .withMeta t.location rest with
      | .error e => .error e
      | .ok (v, ⟨rest', hrest'⟩) =>
        .ok (.list t.location [.symbol t.location (headOf .withMeta), v, data],
          ⟨rest', Nat.le_trans hrest' hrest⟩)
  | .error e => .error e
termination_by 3 * ts.length + 2

/-- The datum behind a short notation. -/
def parseTarget (sugar : Sugar) (start : Location) (ts : List Located) :
    Except ReadError (Value × Rest ts) :=
  match ts with
  | [] => .error ⟨.missingTarget sugar, start⟩
  | t :: ts =>
    match parseDatum t ts with
    | .error e => .error e
    | .ok (v, ⟨rest, hrest⟩) => .ok (v, ⟨rest, Nat.le_succ_of_le hrest⟩)
termination_by 3 * ts.length

/-- The datum that a pair of brackets makes, behind the opening one. -/
def parseBracket (bracket : Bracket) (start : Location) (ts : List Located) :
    Except ReadError (Value × Rest ts) :=
  match parseElements bracket start ts with
  | .error e => .error e
  | .ok (elements, rest) =>
    match bracketDatum bracket start elements with
    | .error e => .error e
    | .ok v => .ok (v, rest)
termination_by 3 * ts.length + 1

/-- The data up to the closing bracket, which is passed over, each with the location of its first
token. -/
def parseElements (bracket : Bracket) (start : Location) (ts : List Located) :
    Except ReadError (List (Location × Value) × Rest ts) :=
  match ts with
  | [] => .error ⟨.unterminated bracket, start⟩
  | t :: ts =>
    if t.closes bracket then .ok ([], ⟨ts, Nat.le_succ _⟩)
    else
      match parseDatum t ts with
      | .error e => .error e
      | .ok (v, ⟨rest, hrest⟩) =>
        match parseElements bracket start rest with
        | .error e => .error e
        | .ok (elements, ⟨rest', hrest'⟩) =>
          .ok ((t.location, v) :: elements,
            ⟨rest', Nat.le_succ_of_le (Nat.le_trans hrest' hrest)⟩)
termination_by 3 * ts.length

end

/-- All data, up to the end of the tokens. -/
def parseAll (ts : List Located) : Except ReadError (List Value) :=
  match ts with
  | [] => .ok []
  | t :: ts =>
    match parseDatum t ts with
    | .error e => .error e
    | .ok (v, ⟨rest, _⟩) => (parseAll rest).map (v :: ·)
termination_by ts.length

end MiniLisp.Reader
