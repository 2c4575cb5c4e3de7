import MiniLisp.Decimal.Layout
import MiniLisp.Text.Escaped
import MiniLisp.Value.Basic

/-!
# Dumps

The full structure of a value in one line, with every location. A trace shows it for each value that
is about to be evaluated.
-/

namespace MiniLisp

/-- A record in a dump: its name and its fields. -/
def dumpRecord (name : String) (fields : List (String × String)) : String :=
  name ++ " \x7b " ++ ", ".intercalate (fields.map fun f => f.1 ++ ": " ++ f.2) ++ " \x7d"

/-- A case of a sum in a dump: its name and its content. -/
def dumpCase (name content : String) : String :=
  name ++ "(" ++ content ++ ")"

/-- A sequence in a dump. -/
def dumpSequence (items : List String) : String :=
  "[" ++ ", ".intercalate items ++ "]"

/-- A dump of a location. -/
def Location.dump (l : Location) : String :=
  dumpRecord "Location" [("row", toString l.row), ("column", toString l.column)]

/-- A dump of a name. -/
def dumpName (name : String) : String :=
  dumpCase "Symbol" (Text.escaped name)

/-- A dump of the parameters of a closure. -/
def Parameters.dump (p : Parameters) : String :=
  let others := match p.rest with
    | none => "None"
    | some rest => dumpCase "Some" (dumpName rest)
  dumpRecord "ClosureParameters"
    [("positional", dumpSequence (p.positional.map dumpName)), ("others", others)]

/-- A dump of a closure, given the dump of its body. The frame is left out: it may well bind the
closure itself. -/
def dumpClosure (parameters : Parameters) (body : String) : String :=
  "Closure\x7bparameters: " ++ parameters.dump ++ ", body: " ++ body ++ "\x7d"

/-- A dump of a value, given the dump of its content. -/
def dumpValue (location : Location) (content : String) : String :=
  dumpRecord "Value" [("kind", content), ("location", location.dump)]

namespace Value

mutual

/-- A dump of a value. -/
def dump : Value → String
  | .list l elements => dumpValue l
      (dumpCase "List" (dumpCase "Sequence" (dumpSequence (dumpElements elements))))
  | .vector l elements => dumpValue l
      (dumpCase "Vector" (dumpCase "Sequence" (dumpSequence (dumpElements elements))))
  | .map l entries => dumpValue l
      (dumpCase "Map" (dumpCase "MapEntries" (dumpSequence (dumpEntries entries))))
  | .number l value => dumpValue l (dumpCase "Number" (String.ofList (Decimal.dump value)))
  | .symbol l name => dumpValue l (dumpCase "Symbol" (dumpName name))
  | .keyword l name => dumpValue l (dumpCase "Keyword" (Text.escaped name))
  | .string l text => dumpValue l (dumpCase "String" (Text.escaped text))
  | .bool l value => dumpValue l (dumpCase "Bool" (if value then "true" else "false"))
  | .nil l => dumpValue l "Nil"
  | .primitive l _ code => dumpValue l (dumpCase "Function" code.dump)
  | .closure l _ parameters body _ =>
    dumpValue l (dumpCase "Function" (dumpClosure parameters (dump body)))
  | .nop l message => dumpValue l (dumpCase "Nop" (Text.escaped message))

/-- A dump of each element of a sequence. -/
def dumpElements : List Value → List String
  | [] => []
  | v :: vs => dump v :: dumpElements vs

/-- A dump of each entry of a hash-map. -/
def dumpEntries : List (Value × Value) → List String
  | [] => []
  | (k, v) :: es => ("(" ++ dump k ++ ", " ++ dump v ++ ")") :: dumpEntries es

end

end Value

end MiniLisp
