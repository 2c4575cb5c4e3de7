import MiniLisp.Session

/-!
# What evaluation does to frames

Evaluation changes the frames of a store in two ways: it makes a new one, and it binds a name in one.
This file lists the changes in the order in which they happen.  A frame that is made for local
bindings or for a call is also left in the end, and the list says when.

The list is written rule by rule beside the evaluation itself.  `Change.apply` is what one change
does, and the two agree: see `eval_moves`.

* `changes`: the changes that evaluating a value makes.
* `Session.changes`: the changes that the requests of a session make.
* `Value.definedNames`: the names that a value can define in the frame it is evaluated in.
-/

namespace MiniLisp

/-- What happens to the frames of a store. -/
inductive Change where
  /-- A frame is made inside `parent`. -/
  | opened (parent : FrameId)
  /-- A frame binds a name. -/
  | bound (frame : FrameId) (name : String) (v : Value)
  /-- The local bindings or the call that a frame was made for have come to an end. -/
  | left (frame : FrameId)

/-- The frames after a change. -/
def Change.apply (frames : Array Frame) : Change → Array Frame
  | .opened parent => frames.push ⟨.empty, some parent, (Store.mk frames 0).settings parent⟩
  | .bound frame name v =>
    frames.modify frame fun f => { f with bindings := f.bindings.insert name v }
  | .left _ => frames

/-- The frames after several changes. -/
def replay (frames : Array Frame) (t : List Change) : Array Frame :=
  t.foldl Change.apply frames

/-! ### The names that a value can define -/

/-- The name that a list with these elements defines. -/
def definedName? : List Value → Option String
  | [head, key, _] => if head.symbol? = some defineName then key.symbol? else none
  | _ => none

namespace Value

mutual

/-- The names of the definitions in a value.  What stands inside local bindings does not count, and
neither do the keys of hash-maps, which stay as they are. -/
def definedNames : Value → List String
  | .list _ elements =>
    if elements.head?.bind symbol? = some letName then []
    else (definedName? elements).toList ++ elementNames elements
  | .vector _ elements => elementNames elements
  | .map _ entries => entryNames entries
  | _ => []

/-- The names of the definitions in the elements of a sequence. -/
def elementNames : List Value → List String
  | [] => []
  | v :: vs => v.definedNames ++ elementNames vs

/-- The names of the definitions in the values of a hash-map. -/
def entryNames : List (Value × Value) → List String
  | [] => []
  | (_, v) :: es => v.definedNames ++ entryNames es

end

end Value

/-!
### The changes of each rule

The functions follow the rules of evaluation one by one, from `evalElements` to `evalStep`.  Where a
rule goes on after a part, its changes go on after those of the part, on the machine that the part
left.
-/

/-- The changes that an evaluator makes, given the machine it works on. -/
abbrev Tracer := FrameId → Value → Machine → List Change

/-- The changes of what comes after an evaluation: none if it stopped. -/
def Eval.onward {α : Type} (e : Eval α) (f : α → Machine → List Change) (m : Machine) :
    List Change :=
  match e.run m with
  | (.ok a, m) => f a m
  | (.error _, _) => []

open Eval

section

variable (recur : Evaluator) (trace : Tracer)

def elementChanges (frame : FrameId) : List Value → Machine → List Change
  | [], _ => []
  | v :: vs, m =>
    trace frame v m ++ (recur frame v).onward (fun _ => elementChanges frame vs) m

def contentChanges (frame : FrameId) (v : Value) : Machine → List Change :=
  (emit (.evaluation v)).onward fun _ =>
    match v with
    | .list _ elements => elementChanges recur trace frame elements
    | .vector _ elements => elementChanges recur trace frame elements
    | .map _ entries => elementChanges recur trace frame (entries.map Prod.snd)
    | _ => fun _ => []

def definitionChanges (frame : FrameId) (operands : List Value) (m : Machine) : List Change :=
  match operands with
  | [key, value] =>
    match key.symbol? with
    | none => []
    | some name =>
      trace frame value m ++ (recur frame value).onward (fun v _ => [.bound frame name v]) m
  | _ => []

def pairChanges (frame : FrameId) : List (Value × Value) → Machine → List Change
  | [], _ => []
  | (key, value) :: pairs, m =>
    match key.symbol? with
    | none => []
    | some name =>
      trace frame value m ++ (recur frame value).onward (fun v m =>
        .bound frame name v ::
          (update fun s => s.insert frame name v).onward (fun _ => pairChanges frame pairs) m) m

/-- The changes of making a frame, of what is done in it, and of leaving it. -/
def scopeChanges (parent : FrameId) (body : FrameId → Machine → List Change) (m : Machine) :
    List Change :=
  .opened parent :: (spawn parent).onward (fun inner m => body inner m ++ [.left inner]) m

def localChanges (frame : FrameId) (operands : List Value) (m : Machine) : List Change :=
  match operands with
  | [bindings, body] =>
    match bindings.elements? with
    | none => []
    | some elements =>
      match Value.pairs elements with
      | .error _ => []
      | .ok pairs =>
        scopeChanges frame (fun inner m => pairChanges recur trace inner pairs m ++
          (bindPairs recur inner pairs).onward (fun _ => trace inner body) m) m
  | _ => []

def callChanges (head : Location) (parameters : Parameters) (body : Value) (captured : FrameId)
    (operands : List Value) : Machine → List Change :=
  (emit (.closureCall parameters operands)).onward fun _ m =>
    if (parameters.arity (m.store.settings captured).strictArity).contains operands.length then
      scopeChanges captured (fun inner m =>
        match parameters.bind? head operands with
        | none => []
        | some pairs =>
          pairs.map (fun p => .bound inner p.1 p.2) ++
            (update fun s => s.insertAll inner pairs).onward (fun _ => trace inner body) m) m
    else []

def applyChanges (head : Value) (operands : List Value) (m : Machine) : List Change :=
  match operands.find? Value.isNop with
  | some _ => []
  | none =>
    match head with
    | .closure location _ parameters body captured =>
      callChanges trace location parameters body captured operands m
    | _ => []

def formChanges (frame : FrameId) (form head : Value) (operands : List Value) :
    Machine → List Change :=
  (emit (.application form)).onward fun _ m =>
    if head.symbol? = some defineName then definitionChanges recur trace frame operands m
    else if head.symbol? = some letName then localChanges recur trace frame operands m
    else
      trace frame head m ++ (recur frame head).onward (fun function m =>
        match function.passing? with
        | none => []
        | some .unevaluated => applyChanges trace function operands m
        | some .evaluated =>
          elementChanges recur trace frame operands m ++
            (evalElements recur frame operands).onward (applyChanges trace function) m) m

def stepChanges : Tracer := fun frame v =>
  match v with
  | .list _ [] => fun _ => []
  | .list _ (head :: operands) => formChanges recur trace frame v head operands
  | _ => contentChanges recur trace frame v

end

/-- The changes that evaluating a value in a frame makes. -/
def changes : (depth : Nat) → Tracer
  | 0 => fun _ _ _ => []
  | depth + 1 => stepChanges (eval depth) (changes depth)

/-! ### The changes of a session -/

/-- What a session is asked for. -/
inductive Request where
  /-- The answer to a line. -/
  | answer (line : String)
  /-- The value of a text. -/
  | run (text : String)

def dataChanges (depth : Nat) : List Value → Machine → List Change
  | [], _ => []
  | v :: vs, m =>
    (emit (.read v)).onward (fun _ m => changes depth Store.rootFrame v m ++
      (evaluate depth v).onward (fun _ => dataChanges depth vs) m) m

namespace Request

/-- How a request is met. -/
def evaluation (depth : Nat) : Request → Eval Value
  | .answer line => MiniLisp.answer depth line
  | .run text => runText depth text

/-- The evaluation behind a request, whose failures are not answered. -/
def attempt (depth : Nat) : Request → Eval Value
  | .answer line => evaluateFirst depth line
  | .run text => runText depth text

/-- The changes of a request. -/
def changes (depth : Nat) : Request → Machine → List Change
  | .answer line => (readDatum line).onward fun v => MiniLisp.changes depth Store.rootFrame v
  | .run text => dataChanges depth (Reading.ofText text).data

end Request

namespace Session

/-- The session after several requests. -/
def after (depth : Nat) (s : Session) (requests : List Request) : Session :=
  requests.foldl (fun s r => (s.perform (r.evaluation depth)).session) s

/-- What comes of the evaluations behind several requests. -/
def attempts (depth : Nat) (s : Session) : List Request → List (Except Stop Value)
  | [] => []
  | r :: rs =>
    let outcome := s.perform (r.attempt depth)
    outcome.result :: outcome.session.attempts depth rs

/-- The changes of several requests. -/
def changes (depth : Nat) (s : Session) : List Request → List Change
  | [] => []
  | r :: rs =>
    r.changes depth ⟨s.store, []⟩ ++ (s.perform (r.evaluation depth)).session.changes depth rs

end Session

end MiniLisp
