import MiniLisp.Fault

/-!
# Stores

A session keeps its bindings in frames. Each frame but the root has a parent, which is older, and a
name is looked up through the chain of parents. A store numbers its frames in the order of their
making and never removes one, so a closure can refer to a frame by number for good.

* `Bindings.get?_insert`: the latest value of a name is the one found.
* `Store.find?`: the lookup through the chain.
-/

namespace MiniLisp

/-- What changes the way a session evaluates. Every frame carries the settings of its root. -/
structure Settings where
  /-- Whether surplus arguments of a closure are refused. -/
  strictArity : Bool
deriving DecidableEq, Repr

/-- The settings of a session that asks for nothing special. -/
def Settings.default : Settings := ⟨false⟩

/-- The names bound in one frame and their values. No name occurs twice. -/
structure Bindings where
  entries : List (String × Value)

namespace Bindings

/-- No bindings. -/
def empty : Bindings := ⟨[]⟩

/-- The value of a name. -/
def get? (b : Bindings) (name : String) : Option Value :=
  b.entries.lookup name

/-- Binds a name, in place of its earlier value if it has one. -/
def insert (b : Bindings) (name : String) (v : Value) : Bindings :=
  ⟨(name, v) :: b.entries.filter fun e => e.1 != name⟩

/-- Binds the names in turn. -/
def insertAll (b : Bindings) (pairs : List (String × Value)) : Bindings :=
  pairs.foldl (fun b p => b.insert p.1 p.2) b

/-- The bound names in the order of their characters. -/
def names (b : Bindings) : List String :=
  (b.entries.map Prod.fst).mergeSort fun x y => !decide (y < x)

@[simp] theorem get?_empty (name : String) : empty.get? name = none := rfl

theorem lookup_filter_of_ne {entries : List (String × Value)} {x y : String} (h : y ≠ x) :
    (entries.filter fun e => e.1 != x).lookup y = entries.lookup y := by
  induction entries with
  | nil => rfl
  | cons e entries ih =>
    by_cases hx : e.1 = x
    · have hy : (y == e.1) = false := by simpa [hx] using h
      rw [List.filter_cons_of_neg (by simp [hx]), ih, List.lookup_cons, hy]
    · rw [List.filter_cons_of_pos (by simp [hx]), List.lookup_cons, List.lookup_cons, ih]

/-- **The latest value of a name is the one found**, and no other name changes. -/
theorem get?_insert (b : Bindings) (x y : String) (v : Value) :
    (b.insert x v).get? y = if y = x then some v else b.get? y := by
  by_cases h : y = x
  · simp [get?, insert, h]
  · have hy : (y == x) = false := by simpa using h
    simp only [get?, insert, List.lookup_cons, hy, if_neg h]
    exact lookup_filter_of_ne h

end Bindings

/-- One frame: its bindings, the frame around it, and the settings of its root. -/
structure Frame where
  bindings : Bindings
  parent : Option FrameId
  settings : Settings

/-- The frames of a session in the order of their making, and how many functions have been made. -/
structure Store where
  frames : Array Frame
  functions : Nat

namespace Store

/-- The frame that holds the bindings of a session itself. -/
def rootFrame : FrameId := 0

/-- The bindings of a fresh session: each primitive under its name, with an identity of its own. -/
def primitives : Bindings :=
  Bindings.empty.insertAll
    (Primitive.all.zipIdx.map fun p => (p.1.name, .primitive .builtin p.2 p.1))

/-- The store of a fresh session. -/
def fresh (settings : Settings) : Store :=
  ⟨#[⟨primitives, none, settings⟩], Primitive.all.length⟩

/-- The settings that a frame carries. -/
def settings (s : Store) (frame : FrameId) : Settings :=
  match s.frames[frame]? with
  | some f => f.settings
  | none => .default

/-- Makes a frame inside another one. -/
def spawn (s : Store) (parent : FrameId) : FrameId × Store :=
  let settings := s.settings parent
  let ⟨frames, functions⟩ := s
  (frames.size, ⟨frames.push ⟨.empty, some parent, settings⟩, functions⟩)

/-- Binds a name in a frame, whatever the frames around it bind. -/
def insert (s : Store) (frame : FrameId) (name : String) (v : Value) : Store :=
  let ⟨frames, functions⟩ := s
  ⟨frames.modify frame fun f => { f with bindings := f.bindings.insert name v }, functions⟩

/-- Binds the names in a frame in turn. -/
def insertAll (s : Store) (frame : FrameId) (pairs : List (String × Value)) : Store :=
  pairs.foldl (fun s p => s.insert frame p.1 p.2) s

/-- The value that a frame itself binds a name to. -/
def binding? (s : Store) (frame : FrameId) (name : String) : Option Value :=
  s.frames[frame]?.bind fun f => f.bindings.get? name

/-- The value of a name, looked up through the chain of frames. -/
def find? (s : Store) (frame : FrameId) (name : String) : Option Value :=
  match s.frames[frame]? with
  | none => none
  | some f =>
    match f.bindings.get? name with
    | some v => some v
    | none =>
      match f.parent with
      | none => none
      | some parent => if parent < frame then s.find? parent name else none
termination_by frame

/-- The frames that a lookup goes through, the nearest first. -/
def chain (s : Store) (frame : FrameId) : List FrameId :=
  match s.frames[frame]? with
  | none => []
  | some f =>
    match f.parent with
    | none => [frame]
    | some parent => if parent < frame then frame :: s.chain parent else [frame]
termination_by frame

/-- Why a value that is not a symbol cannot be looked up or bound. -/
def notASymbol (operator : String) (key : Value) : Fault :=
  ⟨.typeMismatch operator .symbol key.tag, key.location⟩

/-- The value of a symbol, located where the symbol stands. -/
def get (s : Store) (frame : FrameId) (key : Value) : Except Fault Value :=
  match key.symbol? with
  | none => .error (notASymbol "get" key)
  | some name =>
    match s.find? frame name with
    | some v => .ok (v.moveTo key.location)
    | none => .error ⟨.undefinedSymbol name, key.location⟩

/-- Binds a symbol in a frame. -/
def set (s : Store) (frame : FrameId) (key v : Value) : Except Fault Store :=
  match key.symbol? with
  | none => .error (notASymbol "set" key)
  | some name => .ok (s.insert frame name v)

/-- Gives out an identity for a function. -/
def newFunction (s : Store) : FunctionId × Store :=
  (s.functions, { s with functions := s.functions + 1 })

/-- The names that each frame of a chain binds. -/
def namesText (s : Store) (frame : FrameId) : String :=
  " -> ".intercalate <| (s.chain frame).map fun frame =>
    let names := match s.frames[frame]? with
      | some f => f.bindings.names
      | none => []
    "Environment\x7b" ++ " ".intercalate names ++ "\x7d"

end Store

end MiniLisp
