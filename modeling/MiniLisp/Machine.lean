import MiniLisp.Event
import MiniLisp.Store

/-!
# Machines and evaluations

An evaluation works on a `Machine`, the store together with the events so far, and ends with a value
or with a `Stop`. What it did to the machine stays, whichever way it ends.

* `Eval.run_bind`: the second of two evaluations works on the machine that the first one left, and
  is left out if the first one stopped.
-/

namespace MiniLisp

/-- Why an evaluation ended without a value. -/
inductive Stop where
  /-- Something failed. -/
  | failed (failure : Failure)
  /-- No rule fits. -/
  | stuck
  /-- The bound on the depth was reached. -/
  | tooDeep
deriving DecidableEq, Repr

/-- What an evaluation works on: a store, and the events so far with the latest first. -/
structure Machine where
  store : Store
  log : List Event

/-- An evaluation: from a machine it comes to a result and to the machine after it. -/
def Eval (α : Type) : Type :=
  Machine → Except Stop α × Machine

namespace Eval

/-- Starts an evaluation on a machine. -/
def run {α : Type} (e : Eval α) (m : Machine) : Except Stop α × Machine :=
  e m

instance : Monad Eval where
  pure a := fun m => (.ok a, m)
  bind e f := fun m =>
    match e m with
    | (.ok a, m) => f a m
    | (.error s, m) => (.error s, m)

/-- Ends without a value. -/
def stop {α : Type} (s : Stop) : Eval α :=
  fun m => (.error s, m)

/-- Ends with a fault. -/
def fail {α : Type} (cause : Cause) (location : Location) : Eval α :=
  stop (.failed (.fault ⟨cause, location⟩))

/-- Goes on with a result that may be a fault. -/
def lift {α : Type} : Except Fault α → Eval α
  | .ok a => pure a
  | .error f => stop (.failed (.fault f))

/-- Puts something else in the place of a failure. -/
def recover {α : Type} (e : Eval α) (handle : Failure → α) : Eval α := fun m =>
  match e m with
  | (.error (.failed failure), m) => (.ok (handle failure), m)
  | outcome => outcome

/-- Reports an event. -/
def emit (e : Event) : Eval Unit :=
  fun ⟨store, log⟩ => (.ok (), ⟨store, e :: log⟩)

/-- The store as it is now. -/
def getStore : Eval Store :=
  fun m => (.ok m.store, m)

/-- Changes the store. -/
def update (f : Store → Store) : Eval Unit :=
  fun ⟨store, log⟩ => (.ok (), ⟨f store, log⟩)

/-- Makes a frame inside another one. -/
def spawn (parent : FrameId) : Eval FrameId :=
  fun ⟨store, log⟩ =>
    let (frame, store) := store.spawn parent
    (.ok frame, ⟨store, log⟩)

/-- The value of a symbol. -/
def lookup (frame : FrameId) (key : Value) : Eval Value := do
  lift ((← getStore).get frame key)

@[simp] theorem run_pure {α : Type} (a : α) (m : Machine) :
    (pure a : Eval α).run m = (.ok a, m) := rfl

theorem run_bind {α β : Type} (e : Eval α) (f : α → Eval β) (m : Machine) :
    (e >>= f).run m =
      match e.run m with
      | (.ok a, m) => (f a).run m
      | (.error s, m) => (.error s, m) := rfl

theorem run_emit_bind {α : Type} {s : Store} {log : List Event} (e : Event) (f : Unit → Eval α) :
    (emit e >>= f).run ⟨s, log⟩ = (f ()).run ⟨s, e :: log⟩ := rfl

theorem run_getStore_bind {α : Type} {s : Store} {log : List Event} (f : Store → Eval α) :
    (getStore >>= f).run ⟨s, log⟩ = (f s).run ⟨s, log⟩ := rfl

/-- Evaluations in a row are grouped as one likes. -/
instance : LawfulMonad Eval :=
  LawfulMonad.mk' Eval
    (fun e => by
      funext m
      show (match e m with | (.ok a, m) => (.ok a, m) | (.error s, m) => (.error s, m)) = e m
      obtain ⟨r, n⟩ := e m
      cases r <;> rfl)
    (fun _ _ => rfl)
    (fun e f g => by
      funext m
      show ((e >>= f) >>= g).run m = (e >>= fun a => f a >>= g).run m
      rw [run_bind, run_bind, run_bind]
      obtain ⟨r, n⟩ := e.run m
      cases r <;> rfl)

end Eval

/-- An evaluator of values in frames. -/
abbrev Evaluator := FrameId → Value → Eval Value

end MiniLisp
