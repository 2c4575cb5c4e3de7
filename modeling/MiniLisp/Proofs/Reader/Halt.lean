import MiniLisp.Reader.Basic

/-!
# Where reading halts

Reading one datum and reading a whole text go through the characters in the same way and differ only
in what they do when something happens.  Three things can happen: the text ends, a datum is
finished, or an error shows.  `State.halt` says which of them comes first and where, and everything
about reading is proved of it.

* `State.run_eq_halt`: reading one datum is what `halt` finds.
* `State.position_run`: the bytes read and the bytes unread make up the text.
* `scan_eq_halt`: reading a text is what `halt` finds, again and again.
* `Step.halt`: where reading halts behind a character whose step is known.  So a statement about a
  token says which step the whole token amounts to: `s.halt l (token ++ t) = step.halt _ t`.
-/

namespace MiniLisp.Reader

/-- What ends the reading of a datum, and where. -/
inductive Halt where
  /-- The text ends. -/
  | ended (state : State) (location : Location)
  /-- A datum is finished. -/
  | datum (value : Value) (unread : Unread)
  /-- An error shows. -/
  | failed (error : ReadError) (unread : Unread)

/-- Where reading halts that goes on from a state. -/
def State.halt (s : State) (l : Location) : List Char → Halt
  | [] => .ended s l
  | c :: cs =>
    match s.step l c cs with
    | .reading s => s.halt (l.next c) cs
    | .datum v => .datum v ⟨cs, l.next c⟩
    | .failed e => .failed e ⟨cs, l.next c⟩

/-- Where reading halts behind a character that led to a step. -/
def Step.halt (step : Step) (l : Location) (cs : List Char) : Halt :=
  match step with
  | .reading s => s.halt l cs
  | .datum v => .datum v ⟨cs, l⟩
  | .failed e => .failed e ⟨cs, l⟩

@[simp] theorem State.halt_nil (s : State) (l : Location) : s.halt l [] = .ended s l := rfl

theorem State.halt_cons (s : State) (l : Location) (c : Char) (cs : List Char) :
    s.halt l (c :: cs) = (s.step l c cs).halt (l.next c) cs := by
  rw [State.halt]
  cases s.step l c cs <;> rfl

@[simp] theorem Step.halt_reading (s : State) (l : Location) (cs : List Char) :
    (Step.reading s).halt l cs = s.halt l cs := rfl

@[simp] theorem Step.halt_datum (v : Value) (l : Location) (cs : List Char) :
    (Step.datum v).halt l cs = .datum v ⟨cs, l⟩ := rfl

@[simp] theorem Step.halt_failed (e : ReadError) (l : Location) (cs : List Char) :
    (Step.failed e).halt l cs = .failed e ⟨cs, l⟩ := rfl

/-- What reading one datum answers. -/
def Halt.answer : Halt → Except ReadError Value × Unread
  | .ended s l =>
    match s.atEnd? with
    | none => (.ok (.nop l ""), ⟨[], l⟩)
    | some e => (.error e, ⟨[], l⟩)
  | .datum v c => (.ok v, c)
  | .failed e c => (.error e, c)

/-- **Reading one datum is what `halt` finds.** -/
theorem State.run_eq_halt (s : State) (l : Location) (n : Nat) (cs : List Char) :
    ((s.run l n cs).1, (s.run l n cs).2.toUnread) = (s.halt l cs).answer := by
  induction cs generalizing s l n with
  | nil =>
    rw [State.run, State.halt_nil, Halt.answer]
    cases s.atEnd? <;> rfl
  | cons c cs ih =>
    rw [State.run, State.halt]
    cases s.step l c cs with
    | reading s => exact ih s (l.next c) (n + c.utf8Size)
    | datum v => rfl
    | failed e => rfl

theorem next_eq_halt (c : Cursor) :
    (c.next.1, c.next.2.toUnread) = (State.initial.halt c.location c.rest).answer :=
  State.run_eq_halt _ _ _ _

theorem fst_next (c : Cursor) : c.next.1 = (State.initial.halt c.location c.rest).answer.1 :=
  congrArg Prod.fst (next_eq_halt c)

theorem toUnread_next (c : Cursor) :
    c.next.2.toUnread = (State.initial.halt c.location c.rest).answer.2 :=
  congrArg Prod.snd (next_eq_halt c)

/-- The bytes read and the bytes unread are those of the whole text, however far reading goes. -/
theorem State.position_run (s : State) (l : Location) (n : Nat) (cs : List Char) :
    (s.run l n cs).2.position + (String.ofList (s.run l n cs).2.rest).utf8ByteSize =
      n + (String.ofList cs).utf8ByteSize := by
  induction cs generalizing s l n with
  | nil =>
    rw [State.run]
    cases s.atEnd? <;> rfl
  | cons c cs ih =>
    rw [State.run, String.ofList_cons, String.utf8ByteSize_append, String.utf8ByteSize_singleton,
      ← Nat.add_assoc]
    cases s.step l c cs with
    | reading s => exact ih s (l.next c) (n + c.utf8Size)
    | datum v => rfl
    | failed e => rfl

theorem position_next (c : Cursor) :
    c.next.2.position + (String.ofList c.next.2.rest).utf8ByteSize =
      c.position + (String.ofList c.rest).utf8ByteSize :=
  State.position_run _ _ _ _

/-- What reading a whole text answers, given how it goes on behind a datum. -/
def Halt.reading (onward : Unread → Reading) : Halt → Reading
  | .ended s l =>
    match s.atEnd? with
    | none => ⟨[], .ok l⟩
    | some e => ⟨[], .error e⟩
  | .datum v c => ⟨v :: (onward c).data, (onward c).ending⟩
  | .failed e _ => ⟨[], .error e⟩

/-- **Reading a text is what `halt` finds, again and again.** -/
theorem scan_eq_halt (s : State) (l : Location) (cs : List Char) :
    Reading.scan s l cs =
      (s.halt l cs).reading fun c => Reading.scan .initial c.location c.rest := by
  induction cs generalizing s l with
  | nil => rfl
  | cons c cs ih =>
    rw [Reading.scan, State.halt]
    cases s.step l c cs with
    | reading s => exact ih s (l.next c)
    | datum v => rfl
    | failed e => rfl

/-! ### Delivering a datum -/

theorem mode_deliver {v : Value} {s : State} : ∀ {k : List Open}, deliver v k = .reading s →
    s.mode = .gap := by
  intro k
  induction k generalizing v with
  | nil => intro h; cases h
  | cons form k ih =>
    cases form with
    | bracket bracket start elements => intro h; cases h; rfl
    | caret start => intro h; cases h; rfl
    | target sugar start extra => exact ih

theorem mode_close {c : Char} {l : Location} {k : List Open} {s : State}
    (h : close c l k = .reading s) : s.mode = .gap := by
  unfold close at h
  split at h
  · split at h
    · split at h
      · exact mode_deliver h
      · cases h
    · cases h
  · cases h

theorem deliver_ne_failed {e : ReadError} : ∀ {k : List Open} {v : Value},
    deliver v k ≠ .failed e := by
  intro k
  induction k with
  | nil => intro v h; cases h
  | cons form k ih =>
    intro v
    cases form with
    | bracket bracket start elements => intro h; cases h
    | caret start => intro h; cases h
    | target sugar start extra => exact ih

end MiniLisp.Reader
