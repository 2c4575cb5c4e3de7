import MiniLisp.Proofs.Reader.Image

/-!
# Reading comes to an end

Every call that finds anything takes at least one character, also if it fails; and where only
separators and comments are left, a call goes to the end of the text and answers nothing, and so does
every call after it.  So there are at most as many answers as the text has characters.

An `Iteration` hands out the answers one by one.  It stops for good where a call answers nothing, and
behind an error too, although the cursor could go on.

* `Cursor.At.next_cases`: what one call does.
* `Cursor.At.exists_calls`: how many calls answer something.
* `Iteration.item_eq_results`: the items are the results of reading the whole text.
* `Iteration.length_results_le`: there are at most as many items as characters.
* `reading_ends`: **reading goes on and comes to an end**, on every text.
-/

namespace MiniLisp

/-! ### Calls -/

namespace Cursor

theorem advance_succ (c : Cursor) (n : Nat) : c.advance (n + 1) = c.next.2.advance n := by
  induction n with
  | zero => rfl
  | succ n ih =>
    show (c.advance (n + 1)).next.2 = _
    rw [ih]
    rfl

/-- The answer at the end of a text. -/
def nothing (cs : List Char) : Except ReadError Value :=
  .ok (.nop (.ofOffset cs cs.length) "")

variable {cs : List Char} {p : Nat} {c : Cursor}

/-- **One call**: only separators and comments are left, and the call goes to the end and answers
nothing; or it takes at least one character and answers something. -/
theorem At.next_cases (hc : c.At cs p) :
    (Reader.Insignificant c.rest ∧ c.next.2.At cs cs.length ∧ c.next.1 = nothing cs) ∨
    (¬ Reader.Insignificant c.rest ∧ ∃ e, p < e ∧ c.next.2.At cs e ∧
      ∀ v, c.next.1 = .ok v → v.isNop = false) := by
  obtain ⟨e, he, hanswer⟩ := Reader.answered_next hc
  have hnop := next_eq_nop_iff c
  cases hnext : c.next.1 with
  | error error =>
    rw [hnext] at hanswer hnop
    obtain ⟨q, hpq, hqe, -⟩ := hanswer
    refine Or.inr ⟨fun h => ?_, e, by omega, he, nofun⟩
    obtain ⟨l, hl⟩ := hnop.mpr h
    cases hl
  | ok v =>
    rw [hnext] at hanswer hnop
    rcases hanswer with ⟨rfl, -, rfl⟩ | ⟨q, hgap, hv⟩
    · exact Or.inl ⟨hnop.mp ⟨_, rfl⟩, he, rfl⟩
    · have hle := hgap.le
      have hlt := hv.lt
      have hvnop : v.isNop = false := by cases hv <;> rfl
      refine Or.inr ⟨fun h => ?_, e, by omega, he, fun w hw => ?_⟩
      · obtain ⟨l, hl⟩ := hnop.mpr h
        cases hl
        cases hvnop
      · cases hw
        exact hvnop

/-- At the end of a text, calls stay there. -/
theorem At.next_of_insignificant (hc : c.At cs p) (h : Reader.Insignificant c.rest) :
    c.next.2.At cs cs.length ∧ c.next.1 = nothing cs := by
  rcases hc.next_cases with ⟨-, hnext⟩ | ⟨hne, -⟩
  · exact hnext
  · exact absurd h hne

theorem At.insignificant_next (hc : c.At cs p) (h : Reader.Insignificant c.rest) :
    Reader.Insignificant c.next.2.rest := by
  rw [(hc.next_of_insignificant h).1.rest, List.drop_length]
  exact .nil

/-- **How many calls answer something**: some of the first ones, at most one for each character that
is left, and none behind them. -/
theorem At.exists_calls (hc : c.At cs p) :
    ∃ calls ≤ cs.length - p, ∀ n, (c.advance n).next.1 = nothing cs ↔ calls ≤ n := by
  -- Each call that answers something takes a character.
  induction hn : cs.length - p using Nat.strongRecOn generalizing c p with
  | ind _ ih =>
    by_cases hrest : Reader.Insignificant c.rest
    · refine ⟨0, Nat.zero_le _, fun n => iff_of_true ?_ (Nat.zero_le n)⟩
      clear hn ih
      induction n generalizing c p with
      | zero => exact (hc.next_of_insignificant hrest).2
      | succ n ih =>
        rw [advance_succ]
        exact ih (hc.next_of_insignificant hrest).1 (hc.insignificant_next hrest)
    · rcases hc.next_cases with ⟨hall, -⟩ | ⟨-, e, hlt, he, hanswer⟩
      · exact absurd hall hrest
      · have hle := he.le
        obtain ⟨calls, hcalls, hiff⟩ := ih (cs.length - e) (by omega) he rfl
        refine ⟨calls + 1, by omega, fun n => ?_⟩
        cases n with
        | zero =>
          refine iff_of_false (fun h => ?_) (by omega)
          have hnop := hanswer _ h
          cases hnop
        | succ n => rw [advance_succ, hiff n, Nat.add_le_add_iff_right]

end Cursor

/-! ### Items -/

/-- An error is the last result. -/
theorem Reading.length_results_of_error {r : Reading} {n : Nat} {e : ReadError}
    (h : r.results[n]? = some (.error e)) : r.results.length = n + 1 := by
  obtain ⟨data, ending⟩ := r
  cases ending with
  | ok l => simp [results] at h
  | error e' =>
    have h : (data.map Except.ok ++ [.error e'])[n]? = some (.error e) := h
    show (data.map Except.ok ++ [Except.error e']).length = n + 1
    have hn : data.length ≤ n := by
      by_contra hlt
      rw [List.getElem?_append_left (by rw [List.length_map]; omega)] at h
      simp at h
    have hlast := (List.getElem?_eq_some_iff.mp h).1
    rw [List.length_append, List.length_map, List.length_singleton] at hlast ⊢
    omega

/-- A text that is read item by item: how far it has been read, and whether that was all. -/
structure Iteration where
  cursor : Cursor
  finished : Bool

namespace Iteration

/-- The beginning of a text. -/
def ofText (text : String) : Iteration :=
  ⟨.ofText text, false⟩

/-- The next item: what the next call answers, unless that is nothing.  An error is the last item. -/
def next (i : Iteration) : Option (Except ReadError Value) × Iteration :=
  if i.finished then (none, i)
  else
    match i.cursor.next with
    | (.ok v, c) => if v.isNop then (none, ⟨c, true⟩) else (some (.ok v), ⟨c, false⟩)
    | (.error e, c) => (some (.error e), ⟨c, true⟩)

/-- The item with a number, if there are so many. -/
def item (i : Iteration) : Nat → Option (Except ReadError Value)
  | 0 => i.next.1
  | n + 1 => i.next.2.item n

theorem item_of_finished (c : Cursor) (n : Nat) : (Iteration.mk c true).item n = none := by
  induction n with
  | zero => rfl
  | succ n ih => exact ih

/-- **What one step does**: it ends the iteration, or hands on what the call answered. -/
theorem next_cases (c : Cursor) :
    (∃ v, c.next.1 = .ok v ∧ v.isNop = true ∧ (Iteration.mk c false).next = (none, ⟨c.next.2, true⟩)) ∨
    (∃ v, c.next.1 = .ok v ∧ v.isNop = false ∧
      (Iteration.mk c false).next = (some (.ok v), ⟨c.next.2, false⟩)) ∨
    ∃ e, c.next.1 = .error e ∧
      (Iteration.mk c false).next = (some (.error e), ⟨c.next.2, true⟩) := by
  have hopen : ¬ (Iteration.mk c false).finished = true := nofun
  rw [next, if_neg hopen]
  obtain ⟨answer, c'⟩ := c.next
  cases answer with
  | error e => exact Or.inr (Or.inr ⟨e, rfl, rfl⟩)
  | ok v =>
    cases hv : v.isNop with
    | true => exact Or.inl ⟨v, rfl, hv, if_pos hv⟩
    | false => exact Or.inr (Or.inl ⟨v, rfl, hv, by dsimp only; rw [hv]; rfl⟩)

/-- An item is what the call of its number answers. -/
theorem item_eq_some {c : Cursor} {n : Nat} {r : Except ReadError Value}
    (h : (Iteration.mk c false).item n = some r) :
    (c.advance n).next.1 = r ∧ ∀ v, r = .ok v → v.isNop = false := by
  induction n generalizing c with
  | zero =>
    rw [item] at h
    rcases next_cases c with ⟨v, -, -, hstep⟩ | ⟨v, hv, hnop, hstep⟩ | ⟨e, he, hstep⟩
    · rw [hstep] at h; cases h
    · rw [hstep] at h
      cases h
      refine ⟨hv, fun w hw => ?_⟩
      cases hw
      exact hnop
    · rw [hstep] at h
      cases h
      exact ⟨he, nofun⟩
  | succ n ih =>
    rw [item] at h
    rw [Cursor.advance_succ]
    rcases next_cases c with ⟨v, -, -, hstep⟩ | ⟨v, hv, hnop, hstep⟩ | ⟨e, he, hstep⟩
    · rw [hstep, item_of_finished] at h; cases h
    · rw [hstep] at h; exact ih h
    · rw [hstep, item_of_finished] at h; cases h

/-- The results of reading a whole text, from what the first call answers. -/
theorem results_scan (c : Cursor) : (Reading.scan .initial c.location c.rest).results =
    match c.next.1 with
    | .ok v => if v.isNop then []
        else .ok v :: (Reading.scan .initial c.next.2.location c.next.2.rest).results
    | .error e => [.error e] := by
  have hunread := Reader.toUnread_next c
  rw [Reader.scan_eq_halt, Reader.fst_next, hunread]
  cases hhalt : Reader.State.initial.halt c.location c.rest with
  | failed e c' => rfl
  | datum v c' =>
    have hv := Reader.written_halt (by simp [Reader.State.initial]) hhalt
    have hnop : v.isNop = false := by
      cases v with
      | nop l message => exact absurd rfl hv.self.2
      | _ => rfl
    rw [Reader.Halt.answer]
    dsimp only
    rw [hnop]
    rfl
  | ended s l =>
    rw [Reader.Halt.reading, Reader.Halt.answer]
    cases s.atEnd? with
    | none => rfl
    | some e => rfl

/-- **The items are the results of reading the whole text.** -/
theorem item_eq_results (c : Cursor) (n : Nat) : (Iteration.mk c false).item n =
    (Reading.scan .initial c.location c.rest).results[n]? := by
  induction n generalizing c with
  | zero =>
    rw [item, results_scan]
    rcases next_cases c with ⟨v, hv, hnop, hstep⟩ | ⟨v, hv, hnop, hstep⟩ | ⟨e, he, hstep⟩
    · rw [hstep, hv]
      simp [hnop]
    · rw [hstep, hv]
      simp [hnop]
    · rw [hstep, he]
      rfl
  | succ n ih =>
    rw [item, results_scan]
    rcases next_cases c with ⟨v, hv, hnop, hstep⟩ | ⟨v, hv, hnop, hstep⟩ | ⟨e, he, hstep⟩
    · rw [hstep, hv, item_of_finished]
      simp [hnop]
    · rw [hstep, hv, ih]
      simp [hnop]
    · rw [hstep, he, item_of_finished]
      rfl

/-- There are at most as many items as characters are left. -/
theorem length_results_le {cs : List Char} {p : Nat} {c : Cursor} (hc : c.At cs p) :
    (Reading.scan .initial c.location c.rest).results.length ≤ cs.length - p := by
  obtain ⟨count, hle, hcalls⟩ := hc.exists_calls
  by_contra hlong
  -- The call with the number `count` answers nothing, and it would have to answer an item.
  have hsome : (Iteration.mk c false).item count ≠ none := by
    rw [item_eq_results, ne_eq, List.getElem?_eq_none_iff]
    omega
  obtain ⟨r, hr⟩ := Option.ne_none_iff_exists'.mp hsome
  obtain ⟨hcall, hnop⟩ := item_eq_some hr
  have hnothing := (hcalls count).mpr (Nat.le_refl _)
  cases hnop _ (hcall.symm.trans hnothing)

end Iteration

/-- **Reading goes on and comes to an end**, on every text.  After any number of calls, a call stays
within the text and either takes at least one character, whether it finds a datum or fails, or there are
only separators and comments left, and it goes to the end of the text and answers nothing there.  So no
more calls than the text has characters answer anything else, and they come first.  Read item by item,
the text has at most as many items as characters, and no item ever comes behind the last one or behind
an error. -/
theorem reading_ends (text : String) :
    let cs := text.toList
    let calls := fun n => (Cursor.ofText text).advance n
    let items := (Iteration.ofText text).item
    (∀ n, ∃ p e, (calls n).At cs p ∧ (calls n).next.2.At cs e ∧
      ((¬ Reader.Insignificant (calls n).rest ∧ p < e ∧
          ∀ v, (calls n).next.1 = .ok v → v.isNop = false) ∨
        (Reader.Insignificant (calls n).rest ∧ p ≤ e ∧ e = cs.length ∧
          (calls n).next.1 = .ok (.nop (.ofOffset cs cs.length) "")))) ∧
    (∃ count ≤ text.length, ∀ n,
      (calls n).next.1 = .ok (.nop (.ofOffset cs cs.length) "") ↔ count ≤ n) ∧
    (∃ count ≤ text.length, ∀ n, items n = none ↔ count ≤ n) ∧
    (∀ n e, items n = some (.error e) → ∀ m, n < m → items m = none) ∧
    ∀ n, items n = (Reading.ofText text).results[n]? := by
  intro cs calls items
  have hstart : (Cursor.ofText text).At cs 0 := Cursor.at_ofText text
  have hresults : ∀ n, items n = (Reading.ofText text).results[n]? :=
    Iteration.item_eq_results (.ofText text)
  obtain ⟨count, hle, hcalls⟩ := hstart.exists_calls
  have hlength : cs.length - 0 = text.length := String.length_toList
  rw [hlength] at hle
  refine ⟨fun n => ?_, ⟨count, hle, hcalls⟩, ?_, fun n e h m hnm => ?_, hresults⟩
  · obtain ⟨p, hp⟩ := Cursor.at_advance text n
    rcases hp.next_cases with ⟨hrest, hend, hanswer⟩ | ⟨hrest, e, hlt, he, hanswer⟩
    · exact ⟨p, cs.length, hp, hend, Or.inr ⟨hrest, hp.le, rfl, hanswer⟩⟩
    · exact ⟨p, e, hp, he, Or.inl ⟨hrest, hlt, hanswer⟩⟩
  · refine ⟨(Reading.ofText text).results.length, ?_, fun n => ?_⟩
    · exact hlength ▸ Iteration.length_results_le hstart
    · rw [hresults, List.getElem?_eq_none_iff]
  · rw [hresults] at h
    rw [hresults, List.getElem?_eq_none_iff, Reading.length_results_of_error h]
    exact hnm

end MiniLisp
