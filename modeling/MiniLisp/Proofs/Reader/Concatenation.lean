import MiniLisp.Proofs.Reader.Completion
import MiniLisp.Proofs.Reader.Relocation

/-!
# One text after another

A line feed ends every token but a string, and a string that is open at the end of a text is an error.
So if a text can be read, a line feed and a second text behind it change nothing of what was read, and
the second text is read as if it stood alone, only further down.

* `scan_append`: behind a text that is read, reading goes on from the state that the text ends in.
* `Reading.ofText_append_newline`: the data of two texts with a line feed between them.
* `readAll_append_newline`: **reading is compositional**, with its locations and its errors.
-/

namespace MiniLisp

/-! ### Rows -/

theorem Location.row_after (l : Location) (cs : List Char) :
    (l.after cs).row = l.row + cs.count '\n' := by
  induction cs generalizing l with
  | nil => rfl
  | cons c cs ih =>
    rw [Location.after_cons, ih, Location.next, List.count_cons]
    by_cases hc : c = '\n'
    · rw [if_pos hc, if_pos (beq_iff_eq.mpr hc)]
      exact Nat.add_right_comm _ _ _
    · rw [if_neg hc, if_neg (fun h => hc (beq_iff_eq.mp h))]
      rfl

/-- Behind a text and a line feed stands the beginning of a text, so many rows further down. -/
theorem Location.start_after_newline (cs : List Char) :
    (Location.start.after cs).next '\n' = Location.start.down (1 + cs.count '\n') := by
  rw [Location.next, if_pos rfl, Location.row_after, Location.down, Location.start, Nat.add_assoc,
    Nat.add_comm (cs.count '\n') 1]

/-- A reading behind some data. -/
def Reading.behind (r : Reading) (data : List Value) : Reading :=
  ⟨data ++ r.data, r.ending⟩

namespace Reader

open Reading

/-! ### More text behind a text -/

/-- **More text behind a text.**  Either the text has a wrong character, and reading stops there; or
reading goes on behind its data, from the state that the text ends in. -/
theorem scan_append {t : List Char} (ht : startsAfresh t = true) (cs : List Char) :
    ∀ {s : State} {l : Location}, Expects s cs →
      ((∃ e, (scan s l cs).ending = .error e) ∧ scan s l (cs ++ t) = scan s l cs) ∨
      ∃ s', Expects s' [] ∧ (scan s' (l.after cs) []).ending = (scan s l cs).ending ∧
        scan s l (cs ++ t) = (scan s' (l.after cs) t).behind (scan s l cs).data := by
  -- `Expects` is kept along the text: what the reader saw ahead, the text goes on with.
  induction cs with
  | nil =>
    intro s l hs
    refine Or.inr ⟨s, hs, rfl, ?_⟩
    have hnil : (scan s l []).data = [] := by
      rw [scan]
      cases s.atEnd? with
      | none => rfl
      | some e => rfl
    rw [hnil]
    rfl
  | cons c cs ih =>
    intro s l hs
    rw [List.cons_append, scan, scan.eq_2, step_alike (alike_append_of_startsAfresh ht cs)]
    cases hstep : s.step l c cs with
    | reading s' => exact ih (expects_of_step hs hstep)
    | failed e => exact Or.inl ⟨⟨e, rfl⟩, rfl⟩
    | datum v =>
      dsimp only
      rcases ih (s := .initial) (l := l.next c) trivial with ⟨herror, hscan⟩ | ⟨s', hs', hending, hscan⟩
      · exact Or.inl ⟨herror, by rw [hscan]⟩
      · exact Or.inr ⟨s', hs', hending, by rw [hscan]; rfl⟩

/-- More text takes nothing away from the data. -/
theorem exists_data_scan_append {t : List Char} (ht : startsAfresh t = true) {cs : List Char}
    {s : State} (hs : Expects s cs) (l : Location) :
    ∃ ws, (scan s l (cs ++ t)).data = (scan s l cs).data ++ ws := by
  rcases scan_append ht cs (l := l) hs with ⟨_, hscan⟩ | ⟨s', _, _, hscan⟩
  · exact ⟨[], by rw [hscan, List.append_nil]⟩
  · exact ⟨_, by rw [hscan]; rfl⟩

/-- Where a text may end, a line feed leads to the beginning of a datum. -/
theorem step_newline {s : State} (hs : Expects s []) (hend : s.atEnd? = none) (l : Location)
    (ahead : List Char) : s.step l '\n' ahead = .reading .initial := by
  obtain ⟨mode, k⟩ := s
  have hstack : k = [] := by
    cases k with
    | nil => rfl
    | cons form k => cases mode <;> cases form <;> cases hend
  subst hstack
  cases mode with
  | gap => rfl
  | comment => rfl
  | string start chars => cases hend
  | escape start chars slash => cases hend
  | symbol start chars => cases hs
  | keyword start chars => cases hs
  | number start value point => cases hs
  | splice start => cases hs

/-- Behind a text that can be read and a line feed, reading begins afresh. -/
theorem scan_append_newline {cs : List Char} {s : State} {l l' : Location} (hs : Expects s cs)
    (hend : (scan s l cs).ending = .ok l') (t : List Char) :
    scan s l (cs ++ '\n' :: t) =
      (scan .initial ((l.after cs).next '\n') t).behind (scan s l cs).data := by
  have ht : startsAfresh ('\n' :: t) = true := rfl
  rcases scan_append ht cs (l := l) hs with ⟨⟨e, he⟩, _⟩ | ⟨s', hs', hending, hscan⟩
  · rw [he] at hend
    cases hend
  · have hs'end : s'.atEnd? = none := by
      rw [hend, scan] at hending
      cases hnone : s'.atEnd? with
      | none => rfl
      | some e => rw [hnone] at hending; cases hending
    rw [hscan, scan.eq_2, step_newline hs' hs'end]

end Reader

/-! ### Two texts -/

theorem toList_append_newline (s t : String) :
    (s ++ "\n" ++ t).toList = s.toList ++ '\n' :: t.toList := by
  rw [String.toList_append, String.toList_append, List.append_assoc]
  rfl

theorem readAll_eq_ok_iff {text : String} {vs : List Value} :
    readAll text = .ok vs ↔
      (Reading.ofText text).data = vs ∧ ∃ l, (Reading.ofText text).ending = .ok l := by
  rw [readAll]
  cases (Reading.ofText text).ending with
  | ok l => simp
  | error e => simp

/-- A second text takes nothing away from the data of the first. -/
theorem Reading.exists_data_append_newline (s t : String) :
    ∃ ws, (Reading.ofText (s ++ "\n" ++ t)).data = (Reading.ofText s).data ++ ws := by
  rw [Reading.ofText, toList_append_newline]
  exact Reader.exists_data_scan_append rfl (Reader.expects_of_gap rfl _) .start

/-- **The data of two texts with a line feed between them**, if the first can be read. -/
theorem Reading.ofText_append_newline {s : String} {l : Location}
    (hl : (Reading.ofText s).ending = .ok l) (t : String) :
    Reading.ofText (s ++ "\n" ++ t) =
      ((Reading.ofText t).relocate (Location.down (1 + s.toList.count '\n'))).behind
        (Reading.ofText s).data := by
  have hrows := Reader.scan_relocate (Location.down_next (1 + s.toList.count '\n')) .initial .start
    t.toList
  rw [Reading.ofText, toList_append_newline,
    Reader.scan_append_newline (Reader.expects_of_gap rfl _) hl, Location.start_after_newline]
  exact congrArg (Reading.behind · _) hrows

/-- **Reading is compositional.**  If a text can be read, then a line feed and a second text behind it
leave its data as they are, with their locations.  The data of the second text, or its error, are the
same as if it stood alone, but that every location, at any depth, stands so many rows further down as
the first text and the line feed have line feeds. -/
theorem readAll_append_newline {s : String} {vs : List Value} (hs : readAll s = .ok vs)
    (t : String) :
    readAll (s ++ "\n" ++ t) =
      match readAll t with
      | .ok ws => .ok (vs ++ ws.map (Value.relocate (Location.down (1 + s.toList.count '\n'))))
      | .error e => .error (e.relocate (Location.down (1 + s.toList.count '\n'))) := by
  obtain ⟨rfl, l, hl⟩ := readAll_eq_ok_iff.mp hs
  rw [readAll, readAll, Reading.ofText_append_newline hl t]
  dsimp only [Reading.behind, Reading.relocate]
  cases (Reading.ofText t).ending with
  | ok l => rfl
  | error e => rfl

/-- A text of three rows whose last token would begin another datum with a brace right behind it, and
behind it a text that can be read and one that cannot. -/
theorem readAll_append_newline_caret :
    readAll ("(a\n\"b\nc\") ^" ++ "\n" ++ "\x7b:k [x]\x7d") =
      .ok [.list ⟨1, 1⟩ [.symbol ⟨1, 2⟩ "a", .string ⟨2, 1⟩ "b\nc"], .symbol ⟨3, 5⟩ "^",
        .map ⟨4, 1⟩ [(.keyword ⟨4, 2⟩ "k", .vector ⟨4, 5⟩ [.symbol ⟨4, 6⟩ "x"])]] ∧
    readAll ("(a\n\"b\nc\") ^" ++ "\n" ++ "x)") =
      .error ⟨.unexpectedCloser ')', ⟨4, 2⟩⟩ := by
  have hs : readAll "(a\n\"b\nc\") ^" = .ok [.list ⟨1, 1⟩ [.symbol ⟨1, 2⟩ "a",
      .string ⟨2, 1⟩ "b\nc"], .symbol ⟨3, 5⟩ "^"] := rfl
  exact ⟨readAll_append_newline hs _, readAll_append_newline hs _⟩

end MiniLisp
