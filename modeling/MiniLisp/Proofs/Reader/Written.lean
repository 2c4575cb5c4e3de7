import MiniLisp.Proofs.Reader.Completion
import MiniLisp.Proofs.Reader.TwoPass
import MiniLisp.Proofs.Value.Everywhere

/-!
# What can be written

A text denotes data: no function and no nothing occurs in what is read from it, at any depth.  The
reader keeps that of all data in its open forms, character by character.  The one exception is the
empty nothing that stands for the end of a text, and that comes first only if the text holds nothing
but blanks, commas and comments.

* `written_step`: one character keeps the data in the open forms written.
* `written_data`: **the data of a text are written**.
* `written_readFirst`: **only in a text without significance is there no first datum**.
-/

namespace MiniLisp

/-- A value without functions and nothings, at any depth. -/
def Value.Written (v : Value) : Prop :=
  v.Everywhere fun w => w.tag ≠ .function ∧ w.tag ≠ .nop

namespace Reader

/-! ### Data in open forms -/

/-- The data that an open form has received are written. -/
def Open.Written : Open → Prop
  | .bracket _ _ elements => ∀ v ∈ elements, v.Written
  | .caret _ => True
  | .target _ _ extra => ∀ v ∈ extra, v.Written

/-- The data in what a character leads to are written. -/
def Step.Written : Step → Prop
  | .reading s => ∀ form ∈ s.stack, form.Written
  | .datum v => v.Written
  | .failed _ => True

section

variable {v : Value} {k : List Open} {l : Location} {c : Char} {ahead : List Char}

theorem written_atom (htag : v.tag ≠ .function ∧ v.tag ≠ .nop) (hparts : v.parts = []) :
    v.Written :=
  .intro htag (by simp [hparts])

theorem written_list {vs : List Value} (hvs : ∀ v ∈ vs, v.Written) : (Value.list l vs).Written :=
  .intro ⟨by simp [Value.tag], by simp [Value.tag]⟩ hvs

theorem written_deliver (hv : v.Written) (hk : ∀ form ∈ k, form.Written) :
    (deliver v k).Written := by
  induction k generalizing v with
  | nil => exact hv
  | cons form k ih =>
    obtain ⟨hform, hstack⟩ := List.forall_mem_cons.mp hk
    cases form with
    | bracket bracket start elements =>
      refine List.forall_mem_cons.mpr ⟨?_, hstack⟩
      exact List.forall_mem_cons.mpr ⟨hv, hform⟩
    | caret start =>
      refine List.forall_mem_cons.mpr ⟨?_, hstack⟩
      exact List.forall_mem_cons.mpr ⟨hv, by simp⟩
    | target sugar start extra =>
      refine ih (written_list ?_) hstack
      refine List.forall_mem_cons.mpr ⟨?_, List.forall_mem_cons.mpr ⟨hv, hform⟩⟩
      exact written_atom (by simp [Value.tag]) rfl

theorem written_build {bracket : Bracket} {start : Location} {elements : List Value}
    (h : build bracket start elements = .ok v) (hvs : ∀ v ∈ elements, v.Written) : v.Written := by
  unfold build at h
  split at h
  · cases h; exact written_list hvs
  · cases h; exact .intro ⟨by simp [Value.tag], by simp [Value.tag]⟩ hvs
  · split at h
    · next entries hentries =>
      cases h
      refine .intro ⟨by simp [Value.tag], by simp [Value.tag]⟩ fun w hw => ?_
      have hall := Value.everywhere_pairs hentries hvs
      obtain ⟨e, he, rfl | rfl⟩ := Value.mem_parts_map.mp hw
      · exact (hall e he).1
      · exact (hall e he).2
    · cases h

theorem written_close (hk : ∀ form ∈ k, form.Written) : (close c l k).Written := by
  unfold close
  split
  · next bracket start elements stack =>
    split
    · split
      · next v hv =>
        refine written_deliver (written_build hv ?_) (List.forall_mem_cons.mp hk).2
        intro w hw
        exact (List.forall_mem_cons.mp hk).1 w (List.mem_reverse.mp hw)
      · trivial
    · trivial
  · trivial

/-! ### One character -/

theorem written_nameValue (start : Location) (name : String) : (nameValue start name).Written := by
  unfold nameValue
  repeat' split
  all_goals exact written_atom (by simp [Value.tag]) rfl

theorem written_symbolChar (start : Location) (chars : List Char) (hk : ∀ form ∈ k, form.Written) :
    (symbolChar start chars c ahead k).Written := by
  unfold symbolChar
  split
  · exact hk
  · exact written_deliver (written_nameValue _ _) hk

theorem written_keywordChars (start : Location) (chars : List Char)
    (hk : ∀ form ∈ k, form.Written) : (keywordChars start chars ahead k).Written := by
  unfold keywordChars
  split
  · exact hk
  · exact written_deliver (written_atom (by simp [Value.tag]) rfl) hk

theorem written_numberDigit (start : Location) (value : Decimal) (point : Bool)
    (hk : ∀ form ∈ k, form.Written) : (numberDigit start value point c ahead k).Written := by
  unfold numberDigit
  dsimp only
  split
  · exact hk
  · exact written_deliver (written_atom (by simp [Value.tag]) rfl) hk

theorem written_push {s : State} (hs : ∀ form ∈ s.stack, form.Written) {form : Open}
    (hform : form.Written) : (s.push form).Written :=
  List.forall_mem_cons.mpr ⟨hform, hs⟩

theorem written_begin {s : State} (hs : ∀ form ∈ s.stack, form.Written) :
    (s.begin l c ahead).Written := by
  have hempty : ∀ v ∈ ([] : List Value), v.Written := by simp
  unfold State.begin
  split
  · exact hs
  · exact written_push hs hempty
  · exact written_push hs hempty
  · exact written_push hs hempty
  · exact written_close hs
  · exact written_close hs
  · exact written_close hs
  · exact hs
  · exact written_push hs hempty
  · exact written_push hs hempty
  · exact written_push hs hempty
  · split
    · exact hs
    · exact written_push hs hempty
  · split
    · exact written_push hs trivial
    · exact written_symbolChar l [] hs
  · exact written_keywordChars l [] hs
  · split
    · exact hs
    · exact written_symbolChar l [] hs
  · split
    · exact hs
    · split
      · exact written_numberDigit l _ false hs
      · exact written_symbolChar l [] hs

/-- **One character keeps the data in the open forms written.** -/
theorem written_step {s : State} (hs : ∀ form ∈ s.stack, form.Written) (l : Location) (c : Char)
    (ahead : List Char) : (s.step l c ahead).Written := by
  unfold State.step
  split
  · exact written_begin hs
  · exact hs
  · split
    · exact written_deliver (written_atom (by simp [Value.tag]) rfl) hs
    · split
      · exact hs
      · exact hs
  · split
    · exact hs
    · trivial
  · exact written_symbolChar _ _ hs
  · exact written_keywordChars _ _ hs
  · split
    · exact hs
    · exact written_numberDigit _ _ _ hs
  · exact written_push hs (by simp [Open.Written])

end

/-! ### Whole texts -/

theorem written_halt {v : Value} {unread : Unread} : ∀ {cs : List Char} {s : State} {l : Location},
    (∀ form ∈ s.stack, form.Written) → s.halt l cs = .datum v unread → v.Written := by
  intro cs
  induction cs with
  | nil => intro s l _ h; cases h
  | cons c cs ih =>
    intro s l hs h
    have hstep := written_step hs l c cs
    rw [State.halt_cons] at h
    cases hnext : s.step l c cs with
    | reading s' => rw [hnext] at h hstep; exact ih hstep h
    | datum w => rw [hnext] at h hstep; cases h; exact hstep
    | failed e => rw [hnext] at h; cases h

theorem written_scan : ∀ {cs : List Char} {s : State} {l : Location},
    (∀ form ∈ s.stack, form.Written) → ∀ v ∈ (Reading.scan s l cs).data, v.Written := by
  intro cs
  induction cs with
  | nil =>
    intro s l _ v hv
    rw [Reading.scan] at hv
    split at hv
    · cases hv
    · cases hv
  | cons c cs ih =>
    intro s l hs
    have hstep := written_step hs l c cs
    rw [Reading.scan]
    cases hnext : s.step l c cs with
    | reading s' => rw [hnext] at hstep; exact ih hstep
    | datum w =>
      rw [hnext] at hstep
      exact List.forall_mem_cons.mpr ⟨hstep, ih (by simp [State.initial])⟩
    | failed e => simp

/-! ### Texts without significance -/

/-- A text that holds nothing but blanks, commas and comments.  A comment goes from a semicolon to the
end of its line. -/
inductive Insignificant : List Char → Prop
  | nil : Insignificant []
  | separator {c : Char} {cs : List Char} : isSeparator c = true → Insignificant cs →
      Insignificant (c :: cs)
  | comment {text : List Char} : '\n' ∉ text → Insignificant (';' :: text)
  | line {text cs : List Char} : '\n' ∉ text → Insignificant cs →
      Insignificant (';' :: (text ++ '\n' :: cs))

/-- Behind a semicolon the rest of the line does not matter. -/
theorem insignificant_semicolon_iff {cs : List Char} : Insignificant (';' :: cs) ↔
    '\n' ∉ cs ∨ ∃ text rest, '\n' ∉ text ∧ cs = text ++ '\n' :: rest ∧ Insignificant rest := by
  constructor
  · intro h
    cases h with
    | separator hsep _ => exact absurd hsep (by decide)
    | comment hcs => exact Or.inl hcs
    | @line text rest htext hrest => exact Or.inr ⟨text, rest, htext, rfl, hrest⟩
  · rintro (hcs | ⟨text, rest, htext, rfl, hrest⟩)
    · exact .comment hcs
    · exact .line htext hrest

theorem insignificant_semicolon_newline {cs : List Char} :
    Insignificant (';' :: '\n' :: cs) ↔ Insignificant cs := by
  rw [insignificant_semicolon_iff]
  constructor
  · rintro (hcs | ⟨text, rest, htext, hcs, hrest⟩)
    · simp at hcs
    · cases text with
      | nil => cases hcs; exact hrest
      | cons c text => cases hcs; simp at htext
  · intro h
    exact Or.inr ⟨[], cs, by simp, rfl, h⟩

theorem insignificant_semicolon_cons {c : Char} {cs : List Char} (hc : c ≠ '\n') :
    Insignificant (';' :: c :: cs) ↔ Insignificant (';' :: cs) := by
  rw [insignificant_semicolon_iff, insignificant_semicolon_iff]
  constructor
  · rintro (hcs | ⟨text, rest, htext, hcs, hrest⟩)
    · exact Or.inl fun h => hcs (List.mem_cons_of_mem c h)
    · cases text with
      | nil => cases hcs; exact absurd rfl hc
      | cons d text =>
        cases hcs
        exact Or.inr ⟨text, rest, fun h => htext (List.mem_cons_of_mem c h), rfl, hrest⟩
  · rintro (hcs | ⟨text, rest, htext, rfl, hrest⟩)
    · exact Or.inl fun h => (List.mem_cons.mp h).elim (fun h => hc h.symm) hcs
    · refine Or.inr ⟨c :: text, rest, fun h => ?_, rfl, hrest⟩
      exact (List.mem_cons.mp h).elim (fun h => hc h.symm) htext

/-- Nothing is left behind separators and comments if there is nothing else. -/
theorem rest_skip_eq_nil_iff : ∀ (cs : List Char) (comment : Bool) (l : Location),
    (skip comment l cs).rest = [] ↔ Insignificant (if comment then ';' :: cs else cs) := by
  intro cs
  induction cs with
  | nil =>
    intro comment l
    refine iff_of_true rfl ?_
    cases comment with
    | true => exact .comment (by simp)
    | false => exact .nil
  | cons c cs ih =>
    intro comment l
    cases comment with
    | true =>
      rw [if_pos rfl]
      rw [skip_cons, if_pos rfl, ih]
      by_cases hc : c = '\n'
      · subst hc
        exact insignificant_semicolon_newline.symm
      · rw [if_pos (by simpa using hc)]
        exact (insignificant_semicolon_cons hc).symm
    | false =>
      rw [if_neg Bool.false_ne_true, skip_cons, if_neg Bool.false_ne_true]
      by_cases hsep : isSeparator c = true
      · rw [if_pos hsep, ih, if_neg Bool.false_ne_true]
        refine ⟨.separator hsep, fun h => ?_⟩
        cases h with
        | separator _ h => exact h
        | comment _ => exact absurd hsep (by decide)
        | line _ _ => exact absurd hsep (by decide)
      · rw [if_neg hsep]
        by_cases hsemicolon : c = ';'
        · subst hsemicolon
          rw [if_pos rfl, ih, if_pos rfl]
        · rw [if_neg hsemicolon]
          refine iff_of_false (List.cons_ne_nil c cs) fun h => ?_
          cases h with
          | separator h _ => exact hsep h
          | comment _ => exact hsemicolon rfl
          | line _ _ => exact hsemicolon rfl

theorem tokens_eq_nil_iff {l : Location} {cs : List Char} :
    tokens l cs = [] ↔ Insignificant cs := by
  have hskip := rest_skip_eq_nil_iff cs false l
  rw [if_neg Bool.false_ne_true] at hskip
  rw [← hskip, tokens]
  split
  · next h => simp [h]
  · next h => simp [h]

theorem parseAll_eq_nil_iff {ts : List Located} : parseAll ts = .ok [] ↔ ts = [] := by
  cases ts with
  | nil => simp [parseAll]
  | cons t ts =>
    refine iff_of_false (fun h => ?_) (List.cons_ne_nil t ts)
    rw [parseAll] at h
    split at h
    · cases h
    · next v rest _ _ =>
      cases hrest : parseAll rest with
      | ok vs => rw [hrest] at h; cases h
      | error e => rw [hrest] at h; cases h

/-- The reader comes to the end of a text with no form open and no datum read if the text has no
significance, and only then. -/
theorem halt_eq_ended_iff (start : Location) {cs : List Char} :
    (∃ s l, State.initial.halt start cs = .ended s l ∧ s.atEnd? = none) ↔ Insignificant cs := by
  rw [← tokens_eq_nil_iff (l := start), ← parseAll_eq_nil_iff, ← drive_parseAll, ← outcome_scan]
  show _ ↔ outcome (Reading.scan .initial start cs) = .ok []
  rw [scan_eq_halt]
  cases State.initial.halt start cs with
  | datum v c =>
    refine iff_of_false (by simp) fun h => ?_
    rw [Halt.reading, outcome_cons] at h
    cases hrest : outcome (Reading.scan .initial c.location c.rest) with
    | ok vs => rw [hrest] at h; cases h
    | error e => rw [hrest] at h; cases h
  | failed e c => exact iff_of_false (by simp) nofun
  | ended s l =>
    rw [Halt.reading]
    cases hend : s.atEnd? with
    | none => exact iff_of_true ⟨s, l, rfl, hend⟩ rfl
    | some e =>
      refine iff_of_false ?_ nofun
      rintro ⟨s', l', h, hnone⟩
      cases h
      rw [hend] at hnone
      cases hnone

end Reader

/-! ### Reading -/

/-- **The data of a text are written.** -/
theorem written_data (text : String) : ∀ v ∈ (Reading.ofText text).data, v.Written :=
  Reader.written_scan (by simp [Reader.State.initial])

/-- The first datum is written, unless it is the nothing that stands for the end of the text. -/
theorem written_readFirst {text : String} {v : Value} (h : readFirst text = .ok v) :
    v.Written ∧ ¬ Reader.Insignificant text.toList ∨
      (∃ l, v = .nop l "") ∧ Reader.Insignificant text.toList := by
  rw [← Reader.halt_eq_ended_iff .start]
  rw [readFirst_eq_halt] at h
  cases hhalt : Reader.State.initial.halt .start text.toList with
  | datum w c =>
    rw [hhalt] at h
    cases h
    exact Or.inl ⟨Reader.written_halt (by simp [Reader.State.initial]) hhalt, by simp⟩
  | failed e c => rw [hhalt] at h; cases h
  | ended s l =>
    rw [hhalt, Reader.Halt.answer] at h
    cases hend : s.atEnd? with
    | none => rw [hend] at h; cases h; exact Or.inr ⟨⟨l, rfl⟩, s, l, rfl, hend⟩
    | some e => rw [hend] at h; cases h

end MiniLisp
