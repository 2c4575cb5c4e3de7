import MiniLisp.Proofs.Reader.Concatenation
import MiniLisp.Proofs.Reader.Image
import MiniLisp.Proofs.Value.Equality

/-!
# Short notations

A mark in front of a datum stands for a list with a name at its head.  The reader keeps the mark on
its stack and makes the list when the datum is finished, while a list that is written out is made when
its bracket is closed; the datum between is the same, whatever is open around it and wherever it
stands.

* `halt_under`: **a datum is read in the same way under more open forms**, and is handed to them.
* `readAll_eq_singleton_iff`: the texts that hold one datum.
* `halt_datum`, `halt_datum_newline`: such a text in any surroundings.
* `sugar_eq_form`: **a short notation is read as the form that it stands for**.
-/

namespace MiniLisp

namespace Reader

/-! ### Under more open forms -/

/-- What a step comes to if more forms are open around those of the state. -/
def Step.under (k : List Open) : Step → Step
  | .reading s => .reading ⟨s.mode, s.stack ++ k⟩
  | .datum v => deliver v k
  | .failed e => .failed e

section

variable {l start : Location} {c : Char} {a : List Char} {j k : List Open}

theorem deliver_append (v : Value) (j k : List Open) :
    deliver v (j ++ k) = (deliver v j).under k := by
  induction j generalizing v with
  | nil => rfl
  | cons form j ih =>
    cases form with
    | bracket bracket start elements => rfl
    | caret start => rfl
    | target sugar start extra => exact ih _

/-- A bracket that closes nothing may close one of the forms around. -/
theorem close_append (c : Char) (l : Location) (j k : List Open) :
    (∃ e, close c l j = .failed e) ∨ close c l (j ++ k) = (close c l j).under k := by
  cases j with
  | nil => exact Or.inl ⟨_, rfl⟩
  | cons form j =>
    refine Or.inr ?_
    cases form with
    | bracket bracket start elements =>
      rw [List.cons_append, close, close]
      split
      · cases build bracket start elements.reverse with
        | ok v => exact deliver_append v j k
        | error e => rfl
      · rfl
    | caret start => rfl
    | target sugar start extra => rfl

theorem symbolChar_append (chars : List Char) :
    symbolChar start chars c a (j ++ k) = (symbolChar start chars c a j).under k := by
  unfold symbolChar
  split
  · rfl
  · exact deliver_append _ j k

theorem keywordChars_append (chars : List Char) :
    keywordChars start chars a (j ++ k) = (keywordChars start chars a j).under k := by
  unfold keywordChars
  split
  · rfl
  · exact deliver_append _ j k

theorem numberDigit_append (value : Decimal) (point : Bool) :
    numberDigit start value point c a (j ++ k) = (numberDigit start value point c a j).under k := by
  unfold numberDigit
  dsimp only
  split
  · rfl
  · exact deliver_append _ j k

theorem begin_under : (∃ e, (State.mk .gap j).begin l c a = .failed e) ∨
    (State.mk .gap (j ++ k)).begin l c a = ((State.mk .gap j).begin l c a).under k := by
  unfold State.begin
  split
  · exact Or.inr rfl
  · exact Or.inr rfl
  · exact Or.inr rfl
  · exact Or.inr rfl
  · exact close_append _ l j k
  · exact close_append _ l j k
  · exact close_append _ l j k
  · exact Or.inr rfl
  · exact Or.inr rfl
  · exact Or.inr rfl
  · exact Or.inr rfl
  · refine Or.inr ?_
    split
    · rfl
    · rfl
  · refine Or.inr ?_
    split
    · rfl
    · exact symbolChar_append []
  · exact Or.inr (keywordChars_append [])
  · refine Or.inr ?_
    split
    · rfl
    · exact symbolChar_append []
  · refine Or.inr ?_
    split
    · rfl
    · split
      · exact numberDigit_append _ false
      · exact symbolChar_append []

/-- **The forms around do not matter to a character**, unless it is wrong without them. -/
theorem step_under (mode : Mode) : (∃ e, (State.mk mode j).step l c a = .failed e) ∨
    (State.mk mode (j ++ k)).step l c a = ((State.mk mode j).step l c a).under k := by
  cases mode with
  | gap => exact begin_under
  | comment => exact Or.inr rfl
  | string start chars =>
    refine Or.inr ?_
    unfold State.step
    dsimp only
    split
    · exact deliver_append _ j k
    · split
      · rfl
      · rfl
  | escape start chars slash =>
    refine Or.inr ?_
    unfold State.step
    dsimp only
    cases Text.unescape c with
    | some d => rfl
    | none => rfl
  | symbol start chars => exact Or.inr (symbolChar_append chars)
  | keyword start chars => exact Or.inr (keywordChars_append (c :: chars))
  | number start value point =>
    refine Or.inr ?_
    unfold State.step
    dsimp only
    split
    · rfl
    · exact numberDigit_append value point
  | splice start => exact Or.inr rfl

end

/-- **A datum is read in the same way under more open forms**, and is handed to them. -/
theorem halt_under {v : Value} {unread : Unread} (k : List Open) : ∀ {cs : List Char} {s : State}
    {l : Location}, s.halt l cs = .datum v unread →
      (State.mk s.mode (s.stack ++ k)).halt l cs = (deliver v k).halt unread.location unread.rest := by
  intro cs
  induction cs with
  | nil => intro s l h; cases h
  | cons c cs ih =>
    intro s l h
    rw [State.halt_cons] at h ⊢
    rcases step_under (l := l) (c := c) (a := cs) (j := s.stack) (k := k) s.mode with
      ⟨e, he⟩ | hstep
    · have he : s.step l c cs = .failed e := he
      rw [he] at h
      cases h
    · rw [hstep]
      show ((s.step l c cs).under k).halt _ _ = _
      cases hs : s.step l c cs with
      | reading s' => rw [hs] at h; exact ih h
      | datum w => rw [hs] at h; cases h; rfl
      | failed e => rw [hs] at h; cases h

/-- More text behind a datum stays unread. -/
theorem halt_append_of_datum {v : Value} {unread : Unread} {t : List Char}
    (ht : startsAfresh t = true) : ∀ {cs : List Char} {s : State} {l : Location},
      s.halt l cs = .datum v unread →
      s.halt l (cs ++ t) = .datum v ⟨unread.rest ++ t, unread.location⟩ := by
  intro cs
  induction cs with
  | nil => intro s l h; cases h
  | cons c cs ih =>
    intro s l h
    rw [State.halt_cons] at h
    rw [List.cons_append, State.halt_cons, step_alike (alike_append_of_startsAfresh ht cs)]
    cases hs : s.step l c cs with
    | reading s' => rw [hs] at h; exact ih h
    | datum w => rw [hs] at h; cases h; rfl
    | failed e => rw [hs] at h; cases h

/-- Separators, comments and a line feed behind them leave no trace. -/
theorem halt_insignificant {rest : List Char} (h : Insignificant rest) (k : List Open) (t : List Char) :
    ∀ l, ∃ l', (State.mk .gap k).halt l (rest ++ '\n' :: t) = (State.mk .gap k).halt l' t := by
  induction h with
  | nil => exact fun l => ⟨_, halt_separator rfl⟩
  | separator hc _ ih =>
    intro l
    obtain ⟨l', hl'⟩ := ih (l.next _)
    exact ⟨l', (halt_separator hc).trans hl'⟩
  | comment htext =>
    intro l
    exact ⟨_, halt_comment _ (l.next ';') fun c hc hn => htext (hn ▸ hc)⟩
  | @line text cs htext _ ih =>
    intro l
    obtain ⟨l', hl'⟩ := ih (((l.next ';').after text).next '\n')
    refine ⟨l', Eq.trans ?_ hl'⟩
    rw [List.cons_append, List.append_assoc]
    exact halt_comment text (l.next ';') fun c hc hn => htext (hn ▸ hc)

end Reader

open Reader

/-! ### Texts that hold one datum -/

/-- What is read is built from notation, so it is equal to itself. -/
theorem Value.Textual.not_containsNaN {v : Value} (h : v.Textual fun x => x.isNaN = false) :
    ¬ v.ContainsNaN := by
  induction h with
  | list _ ih =>
    intro hnan
    cases hnan with
    | list hv hnan => exact ih _ hv hnan
  | vector _ ih =>
    intro hnan
    cases hnan with
    | vector hv hnan => exact ih _ hv hnan
  | map _ _ ihk ihv =>
    intro hnan
    cases hnan with
    | key he hnan => exact ihk _ he hnan
    | value he hnan => exact ihv _ he hnan
  | number hx =>
    intro hnan
    cases hnan with
    | number hnan => rw [hx] at hnan; cases hnan
  | _ => nofun

theorem not_containsNaN_of_readAll {text : String} {vs : List Value} (h : readAll text = .ok vs) :
    ∀ v ∈ vs, ¬ v.ContainsNaN := by
  intro v hv
  obtain ⟨rfl, -⟩ := readAll_eq_ok_iff.mp h
  obtain ⟨p, e, hstands⟩ := stands_data hv
  exact hstands.textual.not_containsNaN

/-- A text without data. -/
theorem scan_eq_nil_iff (l : Location) (cs : List Char) :
    ((Reading.scan .initial l cs).data = [] ∧ ∃ l', (Reading.scan .initial l cs).ending = .ok l') ↔
      Insignificant cs := by
  rw [← halt_eq_ended_iff l, scan_eq_halt]
  cases State.initial.halt l cs with
  | datum v c => exact iff_of_false nofun (by simp)
  | failed e c => exact iff_of_false (by simp [Halt.reading]) (by simp)
  | ended s l' =>
    rw [Halt.reading]
    cases hend : s.atEnd? with
    | none => exact iff_of_true ⟨rfl, l', rfl⟩ ⟨s, l', rfl, hend⟩
    | some e =>
      refine iff_of_false (by simp) ?_
      rintro ⟨s', l'', h, hnone⟩
      cases h
      rw [hend] at hnone
      cases hnone

/-- **The texts that hold one datum**: behind it there are only separators and comments. -/
theorem readAll_eq_singleton_iff {text : String} {v : Value} : readAll text = .ok [v] ↔
    ∃ rest l, State.initial.halt .start text.toList = .datum v ⟨rest, l⟩ ∧ Insignificant rest := by
  rw [readAll_eq_ok_iff, Reading.ofText, scan_eq_halt]
  cases State.initial.halt .start text.toList with
  | failed e c => exact iff_of_false (by simp [Halt.reading]) (by simp)
  | ended s l =>
    refine iff_of_false ?_ (by simp)
    rw [Halt.reading]
    cases s.atEnd? <;> simp
  | datum w c =>
    obtain ⟨rest, l⟩ := c
    have hrest := scan_eq_nil_iff l rest
    constructor
    · rintro ⟨hdata, hending⟩
      obtain ⟨rfl, hnil⟩ := List.cons_eq_cons.mp hdata
      exact ⟨rest, l, rfl, hrest.mp ⟨hnil, hending⟩⟩
    · rintro ⟨rest', l', h, hinsignificant⟩
      cases h
      obtain ⟨hnil, hending⟩ := hrest.mpr hinsignificant
      exact ⟨congrArg (v :: ·) hnil, hending⟩

section

variable {text : String} {v : Value}

/-- The datum of a text is found wherever the text stands. -/
theorem halt_elsewhere (h : readAll text = .ok [v]) : ∃ rest, Insignificant rest ∧ ∀ l, ∃ v' l',
    v'.bare = v.bare ∧ State.initial.halt l text.toList = .datum v' ⟨rest, l'⟩ := by
  obtain ⟨rest, l₀, hhalt, hrest⟩ := readAll_eq_singleton_iff.mp h
  refine ⟨rest, hrest, fun l => ?_⟩
  have hcongr := halt_relocate_congr (f := fun _ => .start) (fun _ _ => rfl) text.toList
    (s := .initial) rfl l .start
  rw [hhalt] at hcongr
  cases hl : State.initial.halt l text.toList with
  | ended s l' => rw [hl] at hcongr; cases hcongr
  | failed e c => rw [hl] at hcongr; cases hcongr
  | datum v' c =>
    obtain ⟨rest', l'⟩ := c
    rw [hl] at hcongr
    obtain ⟨hv', hc⟩ := Halt.datum.inj hcongr
    obtain rfl : rest' = rest := congrArg Unread.rest hc
    exact ⟨v', l', hv', rfl⟩

/-- **A text with one datum at the end of any text**, whatever forms are open. -/
theorem halt_datum (h : readAll text = .ok [v]) (k : List Open) (l : Location) :
    ∃ v' rest l', v'.bare = v.bare ∧ Insignificant rest ∧
      (State.mk .gap k).halt l text.toList = (deliver v' k).halt l' rest := by
  obtain ⟨rest, hrest, helsewhere⟩ := halt_elsewhere h
  obtain ⟨v', l', hv', hhalt⟩ := helsewhere l
  exact ⟨v', rest, l', hv', hrest, halt_under k hhalt⟩

/-- **A text with one datum in front of a line feed**, where a form waits for data. -/
theorem halt_datum_newline (h : readAll text = .ok [v]) (k : List Open) (l : Location)
    (t : List Char) : ∃ v', v'.bare = v.bare ∧ ∀ k', deliver v' k = .reading ⟨.gap, k'⟩ →
      ∃ l', (State.mk .gap k).halt l (text.toList ++ '\n' :: t) = (State.mk .gap k').halt l' t := by
  obtain ⟨rest, hrest, helsewhere⟩ := halt_elsewhere h
  obtain ⟨v', l₁, hv', hhalt⟩ := helsewhere l
  refine ⟨v', hv', fun k' hk' => ?_⟩
  obtain ⟨l', hl'⟩ := halt_insignificant hrest k' t l₁
  have hmore := halt_under k (halt_append_of_datum (t := '\n' :: t) rfl hhalt)
  rw [hk'] at hmore
  exact ⟨l', hmore.trans hl'⟩

end

/-! ### Marks and written forms -/

section

variable {l : Location} {cs : List Char} {k : List Open}

/-- A list that is opened with the name of a form. -/
theorem halt_head (sugar : Sugar) :
    (State.mk .gap k).halt l ('(' :: (sugar.name.toList ++ ' ' :: cs)) =
      (State.mk .gap (.bracket .list l [.symbol (l.next '(') sugar.name] :: k)).halt
        (((l.next '(').after sugar.name.toList).next ' ') cs := by
  show (State.mk .gap (.bracket .list l [] :: k)).halt _ _ = _
  rw [halt_isName (headOf_eq sugar ▸ isName_headOf sugar) rfl, deliver, Step.halt_reading, halt_separator rfl]

theorem halt_list_end {start : Location} {elements : List Value} :
    (State.mk .gap [.bracket .list start elements]).halt l [')'] =
      .datum (.list start elements.reverse) ⟨[], l.next ')'⟩ :=
  rfl

end

section

variable {t m : String} {v h : Value}

/-- The datum behind a mark is put into a list. -/
theorem readAll_mark (ht : readAll t = .ok [v]) {sugar : Sugar} (hne : sugar ≠ .withMeta)
    (hat : sugar = .unquote → t.toList.head? ≠ some '@') {mark : String}
    (hmark : mark.toList = sugar.mark) : ∃ v', v'.bare = v.bare ∧
      readAll (mark ++ t) = .ok [.list .start [.symbol .start sugar.name, v']] := by
  obtain ⟨v', rest, l', hv', hrest, hhalt⟩ :=
    halt_datum ht [.target sugar .start []] (Location.start.after sugar.mark)
  refine ⟨v', hv', readAll_eq_singleton_iff.mpr ⟨rest, l', ?_, hrest⟩⟩
  rw [String.toList_append, hmark]
  exact (halt_mark hne hat).trans hhalt

/-- The list that a mark stands for, written out. -/
theorem readAll_form (ht : readAll t = .ok [v]) (sugar : Sugar) {opening : String}
    (hopening : opening.toList = '(' :: (sugar.name.toList ++ [' '])) : ∃ v', v'.bare = v.bare ∧
    readAll (opening ++ t ++ "\n)") =
      .ok [.list .start [.symbol (Location.start.next '(') sugar.name, v']] := by
  obtain ⟨v', hv', hbehind⟩ := halt_datum_newline ht
    [.bracket .list .start [.symbol (Location.start.next '(') sugar.name]]
    (((Location.start.next '(').after sugar.name.toList).next ' ') [')']
  obtain ⟨l', hhalt⟩ := hbehind _ rfl
  refine ⟨v', hv', readAll_eq_singleton_iff.mpr ⟨[], l'.next ')', ?_, .nil⟩⟩
  simp only [String.toList_append, hopening, List.cons_append, List.append_assoc, List.nil_append]
  exact (halt_head sugar).trans (hhalt.trans halt_list_end)

/-- The datum behind a caret and a hash-map is put into a list with the hash-map behind it. -/
theorem readAll_caret (ht : readAll t = .ok [v]) (hm : readAll m = .ok [h])
    (hbrace : m.toList.head? = some '{') : ∃ v' h', v'.bare = v.bare ∧ h'.bare = h.bare ∧
      readAll ("^" ++ m ++ "\n" ++ t) =
        .ok [.list .start [.symbol .start Sugar.withMeta.name, v', h']] := by
  obtain ⟨h', hh', hbehind⟩ :=
    halt_datum_newline hm [.caret .start] (Location.start.next '^') t.toList
  obtain ⟨l₁, hcaret⟩ := hbehind _ rfl
  obtain ⟨v', rest, l', hv', hrest, hhalt⟩ := halt_datum ht [.target .withMeta .start [h']] l₁
  refine ⟨v', h', hv', hh', readAll_eq_singleton_iff.mpr ⟨rest, l', ?_, hrest⟩⟩
  simp only [String.toList_append, List.append_assoc]
  have hopen : (m.toList ++ '\n' :: t.toList).head? = some '{' := by
    rw [List.head?_append, hbrace]
    rfl
  exact (halt_caret hopen).trans (hcaret.trans hhalt)

/-- The list that a caret stands for, written out. -/
theorem readAll_withMeta (ht : readAll t = .ok [v]) (hm : readAll m = .ok [h]) :
    ∃ v' h', v'.bare = v.bare ∧ h'.bare = h.bare ∧
      readAll ("(with-meta " ++ t ++ "\n" ++ m ++ "\n)") =
        .ok [.list .start [.symbol (Location.start.next '(') Sugar.withMeta.name, v', h']] := by
  obtain ⟨v', hv', hbehind⟩ := halt_datum_newline ht
    [.bracket .list .start [.symbol (Location.start.next '(') Sugar.withMeta.name]]
    (((Location.start.next '(').after Sugar.withMeta.name.toList).next ' ')
    (m.toList ++ ['\n', ')'])
  obtain ⟨l₁, hfirst⟩ := hbehind _ rfl
  obtain ⟨h', hh', hbehind'⟩ := halt_datum_newline hm
    [.bracket .list .start [v', .symbol (Location.start.next '(') Sugar.withMeta.name]] l₁ [')']
  obtain ⟨l', hsecond⟩ := hbehind' _ rfl
  refine ⟨v', h', hv', hh', readAll_eq_singleton_iff.mpr ⟨[], l'.next ')', ?_, .nil⟩⟩
  simp only [String.toList_append, List.append_assoc]
  exact (halt_head .withMeta).trans
    (hfirst.trans (hsecond.trans halt_list_end))

end

/-- Two texts hold one datum each, and the data are equal. -/
def HoldEqualData (a b : String) : Prop :=
  ∃ v w, readAll a = .ok [v] ∧ readAll b = .ok [w] ∧ (v == w) = true

theorem HoldEqualData.of_bare {a b : String} {v w : Value} (ha : readAll a = .ok [v])
    (hb : readAll b = .ok [w]) (h : v.bare = w.bare) : HoldEqualData a b :=
  have hnumbers := not_containsNaN_of_readAll hb w (List.mem_singleton_self w)
  ⟨v, w, ha, hb, Value.equal_of_bare_eq h hnumbers⟩

/-- A mark and the form that it stands for, in front of the same text. -/
theorem HoldEqualData.mark {t : String} {v : Value} (ht : readAll t = .ok [v]) (sugar : Sugar)
    (hne : sugar ≠ .withMeta) (hat : sugar = .unquote → t.toList.head? ≠ some '@')
    {mark opening : String} (hmark : mark.toList = sugar.mark)
    (hopening : opening.toList = '(' :: (sugar.name.toList ++ [' '])) :
    HoldEqualData (mark ++ t) (opening ++ t ++ "\n)") := by
  obtain ⟨v₁, hv₁, hmark⟩ := readAll_mark ht hne hat hmark
  obtain ⟨v₂, hv₂, hform⟩ := readAll_form ht sugar hopening
  refine .of_bare hmark hform ?_
  simp only [Value.bare_list, List.map_cons, List.map_nil, hv₁, hv₂]
  rfl

/-- **A short notation is read as the form that it stands for.**  In front of a text with one datum, a
mark gives the list of the mark's name and the datum; a tilde must not stand in front of an at sign,
with which it would be another mark.  A caret takes a hash-map and a datum, and puts the hash-map
last. -/
theorem sugar_eq_form {t : String} {v : Value} (ht : readAll t = .ok [v]) :
    HoldEqualData ("'" ++ t) ("(quote " ++ t ++ "\n)") ∧
    HoldEqualData ("\x60" ++ t) ("(quasiquote " ++ t ++ "\n)") ∧
    HoldEqualData ("@" ++ t) ("(deref " ++ t ++ "\n)") ∧
    HoldEqualData ("~@" ++ t) ("(splice-unquote " ++ t ++ "\n)") ∧
    (t.toList.head? ≠ some '@' → HoldEqualData ("~" ++ t) ("(unquote " ++ t ++ "\n)")) ∧
    ∀ (m : String) (h : Value), m.toList.head? = some '{' → readAll m = .ok [h] →
      HoldEqualData ("^" ++ m ++ "\n" ++ t) ("(with-meta " ++ t ++ "\n" ++ m ++ "\n)") := by
  refine ⟨?_, ?_, ?_, ?_, fun hat => ?_, fun m h hbrace hm => ?_⟩
  · exact .mark ht .quote nofun nofun (by decide) (by decide)
  · exact .mark ht .quasiquote nofun nofun (by decide) (by decide)
  · exact .mark ht .deref nofun nofun (by decide) (by decide)
  · exact .mark ht .spliceUnquote nofun nofun (by decide) (by decide)
  · exact .mark ht .unquote nofun (fun _ => hat) (by decide) (by decide)
  · obtain ⟨v₁, h₁, hv₁, hh₁, hcaret⟩ := readAll_caret ht hm hbrace
    obtain ⟨v₂, h₂, hv₂, hh₂, hform⟩ := readAll_withMeta ht hm
    refine .of_bare hcaret hform ?_
    simp only [Value.bare_list, List.map_cons, List.map_nil, hv₁, hv₂, hh₁, hh₂]
    rfl

/-- A mark in front of a comment with another mark behind it. -/
theorem sugar_eq_form_nested :
    HoldEqualData "~; x\n ~@y ; end" "(unquote ; x\n ~@y ; end\n)" ∧
    HoldEqualData "^\x7b:a 1\x7d ; b\n; x\n ~@y ; end"
      "(with-meta ; x\n ~@y ; end\n\x7b:a 1\x7d ; b\n)" := by
  have h := sugar_eq_form (t := "; x\n ~@y ; end")
    (v := .list ⟨2, 2⟩ [.symbol ⟨2, 2⟩ "splice-unquote", .symbol ⟨2, 4⟩ "y"]) rfl
  obtain ⟨-, -, -, -, hunquote, hmeta⟩ := h
  refine ⟨hunquote (by decide), hmeta "\x7b:a 1\x7d ; b" ?_ rfl ?_⟩
  · exact .map ⟨1, 1⟩ [(.keyword ⟨1, 2⟩ "a", .number ⟨1, 5⟩ 1)]
  · rfl

end MiniLisp
