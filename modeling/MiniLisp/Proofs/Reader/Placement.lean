import MiniLisp.Proofs.Reader.Coverage

/-!
# The reader keeps its place

The reader counts rows, columns and bytes as it goes and writes locations down at many places: at an
opening bracket, at the first character of a token, at a backslash.  Here it is followed through a text
by offsets instead.  Whatever stands between two offsets, be it a gap, a value or forms that are opened,
takes the reader from the one to the other, with the location of the other, and with what it has to make
of the text between them.  So the layout of a text decides what a call answers.  Since every text has a
layout, all locations that are reported are those of the right offset.

* `Gap.haltAt`, `Stands.haltAt`, `Opened.haltAt`: the reader goes from offset to offset.
* `Blamed.answer`: the reader reports the error that is to blame.
* `Answered.answer`: **a call gives the answer that is laid out in the text**.
* `stands_data`: the data of a text are written in it.
* `next_placed`: **every location that is reported is exact**, after any number of calls.
-/

namespace MiniLisp

namespace Reader

/-! ### Reading at an offset -/

/-- A comment that ends with the text is as good as none. -/
def Halt.settled : Halt → Halt
  | .ended ⟨.comment, k⟩ l => .ended ⟨.gap, k⟩ l
  | h => h

theorem Halt.answer_settled (h : Halt) : h.settled.answer = h.answer := by
  unfold settled
  split <;> rfl

theorem Halt.reading_settled (onward : Unread → Reading) (h : Halt) :
    h.settled.reading onward = h.reading onward := by
  unfold settled
  split <;> rfl

/-- Where reading halts that goes on from a step at an offset. -/
def haltAt (cs : List Char) (p : Nat) (step : Step) : Halt :=
  (step.halt (.ofOffset cs p) (cs.drop p)).settled

section

variable {cs : List Char} {low p q e a b : Nat} {c : Char} {k : List Open} {s : State}

/-- One character. -/
theorem haltAt_succ (h : cs[p]? = some c) :
    haltAt cs p (.reading s) = haltAt cs (p + 1) (s.step (.ofOffset cs p) c (cs.drop (p + 1))) := by
  rw [haltAt, haltAt, drop_of_getElem? h, Location.ofOffset_succ h, Step.halt_reading,
    State.halt_cons]

theorem ofOffset_after : ∀ {w : List Char} {p : Nat}, w <+: cs.drop p →
    (Location.ofOffset cs p).after w = .ofOffset cs (p + w.length)
  | [], _, _ => rfl
  | c :: w, p, h => by
    obtain ⟨t, ht⟩ := h
    have hw : w <+: cs.drop (p + 1) := ⟨t, (drop_succ_of_drop ht.symm).symm⟩
    rw [Location.after_cons, ← Location.ofOffset_succ (getElem?_of_drop ht.symm), ofOffset_after hw,
      List.length_cons, Nat.add_assoc, Nat.add_comm 1]

/-- A word that amounts to one step. -/
theorem haltAt_of_spans {w : List Char} {step : Step} (h : Spans cs p e w)
    (hword : (State.mk .gap k).halt (.ofOffset cs p) (w ++ cs.drop e) =
      step.halt ((Location.ofOffset cs p).after w) (cs.drop e)) :
    haltAt cs p (.reading ⟨.gap, k⟩) = haltAt cs e step := by
  rw [haltAt, haltAt, h.drop, Step.halt_reading, hword, ofOffset_after h.1, h.2]

/-! ### Gaps -/

/-- Inside a comment the reader goes on to the end of the line. -/
theorem haltAt_comment (hpq : p ≤ q) (hline : ∀ i, p ≤ i → i < q → cs[i]? ≠ some '\n')
    (hq : q ≤ cs.length) :
    haltAt cs p (.reading ⟨.comment, k⟩) = haltAt cs q (.reading ⟨.comment, k⟩) := by
  induction hpq with
  | refl => rfl
  | @step q hpq ih =>
    rw [ih (fun i hi hiq => hline i hi (by omega)) (by omega)]
    have hc : cs[q]? = some cs[q] := List.getElem?_eq_getElem hq
    have hne : cs[q] ≠ '\n' := fun h => hline q hpq (Nat.lt_succ_self q) (by rw [hc, h])
    rw [haltAt_succ hc, step_comment, if_neg hne]

/-- **A gap leaves no trace.** -/
theorem Gap.haltAt (h : Gap cs a b) (k : List Open) :
    Reader.haltAt cs a (.reading ⟨.gap, k⟩) = Reader.haltAt cs b (.reading ⟨.gap, k⟩) := by
  induction h with
  | nil => rfl
  | @separator p c _ hc hsep ih =>
    have hsep : isSeparator c = true := by
      rw [← isSeparator_eq]
      simpa using hsep
    rw [ih, haltAt_succ hc, step_gap, begin_separator _ hsep]
  | @comment p q _ hsemicolon hlt hline hnewline ih =>
    have hq := lt_length_of_getElem? hnewline
    have hwalk := haltAt_comment (k := k) hlt (fun i hi hiq => hline i hi hiq) (Nat.le_of_lt hq)
    rw [ih, haltAt_succ hsemicolon]
    exact hwalk.trans (haltAt_succ hnewline)
  | @ending p _ hsemicolon hline ih =>
    have hp := lt_length_of_getElem? hsemicolon
    have hwalk := haltAt_comment (k := k) hp (fun i hi _ => hline i hi) (Nat.le_refl _)
    rw [ih, haltAt_succ hsemicolon]
    refine hwalk.trans ?_
    rw [Reader.haltAt, Reader.haltAt, List.drop_length]
    rfl

/-! ### Tokens -/

theorem nextIs_eq_false {f : Char → Bool} (h : ∀ c, cs[p]? = some c → f c = false) :
    nextIs f (cs.drop p) = false := by
  rw [nextIs, List.head?_drop]
  cases hc : cs[p]? with
  | none => rfl
  | some c => exact h c hc

/-- A name goes to the innermost open form. -/
theorem Named.haltAt {name : String} (h : Named cs p e name) (k : List Open) :
    Reader.haltAt cs p (.reading ⟨.gap, k⟩) =
      Reader.haltAt cs e (deliver (nameValue (.ofOffset cs p) name) k) := by
  obtain ⟨hspan, hchars, hends, c, hhead, hmark, hdigit, hminus, hcaret⟩ := h
  obtain ⟨w, hname⟩ := List.head?_eq_some_iff.mp hhead
  rw [isNameChar_eq] at hchars hends
  rw [isDigit_eq] at hdigit hminus
  rw [hname] at hspan hchars
  have hnext : cs.drop (p + 1) = w ++ cs.drop e := drop_succ_of_drop hspan.drop
  have hbegin : beginsName c (w ++ cs.drop e) = true := by
    have hsymbol := hchars c (by simp)
    have hminus' : c = '-' → nextIs Decimal.isDigit (w ++ cs.drop e) = false := by
      intro h
      rw [← hnext, nextIs, List.head?_drop]
      exact hminus h
    have hcaret' : c = '^' → nextIs (· = '{') (w ++ cs.drop e) = false := by
      intro h
      refine hnext ▸ nextIs_eq_false fun d hd => decide_eq_false fun hbrace => ?_
      exact hcaret h (by rw [hd, hbrace])
    simp only [beginsName, hsymbol, hdigit, Bool.and_eq_true, Bool.not_eq_true',
      Bool.and_eq_false_imp, decide_eq_true_eq, List.contains_eq_mem, decide_eq_false_iff_not]
    exact ⟨⟨⟨⟨trivial, trivial⟩, hmark⟩, hminus'⟩, hcaret'⟩
  have hw := halt_name (k := k) (l := .ofOffset cs p) hbegin (fun d hd => hchars d (by simp [hd]))
    (nextIs_eq_false hends)
  rw [← hname, String.ofList_toList] at hw
  rw [← hname] at hspan
  exact haltAt_of_spans hspan hw

theorem haltAt_keyword {name : String} (hspan : Spans cs p e (':' :: name.toList))
    (hchars : ∀ c ∈ name.toList, isNameChar c = true)
    (hends : ∀ c, cs[e]? = some c → isNameChar c = false) :
    haltAt cs p (.reading ⟨.gap, k⟩) =
      haltAt cs e (deliver (.keyword (.ofOffset cs p) name) k) := by
  rw [isNameChar_eq] at hchars hends
  have hw := halt_keyword (k := k) (l := .ofOffset cs p) hchars (nextIs_eq_false hends)
  rw [String.ofList_toList] at hw
  exact haltAt_of_spans hspan hw

theorem haltAt_number {literal : List Char} (h : longestMatch isLiteral (cs.drop p) = literal)
    (hne : literal ≠ []) :
    haltAt cs p (.reading ⟨.gap, k⟩) =
      haltAt cs (p + literal.length)
        (deliver (.number (.ofOffset cs p) (literalValue literal)) k) := by
  obtain ⟨w, t, hw, ht⟩ := exists_literal_of_longestMatch (h ▸ hne)
  rw [hw, longestMatch_literal w ht] at h
  subst h
  have hspan : Spans cs p (p + w.spell.length) w.spell := ⟨⟨t, hw.symm⟩, rfl⟩
  refine haltAt_of_spans hspan ?_
  rw [literalValue_spell]
  obtain rfl : cs.drop (p + w.spell.length) = t := by
    rw [← List.drop_drop, hw, List.drop_left]
  exact halt_literal w ht

/-- In a string, a backslash decides how the character behind it is read. -/
theorem haltAt_escape {start : Location} {ds : List Char} (hslash : cs[p]? = some '\\')
    (hc : cs[p + 1]? = some c) :
    haltAt cs p (.reading ⟨.string start ds, k⟩) =
      haltAt cs (p + 2) ((State.mk (.escape start ds (.ofOffset cs p)) k).step (.ofOffset cs (p + 1)) c
        (cs.drop (p + 2))) := by
  rw [haltAt_succ hslash]
  exact haltAt_succ hc

/-- The characters of a string are collected. -/
theorem Body.haltAt {ds : List Char} (h : Body cs a b ds) (start : Location) (k : List Open) :
    Reader.haltAt cs a (.reading ⟨.string start [], k⟩) =
      Reader.haltAt cs b (.reading ⟨.string start ds, k⟩) := by
  induction h with
  | nil => rfl
  | char _ hc hquote hslash ih => rw [ih, haltAt_succ hc, step_string _ _ hquote hslash]
  | escape _ hslash hc hd ih =>
    rw [escaped_eq] at hd
    rw [ih, haltAt_escape hslash hc]
    simp only [State.step, hd]

/-- A mark opens its short notation, unless what follows makes another mark of it. -/
theorem halt_mark {sugar : Sugar} (hne : sugar ≠ .withMeta)
    (hcs : sugar = .unquote → cs.head? ≠ some '@') :
    (State.mk .gap k).halt l (sugar.mark ++ cs) =
      (State.mk .gap (.target sugar l [] :: k)).halt (l.after sugar.mark) cs := by
  cases sugar with
  | quote => rfl
  | quasiquote => rfl
  | unquote =>
    have hnext : nextIs (· = '@') cs = false := by
      cases cs with
      | nil => rfl
      | cons c cs => simpa [nextIs] using hcs rfl
    show ((State.mk .gap k).begin l '~' cs).halt _ cs = _
    rw [State.begin, hnext]
    rfl
  | spliceUnquote => rfl
  | deref => rfl
  | withMeta => exact absurd rfl hne

/-- A caret in front of a hash-map waits for it. -/
theorem halt_caret (hcs : cs.head? = some '{') :
    (State.mk .gap k).halt l ('^' :: cs) = (State.mk .gap (.caret l :: k)).halt (l.next '^') cs := by
  cases cs with
  | nil => cases hcs
  | cons c cs => cases hcs; rfl

/-- A short notation opens a form. -/
theorem Marked.haltAt {sugar : Sugar} (h : Marked cs p sugar) (hne : sugar ≠ .withMeta)
    (k : List Open) :
    Reader.haltAt cs p (.reading ⟨.gap, k⟩) =
      Reader.haltAt cs (p + sugar.mark.length)
        (.reading ⟨.gap, .target sugar (.ofOffset cs p) [] :: k⟩) := by
  have hspan : Spans cs p (p + sugar.mark.length) sugar.mark := ⟨h.1, rfl⟩
  refine haltAt_of_spans hspan (halt_mark hne ?_)
  rintro rfl
  rw [List.head?_drop]
  exact h.2 rfl

/-- A caret waits for the hash-map behind it. -/
theorem Marked.haltAt_caret (h : Marked cs p .withMeta) (k : List Open) :
    Reader.haltAt cs p (.reading ⟨.gap, k⟩) =
      Reader.haltAt cs (p + 1) (.reading ⟨.gap, .caret (.ofOffset cs p) :: k⟩) := by
  have hbrace := h.brace
  obtain ⟨⟨t, ht⟩, -⟩ := h
  rw [haltAt_succ (getElem?_of_drop ht.symm), drop_of_getElem? hbrace]
  rfl

/-! ### Brackets -/

theorem haltAt_opener (bracket : Bracket) (h : cs[p]? = some bracket.opener) :
    haltAt cs p (.reading ⟨.gap, k⟩) =
      haltAt cs (p + 1) (.reading ⟨.gap, .bracket bracket (.ofOffset cs p) [] :: k⟩) := by
  rw [haltAt_succ h]
  cases bracket <;> rfl

theorem haltAt_closer (h : cs[p]? = some c) (hc : c ∈ [')', ']', '}']) :
    haltAt cs p (.reading ⟨.gap, k⟩) = haltAt cs (p + 1) (close c (.ofOffset cs p) k) := by
  rw [haltAt_succ h]
  simp only [List.mem_cons, List.not_mem_nil, or_false] at hc
  rcases hc with rfl | rfl | rfl <;> rfl

/-- The elements between brackets are collected. -/
theorem haltAt_laid {bracket : Bracket} {start : Location} :
    ∀ {xs : List Noted} {a : Nat} (elements : List Value), Laid cs a b xs →
    (∀ x ∈ xs, ∀ k, haltAt cs x.start (.reading ⟨.gap, k⟩) = haltAt cs x.stop (deliver x.value k)) →
    haltAt cs a (.reading ⟨.gap, .bracket bracket start elements :: k⟩) =
      haltAt cs b (.reading ⟨.gap,
        .bracket bracket start ((xs.map Noted.value).reverse ++ elements) :: k⟩)
  | [], _, _, hgap, _ => Gap.haltAt hgap _
  | x :: xs, _, elements, ⟨hgap, _, hxs⟩, hvalues => by
    obtain ⟨hx, hvalues⟩ := List.forall_mem_cons.mp hvalues
    rw [hgap.haltAt, hx]
    refine (haltAt_laid (x.value :: elements) hxs hvalues).trans ?_
    rw [List.map_cons, List.reverse_cons, List.append_assoc]
    rfl

/-- What a pair of brackets makes goes to the innermost open form. -/
theorem haltAt_bracket (bracket : Bracket) {r : Nat} {xs : List Noted} {v : Value}
    (hopen : cs[p]? = some bracket.opener) (hxs : Laid cs (p + 1) r xs)
    (hvalues : ∀ x ∈ xs, ∀ k,
      haltAt cs x.start (.reading ⟨.gap, k⟩) = haltAt cs x.stop (deliver x.value k))
    (hclose : cs[r]? = some bracket.closer)
    (hbuild : build bracket (.ofOffset cs p) (xs.map Noted.value) = .ok v) (k : List Open) :
    haltAt cs p (.reading ⟨.gap, k⟩) = haltAt cs (r + 1) (deliver v k) := by
  have hcloser : bracket.closer ∈ [')', ']', '}'] := by cases bracket <;> decide
  rw [haltAt_opener _ hopen, haltAt_laid [] hxs hvalues, haltAt_closer hclose hcloser, close,
    if_pos rfl, List.append_nil, List.reverse_reverse, hbuild]

/-! ### Values and open forms -/

/-- **The reader finds the value that is written there.** -/
theorem Stands.haltAt {v : Value} (h : Stands cs p e v) : ∀ k : List Open,
    Reader.haltAt cs p (.reading ⟨.gap, k⟩) = Reader.haltAt cs e (deliver v k) := by
  induction h with
  | list hopen hxs _ hclose ih => exact haltAt_bracket .list hopen hxs ih hclose rfl
  | vector hopen hxs _ hclose ih => exact haltAt_bracket .vector hopen hxs ih hclose rfl
  | map hopen hxs _ hclose heven ih =>
    refine haltAt_bracket .map hopen hxs ih hclose ?_
    rw [build, pairs_of_even (by simpa using heven)]
  | sugar hne hmark hgap _ ih =>
    intro k
    rw [hmark.haltAt hne, hgap.haltAt, ih, headOf_eq]
    rfl
  | withMeta hmark _ hgap _ ihdata ih =>
    intro k
    rw [hmark.haltAt_caret, ihdata]
    refine (hgap.haltAt _).trans ?_
    rw [ih]
    rfl
  | number hliteral hne => exact fun k => haltAt_number hliteral hne
  | keyword hspan hchars hends => exact fun k => haltAt_keyword hspan hchars hends
  | string hquote hbody hclose =>
    intro k
    rw [haltAt_succ hquote]
    refine (hbody.haltAt _ k).trans ?_
    rw [haltAt_succ hclose]
    rfl
  | symbol hname hother =>
    intro k
    simp only [List.mem_cons, List.not_mem_nil, or_false, not_or] at hother
    rw [hname.haltAt, nameValue, if_neg hother.1, if_neg hother.2.1, if_neg hother.2.2]
  | @bool _ _ b hname =>
    intro k
    rw [hname.haltAt]
    cases b <;> rfl
  | nil hname =>
    intro k
    rw [hname.haltAt]
    rfl

/-- **The reader has the forms open that are open in the text.** -/
theorem Opened.haltAt (h : Opened cs low p k) :
    Reader.haltAt cs low (.reading .initial) = Reader.haltAt cs p (.reading ⟨.gap, k⟩) := by
  induction h with
  | nil hgap => exact hgap.haltAt []
  | bracket hopen hxs hstands _ ih =>
    rw [ih, haltAt_opener _ hopen, haltAt_laid [] hxs fun x hx => (hstands x hx).haltAt,
      List.append_nil]
  | caret hmark _ ih => rw [ih, hmark.haltAt_caret]
  | target hne hmark hgap _ ih => rw [ih, hmark.haltAt hne, hgap.haltAt]
  | withMeta hmark hdata hgap _ ih =>
    rw [ih, hmark.haltAt_caret, hdata.haltAt]
    exact hgap.haltAt _

/-! ### Answers -/

/-- Where the text ends with a form open, the reader says so. -/
theorem answer_haltAt_length {e : ReadError} (h : s.atEnd? = some e) :
    (haltAt cs cs.length (.reading s)).answer =
      (.error e, ⟨cs.drop cs.length, .ofOffset cs cs.length⟩) := by
  rw [haltAt, Halt.answer_settled, List.drop_length, Step.halt_reading, State.halt_nil, Halt.answer, h]

theorem answer_haltAt_failed (e : ReadError) :
    (haltAt cs p (.failed e)).answer = (.error e, ⟨cs.drop p, .ofOffset cs p⟩) :=
  Halt.answer_settled _

theorem close_of_not_closes {l : Location} (h : closesInnermost c k = false) :
    close c l k = .failed ⟨.unexpectedCloser c, l⟩ := by
  unfold close
  split
  · next bracket _ _ _ =>
    have hc : c ≠ bracket.closer := by
      cases bracket <;> exact of_decide_eq_false h
    rw [if_neg hc]
  · rfl

/-- **The reader reports the error that is to blame.** -/
theorem Blamed.answer {cause : ReadCause} (h : Blamed cs low cause p e) :
    (Reader.haltAt cs low (.reading .initial)).answer =
      (.error ⟨cause, .ofOffset cs p⟩, ⟨cs.drop e, .ofOffset cs e⟩) := by
  cases h with
  | unterminated hk hopen hxs hstands =>
    rw [hk.haltAt, haltAt_opener _ hopen, haltAt_laid [] hxs fun x hx => (hstands x hx).haltAt]
    exact answer_haltAt_length rfl
  | @unterminatedString _ r _ _ hk hquote hbody hend =>
    rw [hk.haltAt, haltAt_succ hquote]
    refine (congrArg Halt.answer (hbody.haltAt _ _)).trans ?_
    rcases hend with rfl | ⟨hslash, hr⟩
    · exact answer_haltAt_length rfl
    · rw [haltAt_succ hslash, hr]
      exact answer_haltAt_length rfl
  | unknownEscape hk hquote hbody hslash hc hnone =>
    rw [escaped_eq] at hnone
    rw [hk.haltAt, haltAt_succ hquote]
    refine (congrArg Halt.answer (hbody.haltAt _ _)).trans ?_
    rw [haltAt_escape hslash hc]
    simp only [State.step, hnone]
    exact answer_haltAt_failed _
  | @missingMapValue q r xs x k hk hopen hxs hstands heven hclose =>
    have hlength : ((xs ++ [x]).map Noted.value).length % 2 ≠ 0 := by simp; omega
    obtain ⟨key, hlast, hpairs⟩ := pairs_of_odd hlength
    obtain rfl : x.value = key := by simpa using hlast
    rw [hk.haltAt, haltAt_opener .map hopen,
      haltAt_laid [] hxs fun x hx => (hstands x hx).haltAt, haltAt_closer hclose (by decide), close,
      if_pos (by rfl), List.append_nil, List.reverse_reverse, build, hpairs]
    dsimp only
    rw [(hstands x (by simp)).location]
    exact answer_haltAt_failed _
  | missingTarget hk hne hmark hgap =>
    rw [hk.haltAt, hmark.haltAt hne, hgap.haltAt]
    exact answer_haltAt_length rfl
  | missingMetaTarget hk hmark hdata hgap =>
    rw [hk.haltAt, hmark.haltAt_caret, hdata.haltAt]
    refine (congrArg Halt.answer (hgap.haltAt _)).trans ?_
    exact answer_haltAt_length rfl
  | unexpectedCloser hk hc hcloser hcloses =>
    rw [hk.haltAt, haltAt_closer hc hcloser, close_of_not_closes hcloses]
    exact answer_haltAt_failed _

/-- Behind a gap there is a value, which the reader finds. -/
theorem haltAt_of_stands {v : Value} (hgap : Gap cs p q) (hv : Stands cs q e v) :
    haltAt cs p (.reading .initial) = .datum v ⟨cs.drop e, .ofOffset cs e⟩ := by
  have hgap := hgap.haltAt []
  rw [State.initial, hgap, hv.haltAt]
  rfl

/-- Behind a gap the text ends, and nothing was open. -/
theorem haltAt_of_gap (hgap : Gap cs p cs.length) :
    haltAt cs p (.reading .initial) = .ended .initial (.ofOffset cs cs.length) := by
  have hgap := hgap.haltAt []
  rw [State.initial, hgap, haltAt, List.drop_length]
  rfl

/-- **A call gives the answer that is laid out in the text.** -/
theorem Answered.answer {r : Except ReadError Value} (h : Answered cs p e r) :
    (Reader.haltAt cs p (.reading .initial)).answer = (r, ⟨cs.drop e, .ofOffset cs e⟩) := by
  cases r with
  | ok v =>
    rcases h with ⟨rfl, hgap, rfl⟩ | ⟨q, hgap, hv⟩
    · rw [haltAt_of_gap hgap, List.drop_length]
      rfl
    · rw [haltAt_of_stands hgap hv]
      rfl
  | error error =>
    obtain ⟨q, -, -, hlocation, hblamed⟩ := h
    rw [hblamed.answer, ← hlocation]

end

end Reader

/-! ### Calls -/

namespace Cursor

/-- The cursor is at an offset of a text. -/
structure At (cs : List Char) (p : Nat) (c : Cursor) : Prop where
  le : p ≤ cs.length
  rest : c.rest = cs.drop p
  location : c.location = .ofOffset cs p
  position : c.position = (String.ofList (cs.take p)).utf8ByteSize

/-- The cursor behind what `n` calls read, also after an error or the end. -/
def advance (c : Cursor) : Nat → Cursor
  | 0 => c
  | n + 1 => (c.advance n).next.2

theorem at_ofText (text : String) : (ofText text).At text.toList 0 :=
  ⟨Nat.zero_le _, rfl, (Location.ofOffset_zero _).symm, rfl⟩

/-- A cursor is at one offset only. -/
theorem At.unique {cs : List Char} {p q : Nat} {c : Cursor} (hp : c.At cs p) (hq : c.At cs q) :
    p = q := by
  have hlength := congrArg List.length (hp.rest.symm.trans hq.rest)
  have := hp.le
  have := hq.le
  rw [List.length_drop, List.length_drop] at hlength
  omega

end Cursor

namespace Reader

variable {cs : List Char} {p e : Nat} {c : Cursor} {r : Except ReadError Value}

theorem utf8ByteSize_take_add_drop (cs : List Char) (p : Nat) :
    (String.ofList (cs.take p)).utf8ByteSize + (String.ofList (cs.drop p)).utf8ByteSize =
      (String.ofList cs).utf8ByteSize := by
  rw [← String.utf8ByteSize_append, ← String.ofList_append, List.take_append_drop]

/-- A call that begins at an offset gives the answer that is laid out from there on, and leaves the
cursor behind it. -/
theorem next_of_answered (hc : c.At cs p) (h : Answered cs p e r) :
    c.next.1 = r ∧ c.next.2.At cs e := by
  have hanswer := next_eq_halt c
  have hposition := position_next c
  have hhalt := h.answer
  rw [haltAt, Halt.answer_settled, Step.halt_reading, ← hc.location, ← hc.rest] at hhalt
  rw [hhalt] at hanswer
  have hrest : c.next.2.rest = cs.drop e := congrArg (fun a => a.2.rest) hanswer
  refine ⟨congrArg Prod.fst hanswer, h.le_length, hrest, congrArg (fun a => a.2.location) hanswer, ?_⟩
  have hbefore := utf8ByteSize_take_add_drop cs p
  have hbehind := utf8ByteSize_take_add_drop cs e
  rw [hrest, hc.rest, hc.position] at hposition
  omega

theorem answered_next (hc : c.At cs p) : ∃ e, c.next.2.At cs e ∧ Answered cs p e c.next.1 := by
  obtain ⟨e, r, h⟩ := (Opened.nil .nil : Opened cs p p []).exists_answered hc.le
  obtain ⟨rfl, he⟩ := next_of_answered hc h
  exact ⟨e, he, h⟩

/-- What reading finds from an offset on is written in the text. -/
theorem stands_scan (hp : p ≤ cs.length) {v : Value}
    (hv : v ∈ (Reading.scan .initial (.ofOffset cs p) (cs.drop p)).data) : ∃ q e, Stands cs q e v := by
  -- Each datum takes at least one character, so less and less of the text is left.
  induction hn : cs.length - p using Nat.strongRecOn generalizing p with
  | ind n ih =>
    obtain ⟨e, r, h⟩ := (Opened.nil .nil : Opened cs p p []).exists_answered hp
    rw [scan_eq_halt, ← Halt.reading_settled] at hv
    change v ∈ ((haltAt cs p (.reading .initial)).reading _).data at hv
    cases r with
    | error error =>
      have hanswer := congrArg Prod.fst h.answer
      cases hhalt : haltAt cs p (.reading .initial) with
      | ended s l =>
        rw [hhalt, Halt.reading] at hv
        cases hend : s.atEnd? <;> rw [hend] at hv <;> cases hv
      | failed e u => rw [hhalt] at hv; cases hv
      | datum w u => rw [hhalt] at hanswer; cases hanswer
    | ok w =>
      rcases h with ⟨-, hgap, rfl⟩ | ⟨q, hgap, hw⟩
      · rw [haltAt_of_gap hgap] at hv
        cases hv
      · rw [haltAt_of_stands hgap hw] at hv
        rcases List.mem_cons.mp hv with rfl | hv
        · exact ⟨q, e, hw⟩
        · have := hgap.le
          have := hw.lt
          have := hw.le_length
          exact ih (cs.length - e) (by omega) hw.le_length hv rfl

end Reader

/-- **The data of a text are written in it.** -/
theorem stands_data {text : String} {v : Value} (hv : v ∈ (Reading.ofText text).data) :
    ∃ p e, Reader.Stands text.toList p e v := by
  rw [Reading.ofText, ← Location.ofOffset_zero text.toList] at hv
  exact Reader.stands_scan (p := 0) (Nat.zero_le _) hv

theorem Cursor.at_advance (text : String) (n : Nat) :
    ∃ p, ((ofText text).advance n).At text.toList p := by
  induction n with
  | zero => exact ⟨0, at_ofText text⟩
  | succ n ih =>
    obtain ⟨p, hp⟩ := ih
    obtain ⟨p', hp', -⟩ := Reader.answered_next hp
    exact ⟨p', hp'⟩

/-- **Every location that is reported is exact**, after any number of calls, whether they found a
datum or failed.  The cursor is at an offset of the text, by its rest, its location and its bytes, and
so it is behind the next call.  The next answer is laid out between the two offsets, and no other
answer is. -/
theorem next_placed (text : String) (n : Nat) :
    let cs := text.toList
    let c := (Cursor.ofText text).advance n
    ∃ p e, c.At cs p ∧ c.next.2.At cs e ∧ Reader.Answered cs p e c.next.1 ∧
      ∀ e' r, Reader.Answered cs p e' r → e' = e ∧ r = c.next.1 := by
  obtain ⟨p, hp⟩ := Cursor.at_advance text n
  obtain ⟨e, he, hanswer⟩ := Reader.answered_next hp
  refine ⟨p, e, hp, he, hanswer, fun e' r h => ?_⟩
  obtain ⟨hr, he'⟩ := Reader.next_of_answered hp h
  exact ⟨he'.unique he, hr.symm⟩

end MiniLisp
