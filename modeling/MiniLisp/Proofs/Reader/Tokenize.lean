import MiniLisp.Proofs.Reader.Spelling

/-!
# Reading goes from token to token

The reader looks at one character after the other.  It comes to the same as taking one token after
the other: `feed` is what a whole token does to the open forms, and `drive` feeds all tokens of a
text.

* `reading_takeToken`: the characters of a token amount to one step.
* `outcome_scan`: **reading a text is driving through its tokens**.
-/

namespace MiniLisp.Reader

/-! ### A token is one step -/

/-- What a token does to the open forms. -/
def feed (t : Located) (k : List Open) : Step :=
  match t.token with
  | .opener bracket => .reading ⟨.gap, .bracket bracket t.location [] :: k⟩
  | .closer c => close c t.location k
  | .mark sugar => .reading ⟨.gap, .target sugar t.location [] :: k⟩
  | .caret =>
    .reading ⟨.gap, .bracket .map (t.location.next '^') [] :: .caret t.location :: k⟩
  | .string text => deliver (.string t.location text) k
  | .keyword name => deliver (.keyword t.location name) k
  | .number x => deliver (.number t.location x) k
  | .name name => deliver (nameValue t.location name) k
  | .error e => .failed e

section

variable {k : List Open} {l start : Location} {c : Char} {cs : List Char}

/-- Behind its opening quote, a string is delivered if it is closed, and else shows its error. -/
theorem reading_string (onward : Unread → Reading) : ∀ chars : List Char,
    ((State.mk (.string start chars) k).halt l cs).reading onward =
      match stringText start l cs with
      | .ok (text, behind) =>
        ((deliver (.string start (String.ofList (chars.reverse ++ text))) k).halt behind.location
          behind.rest).reading onward
      | .error e => ⟨[], .error e⟩ := by
  fun_induction stringText start l cs with
  | case1 => intro chars; rfl
  | case2 l cs =>
    intro chars
    show _ = ((deliver (.string start (String.ofList (chars.reverse ++ []))) k).halt
      (l.beyond ['"']) _).reading _
    rw [List.append_nil, l.beyond_singleton]
    rfl
  | case3 => intro chars; rfl
  | case4 l d ds hd hq =>
    intro chars
    rw [escaped_eq] at hd
    rw [halt_escape, hd]
    rfl
  | case5 l d ds e he hq ih =>
    intro chars
    rw [escaped_eq] at he
    have hplace : (l.next '\\').next d = l.beyond ['\\', d] :=
      (l.beyond_eq_after ['\\', d]).symm
    rw [halt_escape, he, Step.halt_reading, hplace, ih]
    cases stringText start (l.beyond ['\\', d]) ds with
    | error error => rfl
    | ok p => simp [Except.map]
  | case6 l c cs hq hs ih =>
    intro chars
    rw [State.halt_cons, step_string chars k hq hs, Step.halt_reading, ← l.beyond_singleton, ih]
    cases stringText start (l.beyond [c]) cs with
    | error error => rfl
    | ok p => simp [Except.map]

theorem takeToken_of_not_mark (h : c ∉ tokenMarks) :
    takeToken l c cs =
      if c = '^' && cs.head? = some '{' then (.caret, ⟨cs.tail, l.beyond [c, '{']⟩)
      else if Decimal.isDigit c || c = '-' && cs.head?.any Decimal.isDigit then numberToken l c cs
      else nameToken l c cs := by
  unfold takeToken
  split
  iterate 12 exact absurd (by decide) h
  rfl

theorem nextIs_eq {d : Char} : nextIs (· = d) cs = decide (cs.head? = some d) := by
  cases cs <;> simp

theorem halt_nameToken (hbegin : beginsName c cs = true) :
    (State.mk .gap k).halt l (c :: cs) =
      (feed ⟨(nameToken l c cs).1, l⟩ k).halt (nameToken l c cs).2.location
        (nameToken l c cs).2.rest := by
  rw [nameToken, isNameChar_eq, Location.beyond_eq_after]
  have hsplit := List.takeWhile_append_dropWhile (p := isSymbolChar) (l := cs)
  have hbegin' : beginsName c (cs.takeWhile isSymbolChar ++ cs.dropWhile isSymbolChar) = true := by
    rw [hsplit]
    exact hbegin
  have h := halt_name (k := k) (l := l) hbegin' mem_takeWhile (nextIs_dropWhile isSymbolChar cs)
  rw [List.cons_append, hsplit] at h
  exact h

theorem halt_numberToken
    (hbegin : (Decimal.isDigit c || c = '-' && cs.head?.any Decimal.isDigit) = true) :
    (State.mk .gap k).halt l (c :: cs) =
      (feed ⟨(numberToken l c cs).1, l⟩ k).halt (numberToken l c cs).2.location
        (numberToken l c cs).2.rest := by
  obtain ⟨w, t, hw, ht⟩ : ∃ (w : Decimal.Literal) (t : List Char), c :: cs = w.spell ++ t ∧
      numberGoesOn (!w.places.isEmpty) t = false := by
    cases hc : Decimal.isDigit c with
    | true =>
      have hcs : nextIs Decimal.isDigit (c :: cs) = true := hc
      exact exists_literal_append false hcs
    | false =>
      rw [hc, Bool.false_or, Bool.and_eq_true, decide_eq_true_eq] at hbegin
      obtain ⟨rfl, hcs⟩ := hbegin
      exact exists_literal_append true hcs
  have hspell : w.spell ≠ [] := by
    simp [Decimal.Literal.spell, w.whole_ne_nil]
  have hdrop : cs.drop (w.spell.length - 1) = t := by
    have h := congrArg (List.drop w.spell.length) hw
    rw [List.drop_left] at h
    obtain ⟨m, hm⟩ : ∃ m, w.spell.length = m + 1 :=
      ⟨w.spell.length - 1, (Nat.sub_add_cancel (List.length_pos_iff.mpr hspell)).symm⟩
    rw [hm] at h ⊢
    exact h
  have htoken : numberToken l c cs = (.number w.value.toFloat, ⟨t, l.after w.spell⟩) := by
    rw [numberToken, hw, longestMatch_literal w ht, literalValue_spell, Location.beyond_eq_after,
      hdrop]
  rw [htoken, hw]
  exact halt_literal w ht

theorem beginsName_of_not_mark (hmark : c ∉ tokenMarks) (hsep : isSeparator c = false)
    (hsemicolon : c ≠ ';') (hcaret : (c = '^' && cs.head? = some '{') = false)
    (hdigit : (Decimal.isDigit c || c = '-' && cs.head?.any Decimal.isDigit) = false) :
    beginsName c cs = true := by
  simp only [tokenMarks, List.mem_cons, List.not_mem_nil, or_false, not_or] at hmark
  have hsymbol : isSymbolChar c = true := by
    simp [isSymbolChar, isDelimiter, hsep, hsemicolon, hmark]
  rw [Bool.or_eq_false_iff] at hdigit
  have hminus : (decide (c = '-') && nextIs Decimal.isDigit cs) = false := hdigit.2
  rw [beginsName, hsymbol, hdigit.1, hminus, nextIs_eq, hcaret]
  simp [hmark]

/-- **The characters of a token amount to one step**, which is what the token does. -/
theorem reading_takeToken (onward : Unread → Reading) (hsep : isSeparator c = false)
    (hsemicolon : c ≠ ';') :
    ((State.mk .gap k).halt l (c :: cs)).reading onward =
      ((feed ⟨(takeToken l c cs).1, l⟩ k).halt (takeToken l c cs).2.location
        (takeToken l c cs).2.rest).reading onward := by
  by_cases hmark : c ∈ tokenMarks
  · simp only [tokenMarks, List.mem_cons, List.not_mem_nil, or_false] at hmark
    rcases hmark with rfl | rfl | rfl | rfl | rfl | rfl | rfl | rfl | rfl | rfl | rfl | rfl
    iterate 9
      rw [State.halt_cons, ← l.beyond_singleton]
      rfl
    · refine congrArg (Halt.reading onward) ?_
      by_cases hat : cs.head? = some '@'
      · obtain ⟨t, rfl⟩ := List.head?_eq_some_iff.mp hat
        rfl
      · have htoken : takeToken l '~' cs = (.mark .unquote, ⟨cs, l.next '~'⟩) := if_neg hat
        have hstep : (State.mk .gap k).step l '~' cs =
            .reading ⟨.gap, .target .unquote l [] :: k⟩ :=
          if_neg (by rw [nextIs_eq, decide_eq_true_eq]; exact hat)
        rw [State.halt_cons, hstep, htoken]
        rfl
    · rw [State.halt_cons]
      show ((State.mk (.string l []) k).halt (l.next '"') cs).reading onward = _
      rw [← l.beyond_singleton, reading_string, takeToken, stringToken]
      cases stringText l (l.beyond ['"']) cs with
      | ok p => rfl
      | error e => rfl
    · refine congrArg (Halt.reading onward) ?_
      have hname : ∀ d ∈ cs.takeWhile isSymbolChar, isSymbolChar d = true := mem_takeWhile
      have h := halt_keyword (k := k) (l := l) hname (nextIs_dropWhile isSymbolChar cs)
      rw [List.cons_append, List.takeWhile_append_dropWhile] at h
      rw [h, takeToken, keywordToken, isNameChar_eq, l.beyond_eq_after]
      rfl
  · rw [takeToken_of_not_mark hmark]
    refine congrArg (Halt.reading onward) ?_
    cases hcaret : (decide (c = '^') && decide (cs.head? = some '{')) with
    | true =>
      rw [Bool.and_eq_true, decide_eq_true_eq, decide_eq_true_eq] at hcaret
      obtain ⟨rfl, hbrace⟩ := hcaret
      obtain ⟨t, rfl⟩ := List.head?_eq_some_iff.mp hbrace
      rfl
    | false =>
      rw [if_neg Bool.false_ne_true]
      cases hdigit : (Decimal.isDigit c || decide (c = '-') && cs.head?.any Decimal.isDigit) with
      | true => rw [if_pos rfl]; exact halt_numberToken hdigit
      | false =>
        rw [if_neg Bool.false_ne_true]
        exact halt_nameToken (beginsName_of_not_mark hmark hsep hsemicolon hcaret hdigit)

end

/-! ### From token to token -/

/-- The data of a reading, or its error. -/
def outcome (r : Reading) : Except ReadError (List Value) :=
  match r.ending with
  | .ok _ => .ok r.data
  | .error e => .error e

/-- What comes of feeding all tokens to the open forms. -/
def drive (k : List Open) : List Located → Except ReadError (List Value)
  | [] =>
    match (State.mk .gap k).atEnd? with
    | none => .ok []
    | some e => .error e
  | t :: ts =>
    match feed t k with
    | .reading s => drive s.stack ts
    | .datum v => (drive [] ts).map (v :: ·)
    | .failed e => .error e

/-- What comes of feeding tokens behind one that led to a step. -/
def Step.drive (step : Step) (ts : List Located) : Except ReadError (List Value) :=
  match step with
  | .reading s => Reader.drive s.stack ts
  | .datum v => (Reader.drive [] ts).map (v :: ·)
  | .failed e => .error e

theorem drive_cons (k : List Open) (t : Located) (ts : List Located) :
    drive k (t :: ts) = (feed t k).drive ts := by
  rw [drive]
  cases feed t k <;> rfl

/-- Behind a token the reader is between two tokens. -/
theorem mode_feed {t : Located} {k : List Open} {s : State} (h : feed t k = .reading s) :
    s.mode = .gap := by
  unfold feed at h
  split at h
  · cases h; rfl
  · exact mode_close h
  · cases h; rfl
  · cases h; rfl
  iterate 4 exact mode_deliver h
  · cases h

theorem scan_cons_reading {s s' : State} {l : Location} {c : Char} {cs : List Char}
    (h : s.step l c cs = .reading s') :
    Reading.scan s l (c :: cs) = Reading.scan s' (l.next c) cs := by
  rw [Reading.scan, h]

/-- What stands between two tokens leaves no trace. -/
theorem scan_skip {k : List Open} : ∀ (cs : List Char) (comment : Bool) (l : Location),
    Reading.scan ⟨if comment then .comment else .gap, k⟩ l cs =
      Reading.scan ⟨.gap, k⟩ (skip comment l cs).location (skip comment l cs).rest := by
  intro cs
  induction cs with
  | nil => intro comment l; cases comment <;> rfl
  | cons c cs ih =>
    intro comment l
    cases comment with
    | true =>
      have hskip : skip true l (c :: cs) = skip (c != '\n') (l.next c) cs := by
        rw [skip_cons, if_pos rfl]
      rw [hskip, ← ih, if_pos rfl, scan_cons_reading (step_comment k)]
      by_cases hc : c = '\n'
      · rw [if_pos hc, if_neg (by simp [hc])]
      · rw [if_neg hc, if_pos (by simp [hc])]
    | false =>
      rw [if_neg Bool.false_ne_true]
      by_cases hsep : isSeparator c = true
      · have hskip : skip false l (c :: cs) = skip false (l.next c) cs := by
          rw [skip_cons, if_neg Bool.false_ne_true, if_pos hsep]
        rw [hskip, ← ih, if_neg Bool.false_ne_true]
        exact scan_cons_reading (begin_separator _ hsep)
      · by_cases hsemicolon : c = ';'
        · have hskip : skip false l (c :: cs) = skip true (l.next c) cs := by
            rw [skip_cons, if_neg Bool.false_ne_true, if_neg hsep, if_pos hsemicolon]
          rw [hskip, ← ih, if_pos rfl]
          subst hsemicolon
          exact scan_cons_reading rfl
        · have hskip : skip false l (c :: cs) = ⟨c :: cs, l⟩ := by
            rw [skip_cons, if_neg Bool.false_ne_true, if_neg hsep, if_neg hsemicolon]
          rw [hskip]

/-- What stands behind separators and comments begins a token. -/
theorem of_skip_eq_cons {c : Char} {ds : List Char} {start : Location} :
    ∀ {cs : List Char} {comment : Bool} {l : Location}, skip comment l cs = ⟨c :: ds, start⟩ →
    isSeparator c = false ∧ c ≠ ';' := by
  intro cs
  induction cs with
  | nil => intro comment l h; cases h
  | cons x cs ih =>
    intro comment l h
    rw [skip_cons] at h
    split at h
    · exact ih h
    · split at h
      · exact ih h
      · split at h
        · exact ih h
        · next hsep hsemicolon =>
          cases h
          exact ⟨Bool.eq_false_iff.mpr hsep, hsemicolon⟩

theorem outcome_cons (v : Value) (r : Reading) :
    outcome ⟨v :: r.data, r.ending⟩ = (outcome r).map (v :: ·) := by
  rw [outcome, outcome]
  cases r.ending <;> rfl

/-- **Reading a text is driving through its tokens.** -/
theorem outcome_scan (k : List Open) (l : Location) (cs : List Char) :
    outcome (Reading.scan ⟨.gap, k⟩ l cs) = drive k (tokens l cs) := by
  induction hn : cs.length using Nat.strongRecOn generalizing k l cs with
  | ind n ih =>
    have hskip := scan_skip (k := k) cs false l
    rw [if_neg Bool.false_ne_true] at hskip
    rw [hskip, tokens]
    split
    · next start h =>
      rw [h, drive, Reading.scan]
      cases (State.mk .gap k).atEnd? <;> rfl
    · next c ds start h =>
      obtain ⟨hsep, hsemicolon⟩ := of_skip_eq_cons h
      have hlength : (takeToken start c ds).2.rest.length < n := by
        have hle := length_skip_le cs false l
        rw [h, hn] at hle
        exact Nat.lt_of_le_of_lt (length_takeToken_le start c ds) hle
      rw [h, drive_cons, scan_eq_halt, reading_takeToken _ hsep hsemicolon]
      have ih := fun k l => ih _ hlength k l _ rfl
      generalize (takeToken start c ds).2 = behind at ih
      cases hfeed : feed ⟨(takeToken start c ds).1, start⟩ k with
      | reading s =>
        obtain ⟨mode, stack⟩ := s
        obtain rfl : mode = .gap := mode_feed hfeed
        rw [Step.halt_reading, ← scan_eq_halt, ih]
        rfl
      | datum v =>
        show outcome ⟨v :: (Reading.scan .initial _ _).data, (Reading.scan .initial _ _).ending⟩ = _
        rw [outcome_cons]
        exact congrArg _ (ih [] _)
      | failed e => rfl

end MiniLisp.Reader
