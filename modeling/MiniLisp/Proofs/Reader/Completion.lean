import MiniLisp.Proofs.Reader.Lexeme

/-!
# Errors that more text can mend

Reading fails in two ways.  Either the text ends too early: then some more text completes a datum,
whatever forms are open.  Or a character is wrong: then it stays wrong, whatever follows.

To tell where a token ends the reader looks ahead, so more text could change what it did before the
error.  `Alike` says when two texts ahead are the same to the reader.

* `step_eq_failed`: the characters that are wrong.
* `halt_append_of_failed`: a wrong character stays wrong.
* `exists_completion`: every stack of open forms can be closed.
* `readFirst_error_append`: **an error is mended by more text or stays as it is**, and its cause says
  which.
-/

namespace MiniLisp

/-- Whether an error is due to the end of the text. -/
def ReadCause.atEnd : ReadCause → Bool
  | .unterminated _ => true
  | .unterminatedString => true
  | .missingTarget _ => true
  | .unknownEscape _ => false
  | .missingMapValue => false
  | .unexpectedCloser _ => false

namespace Reader

/-! ### Texts that look alike -/

/-- Two texts ahead that are the same to the reader. -/
structure Alike (a b : List Char) : Prop where
  symbol : nextIs isSymbolChar a = nextIs isSymbolChar b
  digit : nextIs Decimal.isDigit a = nextIs Decimal.isDigit b
  splice : nextIs (· = '@') a = nextIs (· = '@') b
  brace : nextIs (· = '{') a = nextIs (· = '{') b
  number : ∀ point, numberGoesOn point a = numberGoesOn point b

theorem step_alike {a b : List Char} (h : Alike a b) (s : State) (l : Location) (c : Char) :
    s.step l c a = s.step l c b := by
  simp only [State.step, State.begin, symbolChar, keywordChars, numberDigit, h.symbol, h.digit,
    h.splice, h.brace, h.number]

/-- More text makes no difference behind two characters, or behind one that is no point. -/
theorem alike_append_of_cons {d : Char} {cs : List Char} (h : ¬(cs = [] ∧ d = '.'))
    (t : List Char) : Alike (d :: cs ++ t) (d :: cs) := by
  refine ⟨rfl, rfl, rfl, rfl, fun point => ?_⟩
  rw [List.cons_append, numberGoesOn, numberGoesOn]
  cases cs with
  | cons x cs => rfl
  | nil =>
    have hd : d ≠ '.' := fun hd => h ⟨rfl, hd⟩
    rw [decide_eq_false hd, Bool.and_false, Bool.false_and, Bool.false_and]

/-- Whether a text goes on with no token before it. -/
def startsAfresh (t : List Char) : Bool :=
  !nextIs isSymbolChar t && !nextIs (· = '{') t

theorem alike_append_of_startsAfresh {t : List Char} (ht : startsAfresh t = true)
    (cs : List Char) : Alike (cs ++ t) cs := by
  rw [startsAfresh, Bool.and_eq_true, Bool.not_eq_true', Bool.not_eq_true'] at ht
  have hdigit : nextIs Decimal.isDigit t = false :=
    nextIs_of_imp (fun _ => isSymbolChar_of_isDigit) ht.1
  cases cs with
  | nil =>
    have hsplice : nextIs (· = '@') t = false := by
      refine nextIs_of_imp (fun c hc => ?_) ht.1
      rw [of_decide_eq_true hc]
      decide
    refine ⟨ht.1, hdigit, hsplice, ht.2, fun point => ?_⟩
    exact numberGoesOn_of_nextIs point ht.1
  | cons d cs =>
    refine ⟨rfl, rfl, rfl, rfl, fun point => ?_⟩
    rw [List.cons_append, numberGoesOn, numberGoesOn]
    cases cs with
    | nil => rw [List.nil_append, hdigit, nextIs_nil]
    | cons x cs => rfl

/-! ### What a character can lead to -/

/-- Whether the text goes on with the token that the reader is in the middle of. -/
def Expects (s : State) (cs : List Char) : Prop :=
  match s.mode with
  | .symbol _ _ => nextIs isSymbolChar cs = true
  | .keyword _ _ => nextIs isSymbolChar cs = true
  | .number _ _ point => numberGoesOn point cs = true
  | .splice _ => nextIs (· = '@') cs = true
  | _ => True

theorem expects_of_gap {s : State} (h : s.mode = .gap) (cs : List Char) : Expects s cs := by
  rw [Expects, h]
  trivial

/-- The steps that a character can lead to: the token goes on, a string has a backslash, a datum is
delivered, a bracket is closed, or a letter stands behind a backslash that cannot. -/
inductive Leads (s : State) (l : Location) (c : Char) (a : List Char) : Step → Prop
  | onward {s' : State} : Expects s' a → (∀ start chars slash, s'.mode ≠ .escape start chars slash) →
      Leads s l c a (.reading s')
  | slash {start : Location} {chars : List Char} : s.mode = .string start chars → c = '\\' →
      Leads s l c a (.reading ⟨.escape start chars l, s.stack⟩)
  | delivered (v : Value) : Leads s l c a (deliver v s.stack)
  | closed : s.mode = .gap → c ∈ [')', ']', '}'] → Leads s l c a (close c l s.stack)
  | wrong {start slash : Location} {chars : List Char} : s.mode = .escape start chars slash →
      Text.unescape c = none → Leads s l c a (.failed ⟨.unknownEscape c, slash⟩)

section

variable {s : State} {l : Location} {c : Char} {a : List Char}

theorem leads_symbolChar (start : Location) (chars : List Char) :
    Leads s l c a (symbolChar start chars c a s.stack) := by
  rw [symbolChar]
  split
  · next h => exact .onward h (by simp)
  · exact .delivered _

theorem leads_keywordChars (start : Location) (chars : List Char) :
    Leads s l c a (keywordChars start chars a s.stack) := by
  rw [keywordChars]
  split
  · next h => exact .onward h (by simp)
  · exact .delivered _

theorem leads_numberDigit (start : Location) (value : Decimal) (point : Bool) :
    Leads s l c a (numberDigit start value point c a s.stack) := by
  unfold numberDigit
  dsimp only
  split
  · next h => exact .onward h (by simp)
  · exact .delivered _

theorem leads_push (form : Open) : Leads s l c a (s.push form) :=
  .onward trivial (by simp)

theorem leads_begin (hs : s.mode = .gap) : Leads s l c a (s.begin l c a) := by
  unfold State.begin
  split
  · exact .onward trivial (by simp)
  · exact leads_push _
  · exact leads_push _
  · exact leads_push _
  · exact .closed hs (by decide)
  · exact .closed hs (by decide)
  · exact .closed hs (by decide)
  · exact .onward trivial (by simp)
  · exact leads_push _
  · exact leads_push _
  · exact leads_push _
  · split
    · next h => exact .onward h (by simp)
    · exact leads_push _
  · split
    · exact leads_push _
    · exact leads_symbolChar l []
  · exact leads_keywordChars l []
  · split
    · next h =>
      refine .onward ?_ (by simp)
      show numberGoesOn false a = true
      cases a with
      | nil => cases h
      | cons d a =>
        have hd : Decimal.isDigit d = true := h
        rw [numberGoesOn, hd, Bool.true_or]
    · exact leads_symbolChar l []
  · split
    · exact .onward (expects_of_gap hs a) (by rw [hs]; simp)
    · split
      · exact leads_numberDigit l _ false
      · exact leads_symbolChar l []

/-- **What one character can lead to.** -/
theorem leads_step (hs : Expects s (c :: a)) : Leads s l c a (s.step l c a) := by
  obtain ⟨mode, k⟩ := s
  cases mode with
  | gap => exact leads_begin rfl
  | comment =>
    rw [step_comment]
    split
    · exact .onward trivial (by simp)
    · exact .onward trivial (by simp)
  | string start chars =>
    unfold State.step
    dsimp only
    split
    · exact .delivered _
    · split
      · next hc => exact .slash rfl hc
      · exact .onward trivial (by simp)
  | escape start chars slash =>
    unfold State.step
    dsimp only
    split
    · exact .onward trivial (by simp)
    · next hc => exact .wrong rfl hc
  | symbol start chars => exact leads_symbolChar start chars
  | keyword start chars => exact leads_keywordChars start (c :: chars)
  | number start value point =>
    unfold State.step
    dsimp only
    split
    · next hc =>
      -- A point is passed over only in front of a digit.
      subst hc
      refine .onward ?_ (by simp)
      have hs : numberGoesOn point ('.' :: a) = true := hs
      show numberGoesOn true a = true
      cases a with
      | nil => cases point <;> cases hs
      | cons d a =>
        have hd : Decimal.isDigit d = true := by
          cases point with
          | false => exact hs
          | true => cases hs
        rw [numberGoesOn, hd, Bool.true_or]
    · exact leads_numberDigit start value point
  | splice start => exact leads_push _

/-! ### Wrong characters stay wrong -/

theorem expects_of_step {s' : State} (hs : Expects s (c :: a)) (h : s.step l c a = .reading s') :
    Expects s' a := by
  obtain ⟨step, hstep, hleads⟩ : ∃ step, step = .reading s' ∧ Leads s l c a step :=
    ⟨_, h, leads_step hs⟩
  cases hleads with
  | onward hs' _ => cases hstep; exact hs'
  | slash _ _ => cases hstep; trivial
  | delivered v => exact expects_of_gap (mode_deliver hstep) a
  | closed _ _ => exact expects_of_gap (mode_close hstep) a
  | wrong _ _ => cases hstep

/-- The characters that are wrong: a letter behind a backslash, or a closing bracket. -/
theorem step_eq_failed {e : ReadError} (hs : Expects s (c :: a)) (h : s.step l c a = .failed e) :
    (∃ start chars slash, s.mode = .escape start chars slash ∧ Text.unescape c = none ∧
      e = ⟨.unknownEscape c, slash⟩) ∨
    (s.mode = .gap ∧ c ∈ [')', ']', '}'] ∧ close c l s.stack = .failed e) := by
  obtain ⟨step, hstep, hleads⟩ : ∃ step, step = .failed e ∧ Leads s l c a step :=
    ⟨_, h, leads_step hs⟩
  cases hleads with
  | onward _ _ => cases hstep
  | slash _ _ => cases hstep
  | delivered v => exact absurd hstep deliver_ne_failed
  | closed hmode hc => exact Or.inr ⟨hmode, hc, hstep⟩
  | wrong hmode hc => cases hstep; exact Or.inl ⟨_, _, _, hmode, hc, rfl⟩

/-- A wrong character is wrong whatever follows. -/
theorem step_failed_congr {e : ReadError} (hs : Expects s (c :: a)) (h : s.step l c a = .failed e)
    (b : List Char) : s.step l c b = .failed e := by
  obtain ⟨mode, k⟩ := s
  rcases step_eq_failed hs h with ⟨start, chars, slash, hmode, _, _⟩ | ⟨hmode, hc, hclose⟩
  · cases hmode
    exact h
  · cases hmode
    simp only [List.mem_cons, List.not_mem_nil, or_false] at hc
    rcases hc with rfl | rfl | rfl
    · exact hclose
    · exact hclose
    · exact hclose

/-- A backslash in a string is one whatever follows. -/
theorem step_slash_congr {s' : State} {start slash : Location} {chars : List Char}
    (hs : Expects s (c :: a)) (h : s.step l c a = .reading s')
    (hmode : s'.mode = .escape start chars slash) (b : List Char) :
    s.step l c b = .reading s' := by
  obtain ⟨step, hstep, hleads⟩ : ∃ step, step = .reading s' ∧ Leads s l c a step :=
    ⟨_, h, leads_step hs⟩
  cases hleads with
  | onward _ hne => cases hstep; exact absurd hmode (hne _ _ _)
  | slash hstring hc =>
    obtain ⟨mode, k⟩ := s
    cases hstring
    exact h
  | delivered v => rw [mode_deliver hstep] at hmode; cases hmode
  | closed _ _ => rw [mode_close hstep] at hmode; cases hmode
  | wrong _ _ => cases hstep

theorem cause_build {bracket : Bracket} {start : Location} {elements : List Value} {e : ReadError}
    (h : build bracket start elements = .error e) : e.cause = .missingMapValue := by
  unfold build at h
  split at h
  · cases h
  · cases h
  · split at h
    · cases h
    · cases h; rfl

theorem atEnd_of_step_failed {e : ReadError} (hs : Expects s (c :: a))
    (h : s.step l c a = .failed e) : e.cause.atEnd = false := by
  rcases step_eq_failed hs h with ⟨start, chars, slash, _, _, rfl⟩ | ⟨_, _, hclose⟩
  · rfl
  · unfold close at hclose
    split at hclose
    · split at hclose
      · split at hclose
        · exact absurd hclose deliver_ne_failed
        · next bracket start elements stack _ e' hbuild =>
          cases hclose
          rw [cause_build hbuild]
          rfl
      · cases hclose; rfl
    · cases hclose; rfl

/-- More text does not change the step in front of a wrong character. -/
theorem step_append {e : ReadError} {unread : Unread} (hs : Expects s (c :: a))
    (h : (s.step l c a).halt (l.next c) a = .failed e unread) (t : List Char) :
    s.step l c (a ++ t) = s.step l c a := by
  cases hstep : s.step l c a with
  | failed e' => exact step_failed_congr hs hstep _
  | datum v => rw [hstep] at h; cases h
  | reading s' =>
    rw [hstep, Step.halt_reading] at h
    cases a with
    | nil => cases h
    | cons d ds =>
      by_cases hd : ds = [] ∧ d = '.'
      · -- A last point could become part of a number, but then it is not wrong.
        obtain ⟨rfl, rfl⟩ := hd
        have hs' := expects_of_step hs hstep
        rw [State.halt_cons] at h
        obtain ⟨e', hfailed⟩ : ∃ e', s'.step (l.next c) '.' [] = .failed e' := by
          cases hpoint : s'.step (l.next c) '.' [] with
          | reading s'' => rw [hpoint] at h; cases h
          | datum v => rw [hpoint] at h; cases h
          | failed e' => exact ⟨e', rfl⟩
        rcases step_eq_failed hs' hfailed with ⟨start, chars, slash, hmode, _, _⟩ | ⟨_, hc, _⟩
        · exact step_slash_congr hs hstep hmode _
        · exact absurd hc (by decide)
      · rw [← hstep]
        exact step_alike (alike_append_of_cons hd t) s l c

/-- **A wrong character stays wrong**, whatever follows. -/
theorem halt_append_of_failed {e : ReadError} (t : List Char) : ∀ {cs : List Char} {s : State}
    {l : Location} {unread : Unread}, Expects s cs → s.halt l cs = .failed e unread →
    e.cause.atEnd = false ∧ s.halt l (cs ++ t) = .failed e ⟨unread.rest ++ t, unread.location⟩ := by
  intro cs
  induction cs with
  | nil => intro s l unread _ h; cases h
  | cons c cs ih =>
    intro s l unread hs h
    rw [State.halt_cons] at h
    rw [List.cons_append, State.halt_cons, step_append hs h t]
    cases hstep : s.step l c cs with
    | reading s' =>
      rw [hstep] at h
      exact ih (expects_of_step hs hstep) h
    | datum v => rw [hstep] at h; cases h
    | failed e' =>
      rw [hstep] at h
      cases h
      exact ⟨atEnd_of_step_failed hs hstep, rfl⟩

end

/-! ### Texts that end too early -/

theorem atEnd_of_atEnd? {s : State} {e : ReadError} (h : s.atEnd? = some e) :
    e.cause.atEnd = true := by
  unfold State.atEnd? at h
  split at h
  · cases h; rfl
  · cases h; rfl
  · split at h
    · cases h
    · cases h; rfl
    · cases h; rfl
    · cases h; rfl

/-- Behind the end of a text, another one is read in the state that the first one left. -/
theorem halt_append_of_ended {t : List Char} (ht : startsAfresh t = true) :
    ∀ {cs : List Char} {s s' : State} {l l' : Location}, Expects s cs →
    s.halt l cs = .ended s' l' → Expects s' [] ∧ s.halt l (cs ++ t) = s'.halt l' t := by
  intro cs
  induction cs with
  | nil => intro s s' l l' hs h; cases h; exact ⟨hs, rfl⟩
  | cons c cs ih =>
    intro s s' l l' hs h
    rw [State.halt_cons] at h
    rw [List.cons_append, State.halt_cons, step_alike (alike_append_of_startsAfresh ht cs)]
    cases hstep : s.step l c cs with
    | reading s'' =>
      rw [hstep] at h
      exact ih (expects_of_step hs hstep) h
    | datum v => rw [hstep] at h; cases h
    | failed e => rw [hstep] at h; cases h

theorem pairs_or_pairs_append (v : Value) : ∀ vs : List Value,
    (∃ es, Value.pairs vs = .ok es) ∨ ∃ es, Value.pairs (vs ++ [v]) = .ok es
  | [] => Or.inl ⟨[], rfl⟩
  | [key] => Or.inr ⟨[(key, v)], rfl⟩
  | key :: value :: vs => by
    rcases pairs_or_pairs_append v vs with ⟨es, h⟩ | ⟨es, h⟩
    · exact Or.inl ⟨(key, value) :: es, by rw [Value.pairs, h]; rfl⟩
    · exact Or.inr ⟨(key, value) :: es, by rw [List.cons_append, List.cons_append, Value.pairs, h]; rfl⟩

theorem isNop_of_build {bracket : Bracket} {start : Location} {elements : List Value} {v : Value}
    (h : build bracket start elements = .ok v) : v.isNop = false := by
  unfold build at h
  split at h
  · cases h; rfl
  · cases h; rfl
  · split at h
    · cases h; rfl
    · cases h

/-- A pair of brackets can be closed, with one more datum or without. -/
theorem build_or_build_append (bracket : Bracket) (start : Location) (vs : List Value) (v : Value) :
    (∃ w, build bracket start vs = .ok w) ∨ ∃ w, build bracket start (vs ++ [v]) = .ok w := by
  cases bracket with
  | list => exact Or.inl ⟨_, rfl⟩
  | vector => exact Or.inl ⟨_, rfl⟩
  | map =>
    rcases pairs_or_pairs_append v vs with ⟨es, h⟩ | ⟨es, h⟩
    · exact Or.inl ⟨.map start es, by rw [build, h]⟩
    · exact Or.inr ⟨.map start es, by rw [build, h]⟩

/-- **Every stack of open forms can be closed.**  An empty string serves as a datum where one is
missing. -/
theorem exists_completion : ∀ (k : List Open) (v : Value) (l : Location), v.isNop = false →
    ∃ (t : List Char) (w : Value) (c : Unread),
      (deliver v k).halt l t = .datum w c ∧ w.isNop = false := by
  intro k
  induction k with
  | nil => intro v l hv; exact ⟨[], v, ⟨[], l⟩, rfl, hv⟩
  | cons form k ih =>
    intro v l hv
    cases form with
    | bracket bracket start elements =>
      rcases build_or_build_append bracket start (v :: elements).reverse (.string l "") with
        ⟨w, hw⟩ | ⟨w, hw⟩
      · obtain ⟨t, w', c, ht, hw'⟩ := ih w (l.next bracket.closer) (isNop_of_build hw)
        exact ⟨bracket.closer :: t, w', c, (halt_closer hw).trans ht, hw'⟩
      · -- The last key of a hash-map gets a value first.
        rw [← List.reverse_cons] at hw
        obtain ⟨t, w', c, ht, hw'⟩ :=
          ih w ((l.after (Text.quote [])).next bracket.closer) (isNop_of_build hw)
        refine ⟨Text.quote [] ++ bracket.closer :: t, w', c, ?_, hw'⟩
        refine (halt_quote (k := .bracket bracket start (v :: elements) :: k) []).trans ?_
        exact (halt_closer hw).trans ht
    | caret start =>
      obtain ⟨t, w, c, ht, hw⟩ := ih (.list start [.symbol start Sugar.withMeta.name, .string l "", v])
        (l.after (Text.quote [])) rfl
      exact ⟨Text.quote [] ++ t, w, c, (halt_quote []).trans ht, hw⟩
    | target sugar start extra =>
      exact ih (.list start (.symbol start sugar.name :: v :: extra)) l rfl

/-- A text completes what the reader is in the middle of when another one ends. -/
theorem exists_completion_state {s : State} (hs : Expects s []) (l : Location) :
    ∃ t, startsAfresh t = true ∧
      ∃ (w : Value) (c : Unread), s.halt l t = .datum w c ∧ w.isNop = false := by
  obtain ⟨mode, k⟩ := s
  cases mode with
  | gap =>
    obtain ⟨t, w, c, ht, hw⟩ := exists_completion k (.string l "") (l.after (Text.quote [])) rfl
    exact ⟨Text.quote [] ++ t, rfl, w, c, (halt_quote []).trans ht, hw⟩
  | comment =>
    obtain ⟨t, w, c, ht, hw⟩ := exists_completion k (.string (l.next '\n') "")
      ((l.next '\n').after (Text.quote [])) rfl
    refine ⟨'\n' :: (Text.quote [] ++ t), rfl, w, c, ?_, hw⟩
    exact (halt_comment [] l (by simp)).trans ((halt_quote []).trans ht)
  | string start chars =>
    obtain ⟨t, w, c, ht, hw⟩ := exists_completion k
      (.string start (String.ofList chars.reverse)) (l.next '"') rfl
    exact ⟨'"' :: t, rfl, w, c, (State.halt_cons _ _ _ _).trans ht, hw⟩
  | escape start chars slash =>
    obtain ⟨t, w, c, ht, hw⟩ := exists_completion k
      (.string start (String.ofList ('"' :: chars).reverse)) ((l.next '"').next '"') rfl
    refine ⟨'"' :: '"' :: t, rfl, w, c, ?_, hw⟩
    rw [State.halt_cons]
    exact (State.halt_cons _ _ _ _).trans ht
  | symbol start chars => cases hs
  | keyword start chars => cases hs
  | number start value point => cases hs
  | splice start => cases hs

end Reader

/-! ### Errors of reading -/

theorem readFirst_eq_halt (text : String) :
    readFirst text = (Reader.State.initial.halt .start text.toList).answer.1 := by
  rw [readFirst, Cursor.ofText, Reader.fst_next]

/-- **An error is mended by more text or stays as it is.**  If it is due to the end of the text, some
text completes a datum; if not, every longer text has the same error. -/
theorem readFirst_error_append {text : String} {e : ReadError} (h : readFirst text = .error e) :
    (e.cause.atEnd = true → ∃ (t : String) (v : Value),
      readFirst (text ++ t) = .ok v ∧ v.isNop = false) ∧
    (e.cause.atEnd = false → ∀ t : String, readFirst (text ++ t) = .error e) := by
  have hs : Reader.Expects .initial text.toList := trivial
  rw [readFirst_eq_halt] at h
  cases hhalt : Reader.State.initial.halt .start text.toList with
  | datum v c => rw [hhalt] at h; cases h
  | failed e' c =>
    rw [hhalt] at h
    cases h
    constructor
    · intro hend
      rw [(Reader.halt_append_of_failed [] hs hhalt).1] at hend
      cases hend
    · intro _ t
      rw [readFirst_eq_halt, String.toList_append,
        (Reader.halt_append_of_failed t.toList hs hhalt).2]
      rfl
  | ended s l =>
    have hend : s.atEnd? = some e := by
      rw [hhalt, Reader.Halt.answer] at h
      cases hend : s.atEnd? with
      | none => rw [hend] at h; cases h
      | some e' => rw [hend] at h; cases h; rfl
    constructor
    · intro _
      have hs' := (Reader.halt_append_of_ended (t := []) rfl hs hhalt).1
      obtain ⟨t, ht, w, c, hw, hnop⟩ := Reader.exists_completion_state hs' l
      refine ⟨String.ofList t, w, ?_, hnop⟩
      rw [readFirst_eq_halt, String.toList_append, String.toList_ofList,
        (Reader.halt_append_of_ended ht hs hhalt).2, hw]
      rfl
    · intro hcause
      rw [Reader.atEnd_of_atEnd? hend] at hcause
      cases hcause

/-- A text that ends in a comment while a list and the hash-map of a caret are open, and one whose
hash-map lacks a value. -/
theorem readFirst_error_append_samples :
    (∃ (t : String) (v : Value), readFirst ("(x ^\x7b:a ; b" ++ t) = .ok v ∧ v.isNop = false) ∧
    ∀ t : String, readFirst ("[\x7b:a x :b\x7d" ++ t) = .error ⟨.missingMapValue, ⟨1, 8⟩⟩ := by
  have hopen : readFirst "(x ^\x7b:a ; b" = .error ⟨.unterminated .map, ⟨1, 5⟩⟩ := rfl
  have hwrong : readFirst "[\x7b:a x :b\x7d" = .error ⟨.missingMapValue, ⟨1, 8⟩⟩ := rfl
  exact ⟨(readFirst_error_append hopen).1 rfl, (readFirst_error_append hwrong).2 rfl⟩

end MiniLisp
