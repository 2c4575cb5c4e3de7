import MiniLisp.Proofs.Decimal.Literal
import MiniLisp.Proofs.Reader.Halt

/-!
# How a token is read

Between two tokens the reader is in the mode `gap`.  For each kind of token this file says which
single step the characters of the token amount to, whatever forms are open and whatever text
follows: a name, a keyword, a number and a string hand their value to the innermost open form.  A
token of symbol characters needs a following text that does not go on with one.

* `halt_separator`, `halt_comment`: what stands between two tokens leaves no trace.
* `halt_name`, `halt_keyword`, `halt_literal`, `halt_quote`: the four kinds of atoms.
* `halt_closer`: a bracket that closes the innermost open form.
-/

namespace MiniLisp.Reader

/-! ### The text behind a token -/

@[simp] theorem nextIs_nil (p : Char → Bool) : nextIs p [] = false := rfl

@[simp] theorem nextIs_cons (p : Char → Bool) (c : Char) (cs : List Char) :
    nextIs p (c :: cs) = p c := rfl

/-- What does not hold of the next character because a weaker property does not. -/
theorem nextIs_of_imp {p q : Char → Bool} (hpq : ∀ c, p c = true → q c = true) {cs : List Char}
    (h : nextIs q cs = false) : nextIs p cs = false := by
  cases cs with
  | nil => rfl
  | cons c cs =>
    rw [nextIs_cons, ← Bool.not_eq_true] at h ⊢
    exact fun hp => h (hpq c hp)

theorem isSymbolChar_of_isDigit {c : Char} (h : Decimal.isDigit c = true) :
    isSymbolChar c = true := by
  have hall : ['0', '1', '2', '3', '4', '5', '6', '7', '8', '9'].all isSymbolChar = true := by
    decide
  exact List.all_eq_true.mp hall c (Decimal.mem_digits_of_isDigit h)

theorem numberGoesOn_of_nextIs {t : List Char} (point : Bool) (ht : nextIs isSymbolChar t = false) :
    numberGoesOn point t = false := by
  cases t with
  | nil => rfl
  | cons c t =>
    rw [nextIs_cons] at ht
    have hdigit : Decimal.isDigit c = false := by
      cases hd : Decimal.isDigit c with
      | false => rfl
      | true => rw [isSymbolChar_of_isDigit hd] at ht; cases ht
    have hdot : c ≠ '.' := by
      rintro rfl
      exact absurd ht (by decide)
    rw [numberGoesOn, hdigit, decide_eq_false hdot, Bool.and_false, Bool.false_and]
    rfl

/-- The characters that stand for something of their own between two tokens. -/
def marks : List Char :=
  [';', '(', '[', '{', ')', ']', '}', '"', '\'', '\x60', '@', '~', '^', ':', '-']

/-- Whether a character between two tokens begins a name, given the text behind it: it stands for
nothing else, and it does not begin a number or metadata together with the next one. -/
def beginsName (c : Char) (ahead : List Char) : Bool :=
  isSymbolChar c && !Decimal.isDigit c && !(['\'', '\x60', '~', '@', ':'].contains c) &&
    !(c = '-' && nextIs Decimal.isDigit ahead) && !(c = '^' && nextIs (· = '{') ahead)

section

variable {k : List Open} {l start : Location} {c : Char} {cs t : List Char}

/-! ### The first character of a token -/

theorem begin_of_not_mark (s : State) (h : c ∉ marks) :
    s.begin l c cs =
      if isSeparator c then .reading s
      else if Decimal.isDigit c then numberDigit l ⟨false, 0, 0⟩ false c cs s.stack
      else symbolChar l [] c cs s.stack := by
  unfold State.begin
  split
  all_goals first
    | exact absurd (by decide) h
    | rfl

theorem begin_separator (s : State) (h : isSeparator c = true) : s.begin l c cs = .reading s := by
  have hmarks : (marks.all fun d => !isSeparator d) = true := by decide
  have hc : c ∉ marks := by
    intro hc
    have hnot := List.all_eq_true.mp hmarks c hc
    rw [h] at hnot
    cases hnot
  rw [begin_of_not_mark s hc, if_pos h]

theorem begin_digit (s : State) (h : Decimal.isDigit c = true) :
    s.begin l c cs = numberDigit l ⟨false, 0, 0⟩ false c cs s.stack := by
  have hmarks : (marks.all fun d => !Decimal.isDigit d) = true := by decide
  have hc : c ∉ marks := by
    intro hc
    have hnot := List.all_eq_true.mp hmarks c hc
    rw [h] at hnot
    cases hnot
  have hsep : isSeparator c = false := by
    have hsym := isSymbolChar_of_isDigit h
    rw [isSymbolChar, Bool.not_eq_true', Bool.or_eq_false_iff] at hsym
    exact hsym.1
  rw [begin_of_not_mark s hc, hsep, if_neg (by decide), if_pos h]

theorem begin_name (s : State) (h : beginsName c cs = true) :
    s.begin l c cs = symbolChar l [] c cs s.stack := by
  simp only [beginsName, Bool.and_eq_true, Bool.not_eq_true'] at h
  obtain ⟨⟨⟨⟨hsym, hdigit⟩, hmark⟩, hminus⟩, hcaret⟩ := h
  by_cases h1 : c = '-'
  · subst h1
    have hnext : nextIs Decimal.isDigit cs = false := by simpa using hminus
    show (if nextIs Decimal.isDigit cs then _ else _) = _
    rw [hnext, if_neg (by decide)]
  · by_cases h2 : c = '^'
    · subst h2
      have hnext : nextIs (· = '{') cs = false := by simpa using hcaret
      show (if nextIs (· = '{') cs then _ else _) = _
      rw [hnext, if_neg (by decide)]
    · have hmarks : (marks.all fun d => d = '-' || d = '^' || !isSymbolChar d ||
          ['\'', '\x60', '~', '@', ':'].contains d) = true := by decide
      have hc : c ∉ marks := by
        intro hc
        have hother := List.all_eq_true.mp hmarks c hc
        rw [decide_eq_false h1, decide_eq_false h2, hsym, hmark] at hother
        cases hother
      have hsep : isSeparator c = false := by
        rw [isSymbolChar, Bool.not_eq_true', Bool.or_eq_false_iff] at hsym
        exact hsym.1
      rw [begin_of_not_mark s hc, hsep, hdigit, if_neg (by decide), if_neg (by decide)]

/-! ### One character in each mode -/

theorem step_gap (k : List Open) :
    (State.mk .gap k).step l c cs = (State.mk .gap k).begin l c cs := rfl

theorem step_comment (k : List Open) :
    (State.mk .comment k).step l c cs =
      .reading ⟨if c = '\n' then .gap else .comment, k⟩ := rfl

theorem step_symbol (chars : List Char) (k : List Open) :
    (State.mk (.symbol start chars) k).step l c cs = symbolChar start chars c cs k := rfl

theorem step_keyword (chars : List Char) (k : List Open) :
    (State.mk (.keyword start chars) k).step l c cs = keywordChars start (c :: chars) cs k := rfl

theorem step_number (value : Decimal) (point : Bool) (k : List Open) (h : c ≠ '.') :
    (State.mk (.number start value point) k).step l c cs =
      numberDigit start value point c cs k :=
  if_neg h

/-! ### Between two tokens -/

theorem halt_separator (h : isSeparator c = true) :
    (State.mk .gap k).halt l (c :: cs) = (State.mk .gap k).halt (l.next c) cs := by
  rw [State.halt_cons, step_gap, begin_separator _ h, Step.halt_reading]

/-- A comment goes up to the end of its line, which belongs to it. -/
theorem halt_comment : ∀ (cs : List Char) (l : Location), (∀ c ∈ cs, c ≠ '\n') →
    (State.mk .comment k).halt l (cs ++ '\n' :: t) =
      (State.mk .gap k).halt ((l.after cs).next '\n') t := by
  intro cs
  induction cs with
  | nil =>
    intro l _
    rw [List.nil_append, State.halt_cons, step_comment, if_pos rfl, Step.halt_reading]
    rfl
  | cons c cs ih =>
    intro l hcs
    rw [List.cons_append, State.halt_cons, step_comment, if_neg (hcs c (by simp)),
      Step.halt_reading, ih _ (fun d hd => hcs d (List.mem_cons_of_mem c hd))]
    rfl

/-! ### Names and keywords -/

/-- A name, from one of its characters on. -/
theorem halt_symbolChar (ht : nextIs isSymbolChar t = false) :
    ∀ (cs chars : List Char) (c : Char) (l : Location), (∀ d ∈ cs, isSymbolChar d = true) →
    (symbolChar start chars c (cs ++ t) k).halt (l.next c) (cs ++ t) =
      (deliver (nameValue start (String.ofList (chars.reverse ++ c :: cs))) k).halt
        (l.after (c :: cs)) t := by
  intro cs
  induction cs with
  | nil =>
    intro chars c l _
    rw [symbolChar, List.nil_append, ht, if_neg (by decide), List.reverse_cons]
    rfl
  | cons d ds ih =>
    intro chars c l hcs
    have hd : isSymbolChar d = true := hcs d (by simp)
    rw [symbolChar, List.cons_append, nextIs_cons, hd, if_pos rfl, Step.halt_reading,
      State.halt_cons, step_symbol, ih (c :: chars) d (l.next c)
        (fun x hx => hcs x (List.mem_cons_of_mem d hx)), List.reverse_cons, List.append_assoc]
    rfl

/-- **A name is read as the value that it names.** -/
theorem halt_name (hc : beginsName c (cs ++ t) = true) (hcs : ∀ d ∈ cs, isSymbolChar d = true)
    (ht : nextIs isSymbolChar t = false) :
    (State.mk .gap k).halt l (c :: cs ++ t) =
      (deliver (nameValue l (String.ofList (c :: cs))) k).halt (l.after (c :: cs)) t := by
  rw [List.cons_append, State.halt_cons, step_gap, begin_name _ hc, halt_symbolChar ht cs [] c l hcs]
  rfl

/-- A keyword, from behind one of its characters on. -/
theorem halt_keywordChars (ht : nextIs isSymbolChar t = false) :
    ∀ (cs chars : List Char) (l : Location), (∀ d ∈ cs, isSymbolChar d = true) →
    (keywordChars start chars (cs ++ t) k).halt l (cs ++ t) =
      (deliver (.keyword start (String.ofList (chars.reverse ++ cs))) k).halt (l.after cs) t := by
  intro cs
  induction cs with
  | nil =>
    intro chars l _
    rw [keywordChars, List.nil_append, ht, if_neg (by decide), List.append_nil]
    rfl
  | cons d ds ih =>
    intro chars l hcs
    have hd : isSymbolChar d = true := hcs d (by simp)
    rw [keywordChars, List.cons_append, nextIs_cons, hd, if_pos rfl, Step.halt_reading,
      State.halt_cons, step_keyword, ih (d :: chars) (l.next d)
        (fun x hx => hcs x (List.mem_cons_of_mem d hx)), List.reverse_cons, List.append_assoc]
    rfl

/-- **A keyword is read as the keyword of the characters behind its colon.** -/
theorem halt_keyword (hcs : ∀ d ∈ cs, isSymbolChar d = true) (ht : nextIs isSymbolChar t = false) :
    (State.mk .gap k).halt l (':' :: cs ++ t) =
      (deliver (.keyword l (String.ofList cs)) k).halt (l.after (':' :: cs)) t := by
  rw [List.cons_append, State.halt_cons, step_gap]
  show (keywordChars l [] (cs ++ t) k).halt _ _ = _
  rw [halt_keywordChars ht cs [] _ hcs]
  rfl

/-! ### Numbers -/

/-- A row of digits of a number, from one of them on.  The text behind it decides whether it
finishes the number. -/
theorem halt_numberDigit {point : Bool} :
    ∀ (ds : List Char) (value : Decimal) (d : Char) (l : Location),
    (∀ x ∈ ds, Decimal.isDigit x = true) →
    (numberDigit start value point d (ds ++ t) k).halt (l.next d) (ds ++ t) =
      (if numberGoesOn point t then
        .reading ⟨.number start (value.pushDigits point (d :: ds)) point, k⟩
      else deliver (.number start (value.pushDigits point (d :: ds)).toFloat) k).halt
        (l.after (d :: ds)) t := by
  intro ds
  induction ds with
  | nil => intro value d l _; rfl
  | cons x xs ih =>
    intro value d l hds
    have hx : Decimal.isDigit x = true := hds x (by simp)
    have hgo : numberGoesOn point (x :: (xs ++ t)) = true := by
      rw [numberGoesOn, hx, Bool.true_or]
    have hdot : x ≠ '.' := by
      rintro rfl
      exact absurd hx (by decide)
    rw [numberDigit, List.cons_append, hgo, if_pos rfl, Step.halt_reading, State.halt_cons,
      step_number _ _ _ hdot, ih _ x (l.next d) (fun y hy => hds y (List.mem_cons_of_mem x hy))]
    rfl

/-- A number, from its first digit on. -/
theorem halt_number {value : Decimal} {d : Char} {ds places : List Char}
    (hds : ∀ x ∈ ds, Decimal.isDigit x = true) (hplaces : ∀ x ∈ places, Decimal.isDigit x = true)
    (ht : numberGoesOn (!places.isEmpty) t = false) :
    (numberDigit start value false d
        (ds ++ ((if places.isEmpty then [] else '.' :: places) ++ t)) k).halt (l.next d)
        (ds ++ ((if places.isEmpty then [] else '.' :: places) ++ t)) =
      (deliver (.number start
        ((value.pushDigits false (d :: ds)).pushDigits true places).toFloat) k).halt
        (l.after (d :: ds ++ if places.isEmpty then [] else '.' :: places)) t := by
  cases places with
  | nil =>
    have ht : numberGoesOn false t = false := ht
    rw [List.isEmpty_nil, if_pos rfl, List.nil_append, halt_numberDigit ds value d l hds, ht,
      if_neg (by decide), List.append_nil]
    rfl
  | cons p ps =>
    have hp : Decimal.isDigit p = true := hplaces p (by simp)
    have hdot : p ≠ '.' := by
      rintro rfl
      exact absurd hp (by decide)
    have hgo : numberGoesOn false ('.' :: p :: (ps ++ t)) = true := by
      rw [numberGoesOn, nextIs_cons, hp]
      rfl
    have ht : numberGoesOn true t = false := ht
    rw [List.isEmpty_cons, if_neg (by decide), List.cons_append, List.cons_append,
      halt_numberDigit ds value d l hds, hgo, if_pos rfl, Step.halt_reading, State.halt_cons]
    show (State.mk (.number start (value.pushDigits false (d :: ds)) true) k).halt
      ((l.after (d :: ds)).next '.') (p :: (ps ++ t)) = _
    rw [State.halt_cons, step_number _ _ _ hdot,
      halt_numberDigit ps _ p _ (fun x hx => hplaces x (List.mem_cons_of_mem p hx)), ht,
      if_neg (by decide), Location.after_append]
    rfl

/-- **A number is read as the double that is nearest to its value.** -/
theorem halt_literal (w : Decimal.Literal) (ht : numberGoesOn (!w.places.isEmpty) t = false) :
    (State.mk .gap k).halt l (w.spell ++ t) =
      (deliver (.number l w.value.toFloat) k).halt (l.after w.spell) t := by
  rw [← w.value_eq_pushDigits]
  obtain ⟨negative, whole, places, hne, hwhole, hplaces⟩ := w
  cases whole with
  | nil => exact absurd rfl hne
  | cons d ds =>
    have hd : Decimal.isDigit d = true := hwhole d (by simp)
    have hds : ∀ x ∈ ds, Decimal.isDigit x = true :=
      fun x hx => hwhole x (List.mem_cons_of_mem d hx)
    have hdot : d ≠ '.' := by
      rintro rfl
      exact absurd hd (by decide)
    cases negative with
    | false =>
      simp only [Decimal.Literal.spell, Bool.false_eq_true, if_false, List.nil_append,
        List.append_assoc, List.cons_append]
      rw [State.halt_cons, step_gap, begin_digit _ hd, halt_number hds hplaces ht]
      rfl
    | true =>
      simp only [Decimal.Literal.spell, if_true, List.append_assoc, List.cons_append,
        List.nil_append]
      rw [State.halt_cons]
      show (if nextIs Decimal.isDigit (d :: _) then _ else _ : Step).halt _ _ = _
      rw [nextIs_cons, hd, if_pos rfl, Step.halt_reading, State.halt_cons,
        step_number _ _ _ hdot, halt_number hds hplaces ht]
      rfl

/-! ### Strings -/

theorem step_string (chars : List Char) (k : List Open) (hquote : c ≠ '"') (hslash : c ≠ '\\') :
    (State.mk (.string start chars) k).step l c cs =
      .reading ⟨.string start (c :: chars), k⟩ := by
  show (if c = '"' then _ else if c = '\\' then _ else _) = _
  rw [if_neg hquote, if_neg hslash]

/-- In a string, a backslash and the character behind it. -/
theorem halt_escape (chars : List Char) (d : Char) :
    (State.mk (.string start chars) k).halt l ('\\' :: d :: cs) =
      (match Text.unescape d with
        | some e => Step.reading ⟨.string start (e :: chars), k⟩
        | none => .failed ⟨.unknownEscape d, l⟩).halt ((l.next '\\').next d) cs :=
  State.halt_cons _ _ _ _

/-- One character of a string as it is written between the quotes. -/
theorem halt_quoteChar (chars : List Char) (c : Char) :
    (State.mk (.string start chars) k).halt l (Text.quoteChar c ++ t) =
      (State.mk (.string start (c :: chars)) k).halt (l.after (Text.quoteChar c)) t := by
  rw [Text.quoteChar]
  cases he : Text.escape c with
  | some e =>
    dsimp only
    rw [List.cons_append, List.cons_append, List.nil_append, halt_escape,
      Text.unescape_of_escape he]
    rfl
  | none =>
    have hquote : c ≠ '"' := by
      rintro rfl
      exact absurd he (by decide)
    have hslash : c ≠ '\\' := by
      rintro rfl
      exact absurd he (by decide)
    dsimp only
    rw [List.cons_append, List.nil_append, State.halt_cons, step_string chars k hquote hslash]
    rfl

/-- **A written string is read as the string.** -/
theorem halt_quote (cs : List Char) :
    (State.mk .gap k).halt l (Text.quote cs ++ t) =
      (deliver (.string l (String.ofList cs)) k).halt (l.after (Text.quote cs)) t := by
  have hinside : ∀ (cs chars : List Char) (l' : Location),
      (State.mk (.string l chars) k).halt l' (cs.flatMap Text.quoteChar ++ '"' :: t) =
        (deliver (.string l (String.ofList (chars.reverse ++ cs))) k).halt
          ((l'.after (cs.flatMap Text.quoteChar)).next '"') t := by
    intro cs
    induction cs with
    | nil =>
      intro chars l'
      rw [List.append_nil]
      rfl
    | cons c cs ih =>
      intro chars l'
      rw [List.flatMap_cons, List.append_assoc, halt_quoteChar, ih, Location.after_append,
        List.reverse_cons, List.append_assoc]
      rfl
  rw [Text.quote, List.cons_append, List.append_assoc]
  show (State.mk (.string l []) k).halt (l.next '"') (cs.flatMap Text.quoteChar ++ '"' :: t) = _
  rw [hinside cs [] (l.next '"'), Location.after_cons, Location.after_append]
  rfl

/-! ### Closing brackets -/

/-- A bracket that closes the innermost open form delivers what was between the brackets. -/
theorem halt_closer {bracket : Bracket} {elements : List Value} {v : Value}
    (h : build bracket start elements.reverse = .ok v) :
    (State.mk .gap (.bracket bracket start elements :: k)).halt l (bracket.closer :: t) =
      (deliver v k).halt (l.next bracket.closer) t := by
  have hstep : (State.mk .gap (.bracket bracket start elements :: k)).step l bracket.closer t =
      close bracket.closer l (.bracket bracket start elements :: k) := by
    cases bracket <;> rfl
  rw [State.halt_cons, hstep, close, if_pos rfl, h]

end

end MiniLisp.Reader
