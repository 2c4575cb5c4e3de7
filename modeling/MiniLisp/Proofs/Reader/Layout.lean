import MiniLisp.Proofs.Reader.Spelling

/-!
# Where everything is written

The location of a character is given by what stands before it: one row for each line feed, and one
column for each character since the last of them.  `Location.ofOffset` says that of every offset into
a text.

A value that is read from a text is written there.  `Stands` says between which offsets: the notation
of the value begins at the first of them and ends at the second, the value has the location of the
first, and what it contains is written in between, one value behind the other, with nothing but
separators and comments between them (`Gap`, `Laid`).  `Opened` says which forms are open at an offset
since reading began, and `Blamed` on which offset an error is blamed: always one that is reached from
there.

* `Answered`: what a call answers that begins at an offset.
* `Location.ofOffset_succ`: one character moves the location as it moves the offset.
* `Laid.push`: a row of values grows at its end.
* `Stands.lt`, `Stands.le_length`, `Stands.location`: a value takes up some of the text and has the
  location of its beginning.
-/

namespace MiniLisp

/-! ### Offsets and locations -/

/-- The location of the character at an offset: a row for each line feed before it, and a column for
each character since the last one. -/
def Location.ofOffset (cs : List Char) (p : Nat) : Location :=
  ⟨1 + (cs.take p).count '\n', 1 + ((cs.take p).reverse.takeWhile (· ≠ '\n')).length⟩

@[simp] theorem Location.ofOffset_zero (cs : List Char) : ofOffset cs 0 = .start := by
  simp [ofOffset, start]

/-- One character moves the location as it moves the offset. -/
theorem Location.ofOffset_succ {cs : List Char} {p : Nat} {c : Char} (h : cs[p]? = some c) :
    ofOffset cs (p + 1) = (ofOffset cs p).next c := by
  rw [ofOffset, List.take_add_one, h, next]
  by_cases hc : c = '\n'
  · subst hc
    simp [ofOffset, Nat.add_assoc]
  · simp [ofOffset, hc, Nat.add_comm]

theorem getElem?_of_drop {cs ahead : List Char} {p : Nat} {c : Char}
    (h : cs.drop p = c :: ahead) : cs[p]? = some c := by
  have hget : (cs.drop p)[0]? = some c := by rw [h]; rfl
  rw [List.getElem?_drop, Nat.add_zero] at hget
  exact hget

theorem drop_succ_of_drop {cs ahead : List Char} {p : Nat} {c : Char}
    (h : cs.drop p = c :: ahead) : cs.drop (p + 1) = ahead := by
  rw [← List.drop_drop, h]
  rfl

theorem drop_of_getElem? {cs : List Char} {p : Nat} {c : Char} (h : cs[p]? = some c) :
    cs.drop p = c :: cs.drop (p + 1) := by
  rw [List.drop_eq_getElem?_toList_append, h]
  rfl

/-- The character that opens a bracket. -/
def Bracket.opener : Bracket → Char
  | .list => '('
  | .vector => '['
  | .map => '{'

/-- How a short notation begins.  A caret is one only in front of a brace. -/
def Sugar.mark : Sugar → List Char
  | .quote => ['\'']
  | .quasiquote => ['\x60']
  | .unquote => ['~']
  | .spliceUnquote => ['~', '@']
  | .deref => ['@']
  | .withMeta => ['^', '{']

namespace Reader

/-! ### Values in a text -/

/-- Nothing but separators and comments stands between two offsets.  A comment ends with its line or
with the text. -/
inductive Gap (cs : List Char) (a : Nat) : Nat → Prop
  | nil : Gap cs a a
  | separator {p : Nat} {c : Char} : Gap cs a p → cs[p]? = some c →
      isWhiteSpace c = true ∨ c = ',' → Gap cs a (p + 1)
  | comment {p q : Nat} : Gap cs a p → cs[p]? = some ';' → p < q →
      (∀ i, p < i → i < q → cs[i]? ≠ some '\n') → cs[q]? = some '\n' → Gap cs a (q + 1)
  | ending {p : Nat} : Gap cs a p → cs[p]? = some ';' →
      (∀ i, p < i → cs[i]? ≠ some '\n') → Gap cs a cs.length

/-- A value with the offset of the first character of its notation and the offset behind the last
one. -/
structure Noted where
  start : Nat
  stop : Nat
  value : Value

/-- Values follow each other between two offsets, with gaps around them. -/
def Laid (cs : List Char) (a b : Nat) : List Noted → Prop
  | [] => Gap cs a b
  | x :: xs => Gap cs a x.start ∧ x.start < x.stop ∧ Laid cs x.stop b xs

/-- A word fills the text between two offsets. -/
def Spans (cs : List Char) (p e : Nat) (w : List Char) : Prop :=
  w <+: cs.drop p ∧ p + w.length = e

/-- A name can begin with `c` if `next` is the character behind it: a mark, a digit, a minus in front
of a digit and a caret in front of a brace begin something else. -/
def BeginsName (c : Char) (next : Option Char) : Prop :=
  c ∉ ['\'', '\x60', '~', '@', ':'] ∧ c.isDigit = false ∧
    (c = '-' → next.any Char.isDigit = false) ∧ (c = '^' → next ≠ some '{')

/-- A name stands between two offsets: a run of name characters that goes as far as it can. -/
structure Named (cs : List Char) (p e : Nat) (name : String) : Prop where
  spans : Spans cs p e name.toList
  chars : ∀ c ∈ name.toList, isNameChar c = true
  ends : ∀ c, cs[e]? = some c → isNameChar c = false
  begins : ∃ c, name.toList.head? = some c ∧ BeginsName c cs[p + 1]?

/-- Between two offsets stand characters of a string, which denote `ds`, the latest first. -/
inductive Body (cs : List Char) (a : Nat) : Nat → List Char → Prop
  | nil : Body cs a a []
  | char {p : Nat} {c : Char} {ds : List Char} : Body cs a p ds → cs[p]? = some c → c ≠ '"' →
      c ≠ '\\' → Body cs a (p + 1) (c :: ds)
  | escape {p : Nat} {c d : Char} {ds : List Char} : Body cs a p ds → cs[p]? = some '\\' →
      cs[p + 1]? = some c → escaped c = some d → Body cs a (p + 2) (d :: ds)

/-- A short notation begins at an offset.  A tilde in front of an at sign is the mark for splicing. -/
def Marked (cs : List Char) (p : Nat) (sugar : Sugar) : Prop :=
  sugar.mark <+: cs.drop p ∧ (sugar = .unquote → cs[p + 1]? ≠ some '@')

/-- A value is written in the text `cs` from the offset `p` up to the offset `e`: its notation begins
at `p`, it has the location of `p`, and what it contains is written in between, in order. -/
inductive Stands (cs : List Char) : Nat → Nat → Value → Prop
  | list {p r : Nat} {xs : List Noted} : cs[p]? = some '(' → Laid cs (p + 1) r xs →
      (∀ x ∈ xs, Stands cs x.start x.stop x.value) → cs[r]? = some ')' →
      Stands cs p (r + 1) (.list (.ofOffset cs p) (xs.map Noted.value))
  | vector {p r : Nat} {xs : List Noted} : cs[p]? = some '[' → Laid cs (p + 1) r xs →
      (∀ x ∈ xs, Stands cs x.start x.stop x.value) → cs[r]? = some ']' →
      Stands cs p (r + 1) (.vector (.ofOffset cs p) (xs.map Noted.value))
  | map {p r : Nat} {xs : List Noted} : cs[p]? = some '{' → Laid cs (p + 1) r xs →
      (∀ x ∈ xs, Stands cs x.start x.stop x.value) → cs[r]? = some '}' → xs.length % 2 = 0 →
      Stands cs p (r + 1) (.map (.ofOffset cs p) (inPairs (xs.map Noted.value)))
  /-- A short notation: the head of the form is where the mark is. -/
  | sugar {p q e : Nat} {sugar : Sugar} {v : Value} : sugar ≠ .withMeta → Marked cs p sugar →
      Gap cs (p + sugar.mark.length) q → Stands cs q e v →
      Stands cs p e (.list (.ofOffset cs p) [.symbol (.ofOffset cs p) (headOf sugar), v])
  /-- Metadata: the hash-map is right behind the caret, and the datum behind the hash-map. -/
  | withMeta {p r q e : Nat} {v data : Value} : Marked cs p .withMeta → Stands cs (p + 1) r data →
      Gap cs r q → Stands cs q e v →
      Stands cs p e (.list (.ofOffset cs p)
        [.symbol (.ofOffset cs p) (headOf .withMeta), v, data])
  /-- A number is the longest literal that stands there. -/
  | number {p : Nat} {literal : List Char} : longestMatch isLiteral (cs.drop p) = literal →
      literal ≠ [] →
      Stands cs p (p + literal.length) (.number (.ofOffset cs p) (literalValue literal))
  | keyword {p e : Nat} {name : String} : Spans cs p e (':' :: name.toList) →
      (∀ c ∈ name.toList, isNameChar c = true) → (∀ c, cs[e]? = some c → isNameChar c = false) →
      Stands cs p e (.keyword (.ofOffset cs p) name)
  | string {p r : Nat} {ds : List Char} : cs[p]? = some '"' → Body cs (p + 1) r ds →
      cs[r]? = some '"' →
      Stands cs p (r + 1) (.string (.ofOffset cs p) (String.ofList ds.reverse))
  | symbol {p e : Nat} {name : String} : Named cs p e name → name ∉ ["true", "false", "nil"] →
      Stands cs p e (.symbol (.ofOffset cs p) name)
  | bool {p e : Nat} {b : Bool} : Named cs p e (if b then "true" else "false") →
      Stands cs p e (.bool (.ofOffset cs p) b)
  | nil {p e : Nat} : Named cs p e "nil" → Stands cs p e (.nil (.ofOffset cs p))

/-! ### Open forms and errors -/

/-- The open forms, the innermost first, begin one inside the other behind a gap from `low` on, and
the innermost of them is followed up to the offset `p`. -/
inductive Opened (cs : List Char) (low : Nat) : Nat → List Open → Prop
  | nil {p : Nat} : Gap cs low p → Opened cs low p []
  | bracket {q p : Nat} {b : Bracket} {xs : List Noted} {k : List Open} :
      cs[q]? = some b.opener → Laid cs (q + 1) p xs →
      (∀ x ∈ xs, Stands cs x.start x.stop x.value) → Opened cs low q k →
      Opened cs low p (.bracket b (.ofOffset cs q) (xs.map Noted.value).reverse :: k)
  | caret {q : Nat} {k : List Open} : Marked cs q .withMeta → Opened cs low q k →
      Opened cs low (q + 1) (.caret (.ofOffset cs q) :: k)
  | target {q p : Nat} {sugar : Sugar} {k : List Open} : sugar ≠ .withMeta → Marked cs q sugar →
      Gap cs (q + sugar.mark.length) p → Opened cs low q k →
      Opened cs low p (.target sugar (.ofOffset cs q) [] :: k)
  | withMeta {q r p : Nat} {data : Value} {k : List Open} : Marked cs q .withMeta →
      Stands cs (q + 1) r data → Gap cs r p → Opened cs low q k →
      Opened cs low p (.target .withMeta (.ofOffset cs q) [data] :: k)

/-- Whether a character closes the innermost open form. -/
def closesInnermost (c : Char) : List Open → Bool
  | .bracket .list _ _ :: _ => c = ')'
  | .bracket .vector _ _ :: _ => c = ']'
  | .bracket .map _ _ :: _ => c = '}'
  | _ => false

/-- Reading that began at the offset `low` has come to the offset `e` and blames an error on the
offset `p`. -/
inductive Blamed (cs : List Char) (low : Nat) : ReadCause → Nat → Nat → Prop
  /-- Behind the bracket there are finished elements, and then the text ends. -/
  | unterminated {p : Nat} {b : Bracket} {xs : List Noted} {k : List Open} : Opened cs low p k →
      cs[p]? = some b.opener → Laid cs (p + 1) cs.length xs →
      (∀ x ∈ xs, Stands cs x.start x.stop x.value) →
      Blamed cs low (.unterminated b) p cs.length
  | unterminatedString {p r : Nat} {ds : List Char} {k : List Open} : Opened cs low p k →
      cs[p]? = some '"' → Body cs (p + 1) r ds →
      r = cs.length ∨ cs[r]? = some '\\' ∧ r + 1 = cs.length →
      Blamed cs low .unterminatedString p cs.length
  | unknownEscape {q p : Nat} {c : Char} {ds : List Char} {k : List Open} : Opened cs low q k →
      cs[q]? = some '"' → Body cs (q + 1) p ds → cs[p]? = some '\\' → cs[p + 1]? = some c →
      escaped c = none → Blamed cs low (.unknownEscape c) p (p + 2)
  /-- The last of an odd number of elements between braces. -/
  | missingMapValue {q r : Nat} {xs : List Noted} {x : Noted} {k : List Open} :
      Opened cs low q k → cs[q]? = some '{' → Laid cs (q + 1) r (xs ++ [x]) →
      (∀ y ∈ xs ++ [x], Stands cs y.start y.stop y.value) → xs.length % 2 = 0 →
      cs[r]? = some '}' → Blamed cs low .missingMapValue x.start (r + 1)
  | missingTarget {p : Nat} {sugar : Sugar} {k : List Open} : Opened cs low p k →
      sugar ≠ .withMeta → Marked cs p sugar → Gap cs (p + sugar.mark.length) cs.length →
      Blamed cs low (.missingTarget sugar) p cs.length
  | missingMetaTarget {p r : Nat} {data : Value} {k : List Open} : Opened cs low p k →
      Marked cs p .withMeta → Stands cs (p + 1) r data → Gap cs r cs.length →
      Blamed cs low (.missingTarget .withMeta) p cs.length
  | unexpectedCloser {p : Nat} {c : Char} {k : List Open} : Opened cs low p k →
      cs[p]? = some c → c ∈ [')', ']', '}'] → closesInnermost c k = false →
      Blamed cs low (.unexpectedCloser c) p (p + 1)

/-- What a call answers that reads from the offset `p` up to the offset `e`: behind a gap there is
the end of the text, a value that is written there, or what an error is blamed on. -/
def Answered (cs : List Char) (p e : Nat) : Except ReadError Value → Prop
  | .ok v => (v = .nop (.ofOffset cs e) "" ∧ Gap cs p e ∧ e = cs.length) ∨
      ∃ q, Gap cs p q ∧ Stands cs q e v
  | .error error => ∃ q, p ≤ q ∧ q < e ∧ error.location = .ofOffset cs q ∧
      Blamed cs p error.cause q e

section

variable {cs : List Char} {low p q a b : Nat} {c : Char} {k : List Open}

/-! ### Gaps and rows of values -/

theorem lt_length_of_getElem? (h : cs[p]? = some c) : p < cs.length :=
  (List.getElem?_eq_some_iff.mp h).1

theorem Gap.le (h : Gap cs a b) : a ≤ b := by
  induction h with
  | nil => exact Nat.le_refl a
  | separator _ _ _ ih => omega
  | comment _ _ _ _ _ ih => omega
  | ending _ hsemicolon _ ih =>
    have := lt_length_of_getElem? hsemicolon
    omega

theorem Gap.trans (h : Gap cs a p) (h' : Gap cs p b) : Gap cs a b := by
  induction h' with
  | nil => exact h
  | separator _ hc hsep ih => exact .separator ih hc hsep
  | comment _ hsemicolon hlt hline hnewline ih =>
    exact .comment ih hsemicolon hlt hline hnewline
  | ending _ hsemicolon hline ih => exact .ending ih hsemicolon hline

/-- No gap begins with a brace. -/
theorem Gap.eq_of_brace (h : Gap cs a b) (hc : cs[a]? = some '{') : b = a := by
  induction h with
  | nil => rfl
  | separator _ hd hsep ih =>
    rw [ih, hc] at hd
    cases hd
    exact absurd hsep (by decide)
  | comment _ hd _ _ _ ih =>
    rw [ih, hc] at hd
    cases hd
  | ending _ hd _ ih =>
    rw [ih, hc] at hd
    cases hd

theorem Laid.le : ∀ {xs : List Noted} {a : Nat}, Laid cs a b xs → a ≤ b
  | [], _, h => Gap.le h
  | x :: xs, a, ⟨hgap, hlt, hxs⟩ => by
    have := hgap.le
    have := Laid.le hxs
    omega

/-- A row of values goes on over a gap. -/
theorem Laid.later : ∀ {xs : List Noted} {a : Nat}, Laid cs a p xs → Gap cs p b → Laid cs a b xs
  | [], _, h, hgap => Gap.trans h hgap
  | _ :: _, _, ⟨hfirst, hlt, hxs⟩, hgap => ⟨hfirst, hlt, Laid.later hxs hgap⟩

/-- A row of values goes on with the value behind it. -/
theorem Laid.push {v : Value} : ∀ {xs : List Noted} {a : Nat}, Laid cs a q xs → q < p →
    Laid cs a p (xs ++ [⟨q, p, v⟩])
  | [], _, h, hlt => ⟨h, hlt, .nil⟩
  | _ :: _, _, ⟨hfirst, hlt, hxs⟩, hlt' => ⟨hfirst, hlt, Laid.push hxs hlt'⟩

/-- A value in a row begins between the ends of the row. -/
theorem Laid.le_start {x : Noted} : ∀ {xs : List Noted} {a : Nat}, Laid cs a b xs → x ∈ xs →
    a ≤ x.start ∧ x.start < b
  | y :: ys, a, ⟨hgap, hlt, hys⟩, hx => by
    have hle := hgap.le
    have hle' := Laid.le hys
    rcases List.mem_cons.mp hx with rfl | hx
    · omega
    · have := Laid.le_start hys hx
      omega

theorem Body.le {ds : List Char} (h : Body cs a b ds) : a ≤ b := by
  induction h with
  | nil => exact Nat.le_refl a
  | char _ _ _ _ ih => omega
  | escape _ _ _ _ ih => omega

/-! ### Words -/

theorem Spans.lt {w : List Char} (h : Spans cs p q w) (hw : w ≠ []) : p < q := by
  have := h.2
  have := List.length_pos_iff.mpr hw
  omega

theorem Spans.le_length {w : List Char} (h : Spans cs p q w) (hw : w ≠ []) : q ≤ cs.length := by
  have hlength := h.1.length_le
  have hpos := List.length_pos_iff.mpr hw
  have hend := h.2
  rw [List.length_drop] at hlength
  omega

theorem Spans.drop {w : List Char} (h : Spans cs p q w) : cs.drop p = w ++ cs.drop q := by
  obtain ⟨⟨t, ht⟩, rfl⟩ := h
  rw [← List.drop_drop, ← ht, List.drop_left]

theorem Named.ne_nil {name : String} (h : Named cs p q name) : name.toList ≠ [] := by
  obtain ⟨c, hc, -⟩ := h.begins
  rintro hnil
  rw [hnil] at hc
  cases hc

theorem spans_literal {literal : List Char} (h : longestMatch isLiteral (cs.drop p) = literal) :
    Spans cs p (p + literal.length) literal :=
  ⟨h ▸ longestUpTo_prefix _ _ _, rfl⟩

/-! ### Marks -/

theorem mark_length_pos (sugar : Sugar) : 0 < sugar.mark.length := by
  cases sugar <;> decide

theorem Marked.lt_length {sugar : Sugar} (h : Marked cs p sugar) : p < cs.length := by
  have hlength := h.1.length_le
  have := mark_length_pos sugar
  rw [List.length_drop] at hlength
  omega

/-- A caret that is a mark has a brace behind it. -/
theorem Marked.brace (h : Marked cs q .withMeta) : cs[q + 1]? = some '{' := by
  obtain ⟨⟨t, ht⟩, -⟩ := h
  exact getElem?_of_drop (drop_succ_of_drop ht.symm)

/-! ### Values -/

theorem Stands.location {v : Value} (h : Stands cs p q v) : v.location = .ofOffset cs p := by
  cases h <;> rfl

/-- **A value takes up some of the text.** -/
theorem Stands.lt_le {v : Value} (h : Stands cs p q v) : p < q ∧ q ≤ cs.length := by
  induction h with
  | list _ hxs _ hclose _ =>
    have := hxs.le
    have := lt_length_of_getElem? hclose
    omega
  | vector _ hxs _ hclose _ =>
    have := hxs.le
    have := lt_length_of_getElem? hclose
    omega
  | map _ hxs _ hclose _ _ =>
    have := hxs.le
    have := lt_length_of_getElem? hclose
    omega
  | sugar _ _ hgap _ ih =>
    have := hgap.le
    omega
  | withMeta _ _ hgap _ ih ih' =>
    have := hgap.le
    omega
  | number hliteral hne =>
    have hspan := spans_literal hliteral
    exact ⟨hspan.lt hne, hspan.le_length hne⟩
  | keyword hspan _ _ => exact ⟨hspan.lt (List.cons_ne_nil _ _), hspan.le_length (List.cons_ne_nil _ _)⟩
  | string _ hbody hclose =>
    have := hbody.le
    have := lt_length_of_getElem? hclose
    omega
  | symbol hname _ => exact ⟨hname.spans.lt hname.ne_nil, hname.spans.le_length hname.ne_nil⟩
  | bool hname => exact ⟨hname.spans.lt hname.ne_nil, hname.spans.le_length hname.ne_nil⟩
  | nil hname => exact ⟨hname.spans.lt hname.ne_nil, hname.spans.le_length hname.ne_nil⟩

theorem Stands.lt {v : Value} (h : Stands cs p q v) : p < q :=
  h.lt_le.1

theorem Stands.le_length {v : Value} (h : Stands cs p q v) : q ≤ cs.length :=
  h.lt_le.2

/-! ### Open forms -/

theorem Opened.le (h : Opened cs low p k) : low ≤ p := by
  induction h with
  | nil hgap => exact hgap.le
  | bracket _ hxs _ _ ih =>
    have := hxs.le
    omega
  | caret _ _ ih => omega
  | target _ _ hgap _ ih =>
    have := hgap.le
    omega
  | withMeta _ hdata hgap _ ih =>
    have := hdata.lt
    have := hgap.le
    omega

/-- What is open stays open over a gap. -/
theorem Opened.later (h : Opened cs low p k) (hgap : Gap cs p b) : Opened cs low b k := by
  cases h with
  | nil hgap' => exact .nil (hgap'.trans hgap)
  | bracket hopen hxs hstands hk => exact .bracket hopen (hxs.later hgap) hstands hk
  | caret hmark hk =>
    -- behind a caret there is a brace and so no gap
    obtain rfl := hgap.eq_of_brace hmark.brace
    exact .caret hmark hk
  | target hne hmark hgap' hk => exact .target hne hmark (hgap'.trans hgap) hk
  | withMeta hmark hdata hgap' hk => exact .withMeta hmark hdata (hgap'.trans hgap) hk

/-- An answer comes from within the text. -/
theorem Answered.le_length {r : Except ReadError Value} (h : Answered cs p q r) : q ≤ cs.length := by
  cases r with
  | ok v =>
    rcases h with ⟨-, -, rfl⟩ | ⟨_, -, hv⟩
    · exact Nat.le_refl _
    · exact hv.le_length
  | error e =>
    obtain ⟨_, -, -, -, hblamed⟩ := h
    generalize e.cause = cause at hblamed
    cases hblamed with
    | unterminated | unterminatedString | missingTarget | missingMetaTarget => exact Nat.le_refl _
    | unknownEscape _ _ _ _ hc _ => exact lt_length_of_getElem? hc
    | missingMapValue _ _ _ _ _ hclose => exact lt_length_of_getElem? hclose
    | unexpectedCloser _ hc _ _ => exact lt_length_of_getElem? hc

end

end Reader

end MiniLisp
