import MiniLisp.Proofs.Reader.Layout

/-!
# Every text has its layout

From every offset on, a text is laid out in some way: behind a gap it ends, or a value is written there,
or there is something that an error is blamed on.  No reader is needed to see that.  Each token leads
further into the text, either to a value that is finished or to forms that are open, and the text is
finite.

* `exists_gap_of_comment`, `exists_body_end`, `exists_run`: how far a comment, a string and a run of
  characters go.
* `onward_token`: where one token leads.
* `Opened.exists_answered`: **from every offset on, there is an answer**.
-/

namespace MiniLisp.Reader

section

variable {cs : List Char} {low p e : Nat} {c : Char} {k : List Open}

/-! ### Comments, strings and runs of characters -/

/-- A comment that has come to the offset `q` goes on to the end of its line or of the text. -/
theorem exists_gap_of_comment {q : Nat} (hc : cs[p]? = some ';') (hlt : p < q)
    (hline : ∀ i, p < i → i < q → cs[i]? ≠ some '\n') :
    ∃ b, p < b ∧ b ≤ cs.length ∧ Gap cs p b := by
  cases hq : cs[q]? with
  | none =>
    have hlength := List.getElem?_eq_none_iff.mp hq
    refine ⟨cs.length, lt_length_of_getElem? hc, Nat.le_refl _, .ending .nil hc fun i hi => ?_⟩
    by_cases hiq : i < q
    · exact hline i hi hiq
    · rw [List.getElem?_eq_none (by omega)]
      exact nofun
  | some d =>
    have hlength := lt_length_of_getElem? hq
    by_cases hd : d = '\n'
    · subst hd
      exact ⟨q + 1, by omega, hlength, .comment .nil hc hlt hline hq⟩
    · refine exists_gap_of_comment (q := q + 1) hc (by omega) fun i hi hiq => ?_
      by_cases hi' : i = q
      · rw [hi', hq]
        exact fun h => hd (Option.some.inj h)
      · exact hline i hi (by omega)
termination_by cs.length - q

/-- A string that has come to the offset `r` goes on to its closing quote, to the end of the text or to
an escape that has no meaning. -/
theorem exists_body_end {a r : Nat} {ds : List Char} (hbody : Body cs a r ds) (hr : r ≤ cs.length) :
    ∃ r ds, Body cs a r ds ∧ (cs[r]? = some '"' ∨
      (r = cs.length ∨ cs[r]? = some '\\' ∧ r + 1 = cs.length) ∨
      ∃ c, cs[r]? = some '\\' ∧ cs[r + 1]? = some c ∧ escaped c = none) := by
  cases hc : cs[r]? with
  | none =>
    have hlength := List.getElem?_eq_none_iff.mp hc
    exact ⟨r, ds, hbody, Or.inr (Or.inl (Or.inl (by omega)))⟩
  | some c =>
    have hlength := lt_length_of_getElem? hc
    by_cases hquote : c = '"'
    · exact ⟨r, ds, hbody, Or.inl (by rw [hc, hquote])⟩
    · by_cases hslash : c = '\\'
      · subst hslash
        cases hd : cs[r + 1]? with
        | none =>
          have hlength' := List.getElem?_eq_none_iff.mp hd
          exact ⟨r, ds, hbody, Or.inr (Or.inl (Or.inr ⟨hc, by omega⟩))⟩
        | some d =>
          have hlength' := lt_length_of_getElem? hd
          cases he : escaped d with
          | none => exact ⟨r, ds, hbody, Or.inr (Or.inr ⟨d, hc, hd, he⟩)⟩
          | some x => exact exists_body_end (hbody.escape hc hd he) hlength'
      · exact exists_body_end (hbody.char hc hquote hslash) hlength
termination_by cs.length - r

/-- From every offset on there is a longest run of characters of a class. -/
theorem exists_run (f : Char → Bool) (cs : List Char) (p : Nat) :
    ∃ w : List Char, Spans cs p (p + w.length) w ∧ (∀ c ∈ w, f c = true) ∧
      ∀ c, cs[p + w.length]? = some c → f c = false := by
  have hspan : Spans cs p (p + ((cs.drop p).takeWhile f).length) ((cs.drop p).takeWhile f) :=
    ⟨List.takeWhile_prefix f, rfl⟩
  refine ⟨(cs.drop p).takeWhile f, hspan, mem_takeWhile, fun c hc => ?_⟩
  have hrest : (cs.drop p).dropWhile f = cs.drop (p + ((cs.drop p).takeWhile f).length) :=
    List.append_cancel_left (List.takeWhile_append_dropWhile.trans hspan.drop)
  have hend := nextIs_dropWhile f (cs.drop p)
  rw [hrest, drop_of_getElem? hc, nextIs_cons] at hend
  exact hend

/-! ### Atoms -/

theorem exists_stands_name (hc : cs[p]? = some c) (hchar : isNameChar c = true)
    (hbegin : BeginsName c cs[p + 1]?) : ∃ e v, Stands cs p e v := by
  obtain ⟨w, hspan, hchars, hend⟩ := exists_run isNameChar cs p
  have hhead : w.head? = some c := by
    cases w with
    | nil =>
      have hnot := hend c hc
      rw [hchar] at hnot
      cases hnot
    | cons d w =>
      have hd := hspan.drop
      rw [drop_of_getElem? hc] at hd
      exact congrArg some (List.cons.inj hd).1.symm
  have hlist : (String.ofList w).toList = w := String.toList_ofList
  have hname : Named cs p (p + w.length) (String.ofList w) :=
    ⟨by rw [hlist]; exact hspan, by rw [hlist]; exact hchars, hend, c, by rw [hlist]; exact hhead,
      hbegin⟩
  by_cases hliteral : String.ofList w ∈ ["true", "false", "nil"]
  · simp only [List.mem_cons, List.not_mem_nil, or_false] at hliteral
    rcases hliteral with h | h | h
    · rw [h] at hname
      exact ⟨_, _, .bool (b := true) hname⟩
    · rw [h] at hname
      exact ⟨_, _, .bool (b := false) hname⟩
    · rw [h] at hname
      exact ⟨_, _, .nil hname⟩
  · exact ⟨_, _, .symbol hname hliteral⟩

theorem exists_stands_keyword (hc : cs[p]? = some ':') : ∃ e v, Stands cs p e v := by
  obtain ⟨w, hspan, hchars, hend⟩ := exists_run isNameChar cs (p + 1)
  have hlist : (String.ofList w).toList = w := String.toList_ofList
  refine ⟨p + 1 + w.length, .keyword (.ofOffset cs p) (String.ofList w), .keyword ?_ ?_ hend⟩
  · rw [hlist]
    refine ⟨⟨cs.drop (p + 1 + w.length), ?_⟩, by rw [List.length_cons]; omega⟩
    rw [drop_of_getElem? hc, hspan.drop]
    rfl
  · rw [hlist]
    exact hchars

theorem exists_stands_number (hc : cs[p]? = some c)
    (hdigit : c.isDigit = true ∨ c = '-' ∧ (cs[p + 1]?).any Char.isDigit = true) :
    ∃ e v, Stands cs p e v := by
  obtain ⟨w, t, hw, ht⟩ : ∃ (w : Decimal.Literal) (t : List Char), cs.drop p = w.spell ++ t ∧
      numberGoesOn (!w.places.isEmpty) t = false := by
    rw [isDigit_eq] at hdigit
    rcases hdigit with hdigit | ⟨rfl, hdigit⟩
    · refine exists_literal_append false ?_
      rw [drop_of_getElem? hc]
      exact hdigit
    · rw [drop_of_getElem? hc]
      refine exists_literal_append true ?_
      rw [nextIs, List.head?_drop]
      exact hdigit
  have hliteral : longestMatch isLiteral (cs.drop p) = w.spell := by
    rw [hw]
    exact longestMatch_literal w ht
  exact ⟨_, _, .number hliteral w.spell_ne_nil⟩

/-! ### Where one token leads -/

/-- From the offset `p` on, there is an answer or there are open forms further on. -/
def Onward (cs : List Char) (low p : Nat) : Prop :=
  (∃ e r, Answered cs low e r) ∨ ∃ b k, p < b ∧ b ≤ cs.length ∧ Opened cs low b k

theorem Onward.opened {q : Nat} (hlt : p < q) (hle : q ≤ cs.length) (hk : Opened cs low q k) :
    Onward cs low p :=
  Or.inr ⟨q, k, hlt, hle, hk⟩

theorem Onward.failed {q : Nat} {cause : ReadCause} (hle : low ≤ q) (hlt : q < e)
    (h : Blamed cs low cause q e) : Onward cs low p :=
  Or.inl ⟨e, .error ⟨cause, .ofOffset cs q⟩, q, hle, hlt, rfl, h⟩

/-- A finished value is the answer, or it belongs to the innermost open form. -/
theorem Onward.stands {q : Nat} {v : Value} (hv : Stands cs q e v) (hk : Opened cs low q k) (hlt : p < e) :
    Onward cs low p := by
  induction k generalizing q v with
  | nil =>
    cases hk with
    | nil hgap => exact Or.inl ⟨e, .ok v, Or.inr ⟨q, hgap, hv⟩⟩
  | cons form k ih =>
    have hle := hv.le_length
    cases hk with
    | @bracket q₀ _ b xs _ hopen hxs hstands hk =>
      have hmem : ∀ x ∈ xs ++ [⟨q, e, v⟩], Stands cs x.start x.stop x.value := by
        intro x hx
        rcases List.mem_append.mp hx with hx | hx
        · exact hstands x hx
        · rw [List.mem_singleton.mp hx]
          exact hv
      exact .opened hlt hle (.bracket hopen (hxs.push hv.lt) hmem hk)
    | caret hmark hk => exact .opened hlt hle (.withMeta hmark hv .nil hk)
    | target hne hmark hgap hk => exact ih (.sugar hne hmark hgap hv) hk
    | withMeta hmark hdata hgap hk => exact ih (.withMeta hmark hdata hgap hv) hk

theorem onward_opener (b : Bracket) (hk : Opened cs low p k) (hc : cs[p]? = some b.opener) :
    Onward cs low p := by
  have hnone : Laid cs (p + 1) (p + 1) [] := .nil
  exact .opened (Nat.lt_succ_self p) (lt_length_of_getElem? hc) (.bracket hc hnone (by simp) hk)

theorem onward_mark (sugar : Sugar) (hk : Opened cs low p k) (hne : sugar ≠ .withMeta)
    (hmark : Marked cs p sugar) : Onward cs low p := by
  have hpos := mark_length_pos sugar
  have hspan : Spans cs p (p + sugar.mark.length) sugar.mark := ⟨hmark.1, rfl⟩
  have hle := hspan.le_length (List.length_pos_iff.mp hpos)
  exact .opened (by omega) hle (.target hne hmark .nil hk)

/-- A closing bracket finishes the innermost open form or is unexpected. -/
theorem onward_closer (hk : Opened cs low p k) (hc : cs[p]? = some c)
    (hcloser : c ∈ [')', ']', '}']) : Onward cs low p := by
  cases hcloses : closesInnermost c k with
  | false => exact .failed hk.le (Nat.lt_succ_self p) (.unexpectedCloser hk hc hcloser hcloses)
  | true =>
    cases hk with
    | nil _ => cases hcloses
    | caret _ _ => cases hcloses
    | target _ _ _ _ => cases hcloses
    | withMeta _ _ _ _ => cases hcloses
    | @bracket q _ b xs k hopen hxs hstands hk =>
      cases b with
      | list =>
        obtain rfl : c = ')' := of_decide_eq_true hcloses
        exact .stands (.list hopen hxs hstands hc) hk (Nat.lt_succ_self p)
      | vector =>
        obtain rfl : c = ']' := of_decide_eq_true hcloses
        exact .stands (.vector hopen hxs hstands hc) hk (Nat.lt_succ_self p)
      | map =>
        obtain rfl : c = '}' := of_decide_eq_true hcloses
        by_cases heven : xs.length % 2 = 0
        · exact .stands (.map hopen hxs hstands hc heven) hk (Nat.lt_succ_self p)
        · have hne : xs ≠ [] := by
            rintro rfl
            exact heven rfl
          have hlast := List.dropLast_concat_getLast hne
          generalize xs.getLast hne = x at hlast
          generalize xs.dropLast = front at hlast
          subst hlast
          have hlow := hk.le
          have hx := hxs.le_start (x := x) (by simp)
          refine .failed (by omega) (by omega) (.missingMapValue hk hopen hxs hstands ?_ hc)
          rw [List.length_append, List.length_singleton] at heven
          omega

theorem onward_comment (hk : Opened cs low p k) (hc : cs[p]? = some ';') : Onward cs low p := by
  obtain ⟨b, hlt, hle, hgap⟩ :=
    exists_gap_of_comment hc (Nat.lt_succ_self p) fun i hi hi' => by omega
  exact .opened hlt hle (hk.later hgap)

theorem onward_string (hk : Opened cs low p k) (hc : cs[p]? = some '"') : Onward cs low p := by
  have hlow := hk.le
  have hlt := lt_length_of_getElem? hc
  obtain ⟨r, ds, hbody, hend⟩ := exists_body_end (.nil : Body cs (p + 1) (p + 1) []) hlt
  have hle := hbody.le
  rcases hend with hquote | hending | ⟨d, hslash, hd, hnone⟩
  · exact .stands (.string hc hbody hquote) hk (by omega)
  · exact .failed hlow hlt (.unterminatedString hk hc hbody hending)
  · exact .failed (by omega) (by omega) (.unknownEscape hk hc hbody hslash hd hnone)

/-- A token that is marked by its first character. -/
theorem onward_tokenMark (hk : Opened cs low p k) (hc : cs[p]? = some c) (hmark : c ∈ tokenMarks) :
    Onward cs low p := by
  have hspan : ∀ sugar : Sugar, sugar.mark = [c] → sugar.mark <+: cs.drop p := by
    intro sugar h
    rw [h, drop_of_getElem? hc]
    exact ⟨_, rfl⟩
  simp only [tokenMarks, List.mem_cons, List.not_mem_nil, or_false] at hmark
  rcases hmark with rfl | rfl | rfl | rfl | rfl | rfl | rfl | rfl | rfl | rfl | rfl | rfl
  · exact onward_opener .list hk hc
  · exact onward_opener .vector hk hc
  · exact onward_opener .map hk hc
  · exact onward_closer hk hc (by decide)
  · exact onward_closer hk hc (by decide)
  · exact onward_closer hk hc (by decide)
  · exact onward_mark .quote hk nofun ⟨hspan .quote rfl, nofun⟩
  · exact onward_mark .quasiquote hk nofun ⟨hspan .quasiquote rfl, nofun⟩
  · exact onward_mark .deref hk nofun ⟨hspan .deref rfl, nofun⟩
  · by_cases hat : cs[p + 1]? = some '@'
    · refine onward_mark .spliceUnquote hk nofun ⟨?_, nofun⟩
      rw [drop_of_getElem? hc, drop_of_getElem? hat]
      exact ⟨_, rfl⟩
    · exact onward_mark .unquote hk nofun ⟨hspan .unquote rfl, fun _ => hat⟩
  · exact onward_string hk hc
  · obtain ⟨e, v, hv⟩ := exists_stands_keyword hc
    exact .stands hv hk hv.lt

/-- **One token leads to an answer or further into the text.** -/
theorem onward_token (hk : Opened cs low p k) (hc : cs[p]? = some c) : Onward cs low p := by
  have hlt := lt_length_of_getElem? hc
  by_cases hmark : c ∈ tokenMarks
  · exact onward_tokenMark hk hc hmark
  · by_cases hsemicolon : c = ';'
    · exact onward_comment hk (hsemicolon ▸ hc)
    by_cases hsep : isWhiteSpace c = true ∨ c = ','
    · exact .opened (Nat.lt_succ_self p) hlt (hk.later (.separator .nil hc hsep))
    · by_cases hcaret : c = '^' ∧ cs[p + 1]? = some '{'
      · obtain ⟨rfl, hbrace⟩ := hcaret
        have hmark' : Marked cs p .withMeta := by
          refine ⟨?_, nofun⟩
          rw [drop_of_getElem? hc, drop_of_getElem? hbrace]
          exact ⟨_, rfl⟩
        exact .opened (Nat.lt_succ_self p) hlt (.caret hmark' hk)
      · by_cases hdigit : c.isDigit = true ∨ c = '-' ∧ (cs[p + 1]?).any Char.isDigit = true
        · obtain ⟨e, v, hv⟩ := exists_stands_number hc hdigit
          exact .stands hv hk hv.lt
        · simp only [tokenMarks, List.mem_cons, List.not_mem_nil, or_false, not_or] at hmark
          obtain ⟨hwhite, hcomma⟩ := not_or.mp hsep
          obtain ⟨hnumber, hminus⟩ := not_or.mp hdigit
          have hchar : isNameChar c = true := by
            simp [isNameChar, hwhite, hcomma, hsemicolon, hmark]
          have hbegin : BeginsName c cs[p + 1]? := by
            refine ⟨by simp [hmark], Bool.eq_false_iff.mpr hnumber, fun h => ?_, fun h h' => ?_⟩
            · exact Bool.eq_false_iff.mpr fun h' => hminus ⟨h, h'⟩
            · exact hcaret ⟨h, h'⟩
          obtain ⟨e, v, hv⟩ := exists_stands_name hc hchar hbegin
          exact .stands hv hk hv.lt

/-! ### The whole text -/

/-- Where the text ends, nothing is open or the innermost open form is unfinished. -/
theorem Opened.exists_answered_of_end (hk : Opened cs low cs.length k) :
    ∃ e r, Answered cs low e r := by
  have hfailed : ∀ {cause q}, low ≤ q → q < cs.length → Blamed cs low cause q cs.length →
      ∃ e r, Answered cs low e r :=
    fun {cause q} hle hlt h => ⟨_, .error ⟨cause, .ofOffset cs q⟩, q, hle, hlt, rfl, h⟩
  generalize hend : cs.length = stop at hk
  cases hk with
  | nil hgap =>
    subst hend
    exact ⟨_, .ok _, Or.inl ⟨rfl, hgap, rfl⟩⟩
  | bracket hopen hxs hstands hk =>
    subst hend
    exact hfailed hk.le (lt_length_of_getElem? hopen) (.unterminated hk hopen hxs hstands)
  | caret hmark hk =>
    have := lt_length_of_getElem? hmark.brace
    omega
  | target hne hmark hgap hk =>
    subst hend
    exact hfailed hk.le hmark.lt_length (.missingTarget hk hne hmark hgap)
  | withMeta hmark hdata hgap hk =>
    subst hend
    exact hfailed hk.le hmark.lt_length (.missingMetaTarget hk hmark hdata hgap)

/-- **From every offset on, there is an answer**, whatever is open there. -/
theorem Opened.exists_answered {p : Nat} {k : List Open} (hk : Opened cs low p k) (hp : p ≤ cs.length) :
    ∃ e r, Answered cs low e r := by
  cases hc : cs[p]? with
  | none =>
    obtain rfl : p = cs.length := Nat.le_antisymm hp (List.getElem?_eq_none_iff.mp hc)
    exact hk.exists_answered_of_end
  | some c =>
    rcases onward_token hk hc with hanswer | ⟨b, k', hlt, hle, hk'⟩
    · exact hanswer
    · exact hk'.exists_answered hle
termination_by cs.length - p

end

end MiniLisp.Reader
