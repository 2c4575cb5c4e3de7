import MiniLisp.Proofs.Reader.Grammar
import MiniLisp.Proofs.Reader.Lexeme

/-!
# The reader knows the notation

The tokens and the data of a text are described from the notation alone: by classes of characters,
tables of escapes and heads, the longest text that is a number, and a count of line feeds.  The reader
has its own words for all that, and they come to the same.

* `Location.beyond_eq_after`: the location behind a text.
* `isNameChar_eq`, `isDigit_eq`, `escaped_eq`: the characters.
* `longestMatch_literal`: a number ends where the reader sees that it does not go on.
* `literalValue_spell`: the value of a number.
* `nameDatum_eq`, `headOf_eq`, `pairs_of_even`, `pairs_of_odd`: what names, short notations and the
  elements of a hash-map stand for.
-/

namespace MiniLisp

/-! ### Places -/

/-- One character more is passed over as the reader passes over it. -/
theorem Location.beyond_concat (l : Location) (cs : List Char) (c : Char) :
    l.beyond (cs ++ [c]) = (l.beyond cs).next c := by
  rw [beyond, beyond, next]
  by_cases hc : c = '\n'
  · subst hc
    by_cases hcs : '\n' ∈ cs <;> simp [hcs, Nat.add_assoc, List.count_eq_zero_of_not_mem]
  · have hc' : '\n' ≠ c := fun h => hc h.symm
    by_cases hcs : '\n' ∈ cs
    · simp [hcs, hc, List.count_append, Nat.add_assoc]
    · simp [hcs, hc, hc', Nat.add_assoc]

/-- **Counting line feeds and what follows the last of them is following the text.** -/
theorem Location.beyond_eq_after (l : Location) (cs : List Char) : l.beyond cs = l.after cs := by
  have hfollow : ∀ cs ds : List Char, l.beyond (ds ++ cs) = (l.beyond ds).after cs := by
    intro cs
    induction cs with
    | nil => intro ds; rw [List.append_nil]; rfl
    | cons c cs ih =>
      intro ds
      rw [after_cons, ← beyond_concat, ← ih, List.append_assoc]
      rfl
  exact hfollow cs []

theorem Location.beyond_singleton (l : Location) (c : Char) : l.beyond [c] = l.next c :=
  l.beyond_eq_after [c]

namespace Reader

/-! ### Characters -/

theorem isWhiteSpace_eq (c : Char) : isWhiteSpace c = Text.isBlank c := by
  rw [Bool.eq_iff_iff]
  simp only [isWhiteSpace, Text.isBlank, Text.blankRanges, List.any_cons, List.any_nil,
    List.mem_cons, List.not_mem_nil, Bool.or_eq_true, Bool.and_eq_true, decide_eq_true_eq]
  generalize c.toNat = n
  simp
  omega

theorem isSeparator_eq (c : Char) : (isWhiteSpace c || c = ',') = isSeparator c := by
  rw [isSeparator, isWhiteSpace_eq]

theorem skip_cons (comment : Bool) (l : Location) (c : Char) (cs : List Char) :
    skip comment l (c :: cs) =
      if comment then skip (c != '\n') (l.next c) cs
      else if isSeparator c then skip false (l.next c) cs
      else if c = ';' then skip true (l.next c) cs
      else ⟨c :: cs, l⟩ := by
  rw [skip, isSeparator_eq, l.beyond_singleton]

theorem isNameChar_eq : isNameChar = isSymbolChar := by
  funext c
  rw [Bool.eq_iff_iff]
  simp only [isNameChar, isSymbolChar, isSeparator, isDelimiter, isWhiteSpace_eq, List.mem_cons,
    List.not_mem_nil, Bool.and_eq_true, Bool.not_eq_true', Bool.or_eq_false_iff, decide_eq_true_eq,
    decide_eq_false_iff_not]
  grind

theorem isDigit_eq : Char.isDigit = Decimal.isDigit := by
  funext c
  rfl

/-- The characters that are a token, or begin one, whatever follows. -/
def tokenMarks : List Char :=
  ['(', '[', '{', ')', ']', '}', '\'', '\x60', '@', '~', '"', ':']

theorem escaped_eq (c : Char) : escaped c = Text.unescape c := by
  unfold escaped
  split
  iterate 4 rfl
  · next hquote hslash hfeed hsingle =>
    simp_all [Text.unescape]

/-! ### Where a number ends -/

/-- A text that a predicate accepts is the longest such one if nothing behind it can be added. -/
theorem longestMatch_append {p : List Char → Bool} {a b : List Char} (hne : a ≠ [])
    (ha : p a = true) (hb : ∀ u, u ≠ [] → u <+: b → p (a ++ u) = false) :
    longestMatch p (a ++ b) = a := by
  have hupTo : ∀ n, n ≤ b.length → longestUpTo p (a ++ b) (a.length + n) = a := by
    intro n
    induction n with
    | zero =>
      intro _
      have htake : (a ++ b).take a.length = a := List.take_left
      obtain ⟨m, hm⟩ : ∃ m, a.length = m + 1 :=
        ⟨a.length - 1, (Nat.sub_add_cancel (List.length_pos_iff.mpr hne)).symm⟩
      rw [Nat.add_zero]
      rw [hm] at htake ⊢
      rw [longestUpTo, htake, if_pos ha]
    | succ n ih =>
      intro hn
      have htake : (a ++ b).take (a.length + n + 1) = a ++ b.take (n + 1) := by
        rw [Nat.add_assoc, List.take_length_add_append]
      have hu : b.take (n + 1) ≠ [] := by
        cases b with
        | nil => exact absurd hn (Nat.not_succ_le_zero n)
        | cons c b => simp
      rw [← Nat.add_assoc, longestUpTo, htake, hb _ hu (List.take_prefix _ _), if_neg (by decide)]
      exact ih (Nat.le_of_succ_le hn)
  rw [longestMatch, List.length_append]
  exact hupTo b.length (Nat.le_refl _)

theorem isLiteral_append (negative : Bool) {whole r : List Char} (hne : whole ≠ [])
    (hwhole : ∀ c ∈ whole, Decimal.isDigit c = true) (hr : nextIs Decimal.isDigit r = false) :
    isLiteral ((if negative then ['-'] else []) ++ whole ++ r) =
      (r.isEmpty || (r.head? = some '.' && !r.tail.isEmpty && r.tail.all Decimal.isDigit)) := by
  have hunsigned : (if ((if negative then ['-'] else []) ++ whole ++ r).head? = some '-' then
      ((if negative then ['-'] else []) ++ whole ++ r).tail
      else (if negative then ['-'] else []) ++ whole ++ r) = whole ++ r := by
    cases negative with
    | true => rfl
    | false =>
      obtain ⟨d, ds, rfl⟩ := List.exists_cons_of_ne_nil hne
      have hd : d ≠ '-' := by
        rintro rfl
        exact absurd (hwhole '-' (by simp)) (by decide)
      simp [hd]
  have hwhole' : whole.isEmpty = false := by simpa using hne
  rw [isLiteral, isDigit_eq, hunsigned, Decimal.takeWhile_isDigit_append hwhole hr,
    Decimal.dropWhile_isDigit_append hwhole hr, hwhole']
  rfl

/-- **A number is the longest literal that stands there** if it does not go on. -/
theorem longestMatch_literal (w : Decimal.Literal) {t : List Char}
    (ht : numberGoesOn (!w.places.isEmpty) t = false) :
    longestMatch isLiteral (w.spell ++ t) = w.spell := by
  obtain ⟨negative, whole, places, hne, hwhole, hplaces⟩ := w
  refine longestMatch_append (by simp [Decimal.Literal.spell, hne]) ?_ ?_
  · rw [Decimal.Literal.spell, isLiteral_append negative hne hwhole (by cases places <;> rfl)]
    cases places with
    | nil => rfl
    | cons p ps => simpa using hplaces
  · intro u hu hprefix
    obtain ⟨x, u, rfl⟩ := List.exists_cons_of_ne_nil hu
    obtain ⟨t, rfl⟩ := hprefix
    rw [Decimal.Literal.spell, List.append_assoc]
    cases places with
    | nil =>
      have ht : (Decimal.isDigit x || (x = '.' && nextIs Decimal.isDigit (u ++ t))) = false := ht
      rw [Bool.or_eq_false_iff] at ht
      have hliteral := isLiteral_append negative hne hwhole (r := x :: u) ht.1
      rw [List.isEmpty_nil, if_pos rfl, List.nil_append, hliteral]
      cases u with
      | nil => simp
      | cons y u =>
        have hy : x = '.' → Decimal.isDigit y = false := by
          rintro rfl
          exact ht.2
        by_cases hx : x = '.'
        · simp [hx, hy hx]
        · simp [hx]
    | cons p ps =>
      have ht : (Decimal.isDigit x || false) = false := ht
      rw [Bool.or_false] at ht
      rw [isLiteral_append negative hne hwhole rfl]
      simp [ht]

theorem nextIs_dropWhile (p : Char → Bool) (cs : List Char) :
    nextIs p (cs.dropWhile p) = false := by
  have h := List.head?_dropWhile_not p cs
  rw [nextIs]
  cases hhead : (cs.dropWhile p).head? with
  | none => rfl
  | some c => rw [hhead] at h; exact h

theorem mem_takeWhile {p : Char → Bool} {cs : List Char} : ∀ c ∈ cs.takeWhile p, p c = true :=
  List.all_eq_true.mp List.all_takeWhile

/-- A number that begins somewhere is a literal in front of a text that does not go on with it. -/
theorem exists_literal_append (negative : Bool) {cs : List Char}
    (hcs : nextIs Decimal.isDigit cs = true) :
    ∃ (w : Decimal.Literal) (t : List Char),
      (if negative then ['-'] else []) ++ cs = w.spell ++ t ∧
        numberGoesOn (!w.places.isEmpty) t = false := by
  have hne : cs.takeWhile Decimal.isDigit ≠ [] := by
    cases cs with
    | nil => cases hcs
    | cons c cs =>
      have hc : Decimal.isDigit c = true := hcs
      rw [List.takeWhile_cons_of_pos hc]
      exact List.cons_ne_nil _ _
  have hbehind := nextIs_dropWhile Decimal.isDigit cs
  have hsplit := List.takeWhile_append_dropWhile (p := Decimal.isDigit) (l := cs)
  generalize cs.dropWhile Decimal.isDigit = behind at hbehind hsplit
  by_cases hpoint : ∃ r, behind = '.' :: r ∧ nextIs Decimal.isDigit r = true
  · obtain ⟨r, rfl, hr⟩ := hpoint
    have hplaces : (r.takeWhile Decimal.isDigit).isEmpty = false := by
      cases r with
      | nil => cases hr
      | cons d r =>
        have hd : Decimal.isDigit d = true := hr
        rw [List.takeWhile_cons_of_pos hd]
        rfl
    refine ⟨⟨negative, _, r.takeWhile Decimal.isDigit, hne, mem_takeWhile, mem_takeWhile⟩,
      r.dropWhile Decimal.isDigit, ?_, ?_⟩
    · simp only [Decimal.Literal.spell, hplaces, Bool.false_eq_true, if_false, List.append_assoc,
        List.cons_append, List.takeWhile_append_dropWhile, hsplit]
    · have hend := nextIs_dropWhile Decimal.isDigit r
      rw [hplaces]
      cases hrest : r.dropWhile Decimal.isDigit with
      | nil => rfl
      | cons x xs =>
        rw [hrest, nextIs_cons] at hend
        rw [numberGoesOn, hend]
        rfl
  · refine ⟨⟨negative, _, [], hne, mem_takeWhile, by simp⟩, behind, ?_, ?_⟩
    · rw [Decimal.Literal.spell, List.isEmpty_nil, if_pos rfl, List.append_nil, List.append_assoc,
        hsplit]
    · cases behind with
      | nil => rfl
      | cons x xs =>
        rw [nextIs_cons] at hbehind
        have hdot : (decide (x = '.') && nextIs Decimal.isDigit xs) = false := by
          by_cases hx : x = '.'
          · subst hx
            cases hd : nextIs Decimal.isDigit xs with
            | false => rfl
            | true => exact absurd ⟨xs, rfl, hd⟩ hpoint
          · rw [decide_eq_false hx, Bool.false_and]
        rw [List.isEmpty_nil, numberGoesOn, hbehind]
        simpa using hdot

theorem longestUpTo_accepted {p : List Char → Bool} {cs : List Char} : ∀ {n : Nat},
    longestUpTo p cs n ≠ [] → p (longestUpTo p cs n) = true := by
  intro n
  induction n with
  | zero => exact fun h => absurd rfl h
  | succ n ih =>
    rw [longestUpTo]
    split
    · next h => exact fun _ => h
    · exact ih

theorem longestUpTo_prefix (p : List Char → Bool) (cs : List Char) (n : Nat) :
    longestUpTo p cs n <+: cs := by
  induction n with
  | zero => exact List.nil_prefix
  | succ n ih =>
    rw [longestUpTo]
    split
    · exact List.take_prefix _ _
    · exact ih

/-- Where any literal stands, a number begins. -/
theorem exists_literal_of_longestMatch {cs : List Char} (h : longestMatch isLiteral cs ≠ []) :
    ∃ (w : Decimal.Literal) (t : List Char), cs = w.spell ++ t ∧
      numberGoesOn (!w.places.isEmpty) t = false := by
  have haccepted : isLiteral (longestMatch isLiteral cs) = true := longestUpTo_accepted h
  obtain ⟨t, ht⟩ : longestMatch isLiteral cs <+: cs := longestUpTo_prefix _ _ _
  rw [← ht]
  generalize longestMatch isLiteral cs = m at haccepted
  have hfirst : ∀ u : List Char, (u.takeWhile Char.isDigit).isEmpty = false →
      nextIs Decimal.isDigit (u ++ t) = true := by
    intro u hu
    cases u with
    | nil => cases hu
    | cons d u =>
      rw [isDigit_eq, List.takeWhile_cons] at hu
      cases hd : Decimal.isDigit d with
      | true => exact hd
      | false => rw [hd] at hu; cases hu
  rw [isLiteral, Bool.and_eq_true, Bool.not_eq_true'] at haccepted
  by_cases hsign : m.head? = some '-'
  · obtain ⟨u, rfl⟩ := List.head?_eq_some_iff.mp hsign
    rw [if_pos hsign] at haccepted
    exact exists_literal_append true (hfirst u haccepted.1)
  · rw [if_neg hsign] at haccepted
    exact exists_literal_append false (hfirst m haccepted.1)

/-! ### The value of a number -/

/-- The part of a literal in front of its point has no point in it. -/
theorem dropWhile_point_spell (w : Decimal.Literal) :
    w.spell.dropWhile (· ≠ '.') = if w.places.isEmpty then [] else '.' :: w.places := by
  have hfront : ∀ c ∈ (if w.negative then ['-'] else []) ++ w.whole, decide (c ≠ '.') = true := by
    intro c hc
    rw [decide_eq_true_eq]
    rintro rfl
    rcases List.mem_append.mp hc with hc | hc
    · cases hn : w.negative <;> simp [hn] at hc
    · exact absurd (w.isDigit_whole _ hc) (by decide)
  rw [Decimal.Literal.spell, List.dropWhile_append_of_pos hfront]
  cases w.places <;> rfl

theorem filter_isDigit_spell (w : Decimal.Literal) :
    w.spell.filter Decimal.isDigit = w.whole ++ w.places := by
  have hsign : (if w.negative then ['-'] else []).filter Decimal.isDigit = [] := by
    cases w.negative <;> rfl
  have hplaces : (if w.places.isEmpty then [] else '.' :: w.places).filter Decimal.isDigit =
      w.places := by
    have hfilter := List.filter_eq_self.mpr w.isDigit_places
    generalize w.places = places at hfilter
    cases places with
    | nil => rfl
    | cons c cs => exact hfilter
  rw [Decimal.Literal.spell, List.filter_append, List.filter_append, hsign,
    List.filter_eq_self.mpr w.isDigit_whole, hplaces]
  rfl

theorem head?_spell (w : Decimal.Literal) : w.spell.head? = some '-' ↔ w.negative = true := by
  obtain ⟨negative, whole, places, hne, hwhole, -⟩ := w
  cases negative with
  | true => exact iff_of_true rfl rfl
  | false =>
    obtain ⟨d, ds, rfl⟩ := List.exists_cons_of_ne_nil hne
    refine iff_of_false (fun h => ?_) Bool.false_ne_true
    obtain rfl : d = '-' := Option.some.inj h
    exact absurd (hwhole '-' (by simp)) (by decide)

/-- **The value of a literal is that of its digits.** -/
theorem literalValue_spell (w : Decimal.Literal) : literalValue w.spell = w.value.toFloat := by
  have hplaces : (if w.places.isEmpty then [] else '.' :: w.places).length - 1 =
      w.places.length := by
    cases w.places <;> rfl
  rw [literalValue, isDigit_eq, filter_isDigit_spell, dropWhile_point_spell, hplaces]
  simp only [head?_spell]
  rfl

/-! ### Data -/

theorem nameDatum_eq (l : Location) (name : String) : nameDatum l name = nameValue l name := by
  unfold nameDatum
  split
  · rfl
  · rfl
  · rfl
  · next htrue hfalse hnil => rw [nameValue, if_neg htrue, if_neg hfalse, if_neg hnil]

theorem headOf_eq (sugar : Sugar) : headOf sugar = sugar.name := by
  cases sugar <;> rfl

theorem pairs_of_even : ∀ {vs : List Value}, vs.length % 2 = 0 → Value.pairs vs = .ok (inPairs vs)
  | [], _ => rfl
  | [_], h => by cases h
  | key :: value :: rest, h => by
    have hrest : rest.length % 2 = 0 := by simpa [Nat.add_assoc] using h
    rw [Value.pairs, pairs_of_even hrest]
    rfl

theorem pairs_of_odd : ∀ {vs : List Value}, vs.length % 2 ≠ 0 →
    ∃ key, vs.getLast? = some key ∧ Value.pairs vs = .error key
  | [], h => absurd rfl h
  | [key], _ => ⟨key, rfl, rfl⟩
  | key :: value :: rest, h => by
    have hrest : rest.length % 2 ≠ 0 := by simpa [Nat.add_assoc] using h
    obtain ⟨last, hlast, hpairs⟩ := pairs_of_odd hrest
    refine ⟨last, ?_, by rw [Value.pairs, hpairs]; rfl⟩
    rw [List.getLast?_cons, List.getLast?_cons, hlast]
    rfl

end Reader

end MiniLisp
