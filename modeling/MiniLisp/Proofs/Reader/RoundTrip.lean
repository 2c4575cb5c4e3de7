import MiniLisp.Proofs.Decimal.ReadBack
import MiniLisp.Proofs.Reader.Lexeme
import MiniLisp.Value.Equality
import MiniLisp.Value.Text

/-!
# Printed values read back

A value that is built from notation alone is printed as a text that reads back as the value.  The
text delimits itself: reading stops right behind it, whatever follows, as long as what follows
cannot go on with the last token.

Reading finds the value anew, with the locations of the text.  `Value.reread` is that value; a number
that is not finite has no notation, and its text names a symbol.

* `halt_spell`: reading the text of a value hands `reread` of it to the innermost open form.  The
  forms that are open do not matter, and so the induction goes through nested values.
* `equal_reread`: the value found is equal to the one printed if its numbers are finite.
* `next_text_append`: **printing a value and reading the text gives the value back**.
-/

namespace MiniLisp

/-! ### Values that have a notation -/

/-- Whether a text is the name of a symbol and of nothing else. -/
def isName (name : String) : Bool :=
  match name.toList with
  | [] => false
  | c :: cs =>
    (c :: cs).all isSymbolChar && !(["true", "false", "nil"].contains name) &&
      !(['\'', '\x60', '~', '@', ':'].contains c) && !Decimal.isDigit c &&
      !(c = '-' && Reader.nextIs Decimal.isDigit cs)

namespace Value

/-- The values that are built from notation alone, with numbers of a given kind. -/
inductive Textual (number : Float → Prop) : Value → Prop
  | list {l : Location} {vs : List Value} : (∀ v ∈ vs, Textual number v) →
      Textual number (.list l vs)
  | vector {l : Location} {vs : List Value} : (∀ v ∈ vs, Textual number v) →
      Textual number (.vector l vs)
  | map {l : Location} {es : List (Value × Value)} : (∀ e ∈ es, Textual number e.1) →
      (∀ e ∈ es, Textual number e.2) → Textual number (.map l es)
  | number {l : Location} {x : Float} : number x → Textual number (.number l x)
  | symbol {l : Location} {name : String} : isName name = true → Textual number (.symbol l name)
  | keyword {l : Location} {name : String} : (∀ c ∈ name.toList, isSymbolChar c = true) →
      Textual number (.keyword l name)
  | string {l : Location} {text : String} : Textual number (.string l text)
  | bool {l : Location} {b : Bool} : Textual number (.bool l b)
  | nil {l : Location} : Textual number (.nil l)

/-- The values whose text reads back as the value: their numbers are finite. -/
def Readable (v : Value) : Prop :=
  v.Textual fun x => x.isFinite = true

mutual

/-- The value that is found in the text of a value, if the text begins at `l`. -/
def reread (l : Location) : Value → Value
  | .list _ elements => .list l (rereadElements (l.next '(') elements)
  | .vector _ elements => .vector l (rereadElements (l.next '[') elements)
  | .map _ entries => .map l (rereadEntries (l.next '{') entries)
  | .number _ x =>
    if x.isFinite then .number l x else .symbol l (String.ofList (Decimal.plain x))
  | v => v.moveTo l

/-- The elements of a sequence that are found in their texts. -/
def rereadElements (l : Location) : List Value → List Value
  | [] => []
  | v :: vs => v.reread l :: rereadElements ((l.after v.spell).next ' ') vs

/-- The keys and values of a hash-map that are found in their texts. -/
def rereadEntries (l : Location) : List (Value × Value) → List (Value × Value)
  | [] => []
  | (k, v) :: es =>
    let l' := (l.after k.spell).next ' '
    (k.reread l, v.reread l') :: rereadEntries ((l'.after v.spell).next ' ') es

end

end Value

namespace Reader

/-- Whether a text cannot go on with the datum before it: it is empty, or it begins with a separator,
a comment or a closing bracket. -/
def endsDatum : List Char → Bool
  | [] => true
  | c :: _ => isSeparator c || c = ';' || c = ')' || c = ']' || c = '}'

theorem nextIs_of_endsDatum {t : List Char} (ht : endsDatum t = true) :
    nextIs isSymbolChar t = false := by
  cases t with
  | nil => rfl
  | cons c t =>
    simp only [endsDatum, Bool.or_eq_true, decide_eq_true_eq] at ht
    rw [nextIs_cons]
    rcases ht with (((h | rfl) | rfl) | rfl) | rfl
    · rw [isSymbolChar, h]
      rfl
    all_goals decide

theorem nextIs_brace_of_endsDatum {t : List Char} (ht : endsDatum t = true) :
    nextIs (· = '{') t = false := by
  cases t with
  | nil => rfl
  | cons c t =>
    rw [nextIs_cons, decide_eq_false_iff_not]
    rintro rfl
    exact Bool.false_ne_true ht

/-! ### Reading the text of an atom -/

section

variable {k : List Open} {l : Location} {t : List Char}

theorem beginsName_append {c : Char} {cs : List Char} (hbegin : beginsName c cs = true)
    (hcs : ∀ d ∈ cs, isSymbolChar d = true) (ht : endsDatum t = true) :
    beginsName c (cs ++ t) = true := by
  cases cs with
  | nil =>
    have hdigit : nextIs Decimal.isDigit t = false :=
      nextIs_of_imp (fun _ => isSymbolChar_of_isDigit) (nextIs_of_endsDatum ht)
    simp only [beginsName, List.nil_append, hdigit, nextIs_brace_of_endsDatum ht]
    simpa [beginsName] using hbegin
  | cons d ds => exact hbegin

/-- The text of a name, whatever it names. -/
theorem halt_toList (name : String) {c : Char} {cs : List Char} (hname : name.toList = c :: cs)
    (hbegin : beginsName c cs = true) (hall : cs.all isSymbolChar = true)
    (ht : endsDatum t = true) :
    (State.mk .gap k).halt l (name.toList ++ t) =
      (deliver (nameValue l name) k).halt (l.after name.toList) t := by
  have hcs := List.all_eq_true.mp hall
  have hofList : String.ofList (c :: cs) = name := by rw [← hname, String.ofList_toList]
  rw [hname, halt_name (beginsName_append hbegin hcs ht) hcs (nextIs_of_endsDatum ht), hofList]

/-- The text of a symbol. -/
theorem halt_isName {name : String} (h : isName name = true) (ht : endsDatum t = true) :
    (State.mk .gap k).halt l (name.toList ++ t) =
      (deliver (.symbol l name) k).halt (l.after name.toList) t := by
  rw [isName] at h
  cases hname : name.toList with
  | nil => rw [hname] at h; cases h
  | cons c cs =>
    simp only [hname, List.all_cons, Bool.and_eq_true, Bool.not_eq_true'] at h
    obtain ⟨⟨⟨⟨⟨hc, hcs⟩, hlit⟩, hmark⟩, hdigit⟩, hminus⟩ := h
    have hbrace : nextIs (· = '{') cs = false := by
      cases cs with
      | nil => rfl
      | cons d ds =>
        have hd := List.all_eq_true.mp hcs d (by simp)
        rw [nextIs_cons, decide_eq_false_iff_not]
        rintro rfl
        exact absurd hd (by decide)
    have hbegin : beginsName c cs = true := by
      simp only [beginsName, hc, hdigit, hmark, hminus, hbrace, Bool.and_false, Bool.not_false,
        Bool.and_true]
    have hvalue : nameValue l name = .symbol l name := by
      simp only [List.contains_cons, List.contains_nil, Bool.or_false, Bool.or_eq_false_iff,
        beq_eq_false_iff_ne] at hlit
      rw [nameValue, if_neg hlit.1, if_neg hlit.2.1, if_neg hlit.2.2]
    rw [← hname, halt_toList name hname hbegin hcs ht, hvalue]

/-- The text of a number.  If the number is not finite, its text names a symbol. -/
theorem halt_plain (l₀ : Location) (x : Float) (ht : endsDatum t = true) :
    (State.mk .gap k).halt l (Decimal.plain x ++ t) =
      (deliver (Value.reread l (.number l₀ x)) k).halt (l.after (Decimal.plain x)) t := by
  rw [Value.reread]
  cases hx : x.isFinite with
  | true =>
    obtain ⟨w, hspell, hvalue⟩ := Decimal.exists_literal_plain hx
    rw [← hspell, halt_literal w (numberGoesOn_of_nextIs _ (nextIs_of_endsDatum ht)), hvalue]
    rfl
  | false =>
    have hname : isName (String.ofList (Decimal.plain x)) = true := by
      have hx : x.toModel.unpack.isFinite = false := hx
      rw [Decimal.plain, Decimal.spellFloat]
      cases hu : x.toModel.unpack with
      | notANumber =>
        show isName (String.ofList "NaN".toList) = true
        decide
      | infinity s =>
        show isName (String.ofList (Decimal.spellSign s ++ "inf".toList)) = true
        cases s <;> decide
      | zero s => rw [hu] at hx; cases hx
      | finite s m e h => rw [hu] at hx; cases hx
    have h := halt_isName (k := k) (l := l) hname ht
    rw [String.toList_ofList] at h
    exact h

/-! ### Reading the texts of several values -/

/-- Whether the text of a value is read as the value found in it, whatever is open and whatever
follows. -/
def ReadsBack (v : Value) : Prop :=
  ∀ (k : List Open) (l : Location) (t : List Char), endsDatum t = true →
    (State.mk .gap k).halt l (v.spell ++ t) = (deliver (v.reread l) k).halt (l.after v.spell) t

variable {b : Bracket} {start : Location}

theorem endsDatum_spacedTail (ht : endsDatum t = true) (us : List (List Char)) :
    endsDatum (us.flatMap (fun u => ' ' :: u) ++ t) = true := by
  cases us with
  | nil => exact ht
  | cons u us => rfl

/-- Between brackets, the texts of values with a space before each of them. -/
theorem halt_spacedTail (ht : endsDatum t = true) :
    ∀ (vs acc : List Value) (l : Location), (∀ v ∈ vs, ReadsBack v) →
    (State.mk .gap (.bracket b start acc :: k)).halt l
        ((vs.map Value.spell).flatMap (fun u => ' ' :: u) ++ t) =
      (State.mk .gap (.bracket b start
        ((Value.rereadElements (l.next ' ') vs).reverse ++ acc) :: k)).halt
        (l.after ((vs.map Value.spell).flatMap fun u => ' ' :: u)) t := by
  intro vs
  induction vs with
  | nil => intro acc l _; rfl
  | cons v vs ih =>
    intro acc l hvs
    have hends := endsDatum_spacedTail ht (vs.map Value.spell)
    rw [List.map_cons, List.flatMap_cons, List.append_assoc, List.cons_append,
      halt_separator (by decide), hvs v (by simp) _ _ _ hends, deliver, Step.halt_reading,
      ih _ _ (fun w hw => hvs w (List.mem_cons_of_mem v hw)), Value.rereadElements,
      List.reverse_cons, List.append_assoc, Location.after_append, Location.after_cons]
    rfl

/-- **Between brackets, the printed elements are read in turn.** -/
theorem halt_spaced (ht : endsDatum t = true) (vs : List Value) (hvs : ∀ v ∈ vs, ReadsBack v)
    (l : Location) :
    (State.mk .gap (.bracket b start [] :: k)).halt l (Text.spaced (vs.map Value.spell) ++ t) =
      (State.mk .gap (.bracket b start (Value.rereadElements l vs).reverse :: k)).halt
        (l.after (Text.spaced (vs.map Value.spell))) t := by
  cases vs with
  | nil => rfl
  | cons v vs =>
    have hends := endsDatum_spacedTail ht (vs.map Value.spell)
    rw [List.map_cons, Text.spaced, List.append_assoc, hvs v (by simp) _ _ _ hends, deliver,
      Step.halt_reading, halt_spacedTail ht vs _ _ (fun w hw => hvs w (List.mem_cons_of_mem v hw)),
      Value.rereadElements, List.reverse_cons, Location.after_append]

/-- The printed elements with their brackets, given what the closing bracket does. -/
theorem halt_bracketed (b : Bracket) (start l : Location) (t : List Char) {v : Value}
    (vs : List Value) (hvs : ∀ v ∈ vs, ReadsBack v)
    (hbuild : build b start (Value.rereadElements l vs) = .ok v) :
    (State.mk .gap (.bracket b start [] :: k)).halt l
        (Text.spaced (vs.map Value.spell) ++ b.closer :: t) =
      (deliver v k).halt ((l.after (Text.spaced (vs.map Value.spell))).next b.closer) t := by
  have hends : endsDatum (b.closer :: t) = true := by
    cases b <;> rfl
  rw [← List.reverse_reverse (Value.rereadElements l vs)] at hbuild
  rw [halt_spaced hends vs hvs, halt_closer hbuild]

end

end Reader

namespace Value

theorem pairs_rereadElements (es : List (Value × Value)) (l : Location) :
    pairs (rereadElements l (es.flatMap fun e => [e.1, e.2])) = .ok (rereadEntries l es) := by
  induction es generalizing l with
  | nil => rfl
  | cons e es ih =>
    obtain ⟨k, v⟩ := e
    rw [List.flatMap_cons]
    show pairs (_ :: _ :: rereadElements _ (es.flatMap fun e => [e.1, e.2])) = _
    rw [pairs, ih]
    rfl

end Value

namespace Reader

/-- **The text of a value is read as the value found in it**, whatever is open and whatever
follows. -/
theorem halt_spell {number : Float → Prop} {v : Value} (hv : v.Textual number) : ReadsBack v := by
  induction hv with
  | @list l₀ vs hvs ih =>
    intro k l t ht
    have h := halt_bracketed (k := k) .list l (l.next '(') t vs ih rfl
    rw [Value.spell_list, List.cons_append, List.append_assoc, Location.after_cons,
      Location.after_append]
    exact h
  | @vector l₀ vs hvs ih =>
    intro k l t ht
    have h := halt_bracketed (k := k) .vector l (l.next '[') t vs ih rfl
    rw [Value.spell_vector, List.cons_append, List.append_assoc, Location.after_cons,
      Location.after_append]
    exact h
  | @map l₀ es hk hv ihk ihv =>
    intro k l t ht
    have hes : ∀ v ∈ es.flatMap (fun e => [e.1, e.2]), ReadsBack v := by
      intro v hv
      obtain ⟨e, he, hv⟩ := List.mem_flatMap.mp hv
      rcases (by simpa using hv : v = e.1 ∨ v = e.2) with rfl | rfl
      · exact ihk e he
      · exact ihv e he
    have hbuild : build .map l (Value.rereadElements (l.next '{') (es.flatMap fun e => [e.1, e.2])) =
        .ok (.map l (Value.rereadEntries (l.next '{') es)) := by
      rw [build, Value.pairs_rereadElements]
    have h := halt_bracketed (k := k) .map l (l.next '{') t _ hes hbuild
    rw [Value.spell_map, List.cons_append, List.append_assoc, Location.after_cons,
      Location.after_append]
    exact h
  | @number l₀ x hx =>
    intro k l t ht
    rw [Value.spell_number]
    exact halt_plain l₀ x ht
  | symbol hname => intro k l t ht; exact halt_isName hname ht
  | @keyword l₀ name hname =>
    intro k l t ht
    have h := halt_keyword (k := k) (l := l) hname (nextIs_of_endsDatum ht)
    rw [String.ofList_toList] at h
    exact h
  | @string l₀ text =>
    intro k l t ht
    have h := halt_quote (k := k) (l := l) (t := t) text.toList
    rw [String.ofList_toList] at h
    exact h
  | @bool l₀ b =>
    intro k l t ht
    cases b with
    | true => exact halt_toList "true" rfl rfl (by decide) ht
    | false => exact halt_toList "false" rfl rfl (by decide) ht
  | nil => intro k l t ht; exact halt_toList "nil" rfl rfl (by decide) ht

end Reader

/-! ### The value that is found -/

namespace Value

/-- **The value found in the text of a value is equal to it**, if its numbers are finite. -/
theorem equal_reread {v : Value} (hv : v.Readable) : ∀ l, (v.reread l).equal v = true := by
  have helements : ∀ vs : List Value, (∀ v ∈ vs, ∀ l, (v.reread l).equal v = true) →
      ∀ l, equalElements (rereadElements l vs) vs = true := by
    intro vs
    induction vs with
    | nil => intro _ l; rfl
    | cons v vs ih =>
      intro h l
      rw [rereadElements, equalElements, h v (by simp),
        ih (fun w hw => h w (List.mem_cons_of_mem v hw))]
      rfl
  have hentries : ∀ es : List (Value × Value), (∀ e ∈ es, ∀ l, (e.1.reread l).equal e.1 = true) →
      (∀ e ∈ es, ∀ l, (e.2.reread l).equal e.2 = true) →
      ∀ l, equalEntries (rereadEntries l es) es = true := by
    intro es
    induction es with
    | nil => intro _ _ l; rfl
    | cons e es ih =>
      obtain ⟨k, v⟩ := e
      intro hk hv l
      rw [rereadEntries, equalEntries, hk (k, v) (by simp), hv (k, v) (by simp),
        ih (fun e he => hk e (List.mem_cons_of_mem _ he))
          (fun e he => hv e (List.mem_cons_of_mem _ he))]
      rfl
  induction hv with
  | list _ ih => exact fun l => helements _ ih _
  | vector _ ih => exact fun l => helements _ ih _
  | map _ _ ihk ihv => exact fun l => hentries _ ihk ihv _
  | @number l₀ x hx =>
    intro l
    rw [reread, if_pos hx, equal]
    exact Decimal.beq_self hx
  | symbol _ => exact fun l => beq_self_eq_true _
  | keyword _ => exact fun l => beq_self_eq_true _
  | string => exact fun l => beq_self_eq_true _
  | bool => exact fun l => beq_self_eq_true _
  | nil => exact fun l => rfl

end Value

/-- **Printing a value and reading the text gives the value back.**  Reading takes the text of the
value and nothing of the text behind it. -/
theorem next_text_append {v : Value} (hv : v.Readable) {t : String}
    (ht : Reader.endsDatum t.toList = true) (l : Location) (n : Nat) :
    ∃ v' : Value, (Cursor.mk ⟨(v.text ++ t).toList, l⟩ n).next =
        (.ok v', ⟨⟨t.toList, l.after v.text.toList⟩, n + v.text.utf8ByteSize⟩) ∧
      (v' == v) = true := by
  refine ⟨v.reread l, ?_, Value.equal_reread hv l⟩
  have hhalt := Reader.halt_spell hv [] l t.toList ht
  have hspell : v.spell ++ t.toList = (v.text ++ t).toList := by
    rw [String.toList_append, Value.text, String.toList_ofList]
  have hanswer := Reader.next_eq_halt ⟨⟨(v.text ++ t).toList, l⟩, n⟩
  have hposition := Reader.position_next ⟨⟨(v.text ++ t).toList, l⟩, n⟩
  rw [hspell] at hhalt
  rw [Reader.State.initial, hhalt] at hanswer
  generalize (Cursor.mk ⟨(v.text ++ t).toList, l⟩ n).next = answer at hanswer hposition
  obtain ⟨result, unread, position⟩ := answer
  cases hanswer
  have hbytes : position = n + v.text.utf8ByteSize := by
    simp only [String.ofList_toList, String.utf8ByteSize_append] at hposition
    omega
  rw [hbytes, Value.text, String.toList_ofList]

/-- A value of this kind: a lone minus, a negative number, a quote in a string and an empty keyword,
in front of one more closing bracket. -/
theorem next_text_append_nested :
    ∃ v v' : Value, v.text = "(- [-1.5 \"a\\\"\\n\"] \x7b: nil\x7d)" ∧ v.Readable ∧
      (Cursor.mk ⟨(v.text ++ ")").toList, .start⟩ 0).next =
        (.ok v', ⟨⟨[')'], Location.start.after v.text.toList⟩, 0 + v.text.utf8ByteSize⟩) ∧
      (v' == v) = true := by
  have hnumber : (-1.5 : Float).isFinite = true := by decide +kernel
  have hvector : Value.Readable (.vector .builtin
      [.number .builtin (-1.5), .string .builtin "a\"\n"]) := by
    refine .vector (List.forall_mem_cons.mpr ⟨.number hnumber, ?_⟩)
    exact List.forall_mem_singleton.mpr .string
  have hmap : Value.Readable (.map .builtin [(.keyword .builtin "", .nil .builtin)]) :=
    .map (List.forall_mem_singleton.mpr (.keyword (by simp)))
      (List.forall_mem_singleton.mpr .nil)
  have hlist : Value.Readable (.list .builtin [.symbol .builtin "-",
      .vector .builtin [.number .builtin (-1.5), .string .builtin "a\"\n"],
      .map .builtin [(.keyword .builtin "", .nil .builtin)]]) := by
    refine .list (List.forall_mem_cons.mpr ⟨.symbol (by decide), ?_⟩)
    exact List.forall_mem_cons.mpr ⟨hvector, List.forall_mem_singleton.mpr hmap⟩
  obtain ⟨v', hnext, hequal⟩ := next_text_append hlist (t := ")") (by decide) .start 0
  exact ⟨_, v', by decide +kernel, hlist, hnext, hequal⟩

end MiniLisp
