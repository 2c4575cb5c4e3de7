import MiniLisp.Proofs.Eval.Discipline
import MiniLisp.Proofs.Reader.Image

/-!
# Texts without a line feed

What a session prints has to fit into one row, so it must hold no line feed.  A string may hold one, but
it is printed with an escape.  What is printed as it is are names of symbols and keywords and messages,
and the messages of faults and of errors in turn contain names, numbers, locations and single
characters.

* `Value.Unbroken.spell`: **a value is printed without a line feed**, if the names and messages in it have
  none.
* `Reader.Stands.unbroken`: what is written in a text has such names, also if the text has many rows.
* `Fault.Due.unbroken`: so have the messages of the faults that evaluation ends with.
* `unbroken_readError`: an error in a line without a line feed is reported without one.
-/

namespace MiniLisp

/-- A text without a line feed. -/
def Unbroken (s : String) : Prop :=
  '\n' ∉ s.toList

instance (s : String) : Decidable (Unbroken s) :=
  inferInstanceAs (Decidable ('\n' ∉ s.toList))

/-! ### Texts -/

theorem unbroken_append {s t : String} : Unbroken (s ++ t) ↔ Unbroken s ∧ Unbroken t := by
  simp [Unbroken, not_or]

theorem not_newline_of_isDigit {c : Char} (h : Decimal.isDigit c = true) : c ≠ '\n' := by
  rintro rfl
  cases h

theorem not_newline_of_isSymbolChar {c : Char} (h : isSymbolChar c = true) : c ≠ '\n' := by
  rintro rfl
  cases h

theorem unbroken_of_isSymbolChar {name : String} (h : ∀ c ∈ name.toList, isSymbolChar c = true) :
    Unbroken name :=
  fun hmem => not_newline_of_isSymbolChar (h _ hmem) rfl

theorem unbroken_of_isName {name : String} (h : isName name = true) : Unbroken name := by
  refine unbroken_of_isSymbolChar fun c hc => ?_
  unfold isName at h
  split at h
  · cases h
  · next d cs hname =>
    simp only [Bool.and_eq_true] at h
    rw [hname] at hc
    exact List.all_eq_true.mp h.1.1.1.1 c hc

theorem unbroken_toString (n : Nat) : Unbroken (toString n) := by
  intro hmem
  rw [Nat.toString_eq_repr, Nat.repr, String.toList_ofList] at hmem
  exact not_newline_of_isDigit (Decimal.isDigit_spellNat n _ hmem) rfl

/-- A number or a name between two fixed texts. -/
theorem unbroken_between {s t u : String} (hs : Unbroken s) (ht : Unbroken t) (hu : Unbroken u) :
    Unbroken (s ++ t ++ u) :=
  unbroken_append.mpr ⟨unbroken_append.mpr ⟨hs, ht⟩, hu⟩

theorem Location.unbroken_text (l : Location) : Unbroken l.text :=
  unbroken_between (unbroken_toString l.row) (by decide) (unbroken_toString l.column)

/-! ### Values -/

theorem Decimal.newline_not_mem_positional (digits : Nat) (exponent : Int) :
    '\n' ∉ positional digits exponent := by
  have hdigits : '\n' ∉ spellNat digits := fun hmem =>
    not_newline_of_isDigit (isDigit_spellNat digits _ hmem) rfl
  unfold positional
  split
  · simp [hdigits]
  · dsimp only
    split
    · simp only [List.mem_append, List.mem_cons, not_or]
      exact ⟨fun h => hdigits (List.mem_of_mem_take h), by decide,
        fun h => hdigits (List.mem_of_mem_drop h)⟩
    · simp [hdigits]

theorem Decimal.newline_not_mem_plain (x : Float) : '\n' ∉ plain x := by
  have hsign : ∀ sign, '\n' ∉ spellSign sign := by
    intro sign
    cases sign <;> decide
  unfold plain spellFloat
  split
  · decide
  · simp [hsign]
  · simp [hsign]
  · simp [hsign, newline_not_mem_positional]

theorem Text.newline_not_mem_quote (cs : List Char) : '\n' ∉ quote cs := by
  have hchar : ∀ c, '\n' ∉ quoteChar c := by
    intro c
    unfold quoteChar escape
    split_ifs with hbackslash hquote hnewline
    · simp
    · simp
    · simp
    · simpa using Ne.symm hnewline
  simp [quote, hchar]

theorem Text.newline_not_mem_spaced {ts : List (List Char)} (h : ∀ t ∈ ts, '\n' ∉ t) :
    '\n' ∉ spaced ts := by
  cases ts with
  | nil => simp [spaced]
  | cons t ts =>
    obtain ⟨ht, hts⟩ := List.forall_mem_cons.mp h
    simpa [spaced, ht] using hts

namespace Value

/-- The name of a symbol or a keyword and the message of a nothing have no line feed. -/
def UnbrokenName : Value → Prop
  | .symbol _ name | .keyword _ name => MiniLisp.Unbroken name
  | .nop _ message => MiniLisp.Unbroken message
  | _ => True

/-- No name and no message in a value has a line feed, at any depth. -/
def Unbroken (v : Value) : Prop :=
  v.Everywhere UnbrokenName

/-- **A value is printed without a line feed**, if the names and messages in it have none. -/
theorem Unbroken.spell {v : Value} (h : v.Unbroken) : '\n' ∉ v.spell := by
  induction v with
  | list l vs ih =>
    have hvs := Text.newline_not_mem_spaced (List.forall_mem_map.mpr fun v hv => ih v hv (h.part hv))
    simpa [spell_list] using hvs
  | vector l vs ih =>
    have hvs := Text.newline_not_mem_spaced (List.forall_mem_map.mpr fun v hv => ih v hv (h.part hv))
    simpa [spell_vector] using hvs
  | map l es ih =>
    have hes : ∀ w ∈ (map l es).parts, '\n' ∉ w.spell := by
      intro w hw
      obtain ⟨e, he, rfl | rfl⟩ := mem_parts_map.mp hw
      · exact (ih e he).1 (h.part hw)
      · exact (ih e he).2 (h.part hw)
    have hes := Text.newline_not_mem_spaced (List.forall_mem_map.mpr hes)
    rw [spell_map]
    simpa [parts] using hes
  | number l x => exact Decimal.newline_not_mem_plain x
  | symbol l name => exact h.self
  | keyword l name => exact List.not_mem_cons_of_ne_of_not_mem (by decide) h.self
  | string l text => exact Text.newline_not_mem_quote _
  | bool l b =>
    cases b
    · exact (by decide : '\n' ∉ "false".toList)
    · exact (by decide : '\n' ∉ "true".toList)
  | nil l => exact (by decide : '\n' ∉ "nil".toList)
  | primitive l i code => exact (by decide : '\n' ∉ "(function)".toList)
  | closure l i p body frame => exact (by decide : '\n' ∉ "(function)".toList)
  | nop l message => exact h.self

theorem Unbroken.text {v : Value} (h : v.Unbroken) : MiniLisp.Unbroken v.text := by
  simpa [MiniLisp.Unbroken, Value.text] using h.spell

end Value

/-- **What is written in a text has names without a line feed.** -/
theorem Reader.Stands.unbroken {cs : List Char} {p e : Nat} {v : Value} (h : Stands cs p e v) :
    v.Unbroken := by
  have htextual := h.textual
  clear h
  induction htextual with
  | list _ ih => exact .intro trivial ih
  | vector _ ih => exact .intro trivial ih
  | map _ _ ihkey ihvalue =>
    refine .intro trivial fun w hw => ?_
    obtain ⟨e, he, rfl | rfl⟩ := Value.mem_parts_map.mp hw
    · exact ihkey e he
    · exact ihvalue e he
  | symbol hname => exact .atom (unbroken_of_isName hname) rfl
  | keyword hchars => exact .atom (unbroken_of_isSymbolChar hchars) rfl
  | _ => exact .atom trivial rfl

/-! ### Messages -/

theorem Tag.unbroken_text (t : Tag) : Unbroken t.text := by
  cases t <;> decide

theorem Expected.unbroken_text (e : Expected) : Unbroken e.text := by
  cases e <;> decide

theorem Primitive.unbroken_name (p : Primitive) : Unbroken p.name := by
  have hall : ∀ p ∈ all, Unbroken p.name := by decide
  exact hall p (mem_all p)

theorem Callee.unbroken_name (callee : Callee) : Unbroken callee.name := by
  cases callee with
  | primitive code => exact code.unbroken_name
  | closure => decide

theorem Arity.unbroken_text (a : Arity) : Unbroken a.text := by
  cases a with
  | between least most =>
    rw [text]
    split
    · exact unbroken_append.mpr ⟨by decide, unbroken_toString least⟩
    · have hleast := unbroken_between (by decide : Unbroken "from ") (unbroken_toString least)
        (by decide : Unbroken " to ")
      exact unbroken_append.mpr ⟨hleast, unbroken_toString most⟩
  | atLeast least => exact unbroken_append.mpr ⟨by decide, unbroken_toString least⟩

theorem BadParameters.unbroken_message (reason : BadParameters) : Unbroken reason.message := by
  cases reason with
  | tooManyAmpersands count => exact unbroken_append.mpr ⟨by decide, unbroken_toString count⟩
  | misplacedAmpersand => decide

/-- A message that holds no name holds no line feed. -/
theorem Cause.unbroken_of_isFixed {cause : Cause} (h : cause.isFixed = true) :
    Unbroken cause.message := by
  cases cause with
  | undefinedSymbol | typeMismatch => cases h
  | nopOperand | defineKey | divideByZero => decide
  | notAFunction got | letBindings got | letKey got | lambdaParameters got | lambdaParameter got =>
    exact unbroken_append.mpr ⟨by decide, got.unbroken_text⟩
  | defineCount got | letCount got => exact unbroken_append.mpr ⟨by decide, unbroken_toString got⟩
  | letUnpaired count => exact unbroken_between (by decide) (unbroken_toString count) (by decide)
  | lambdaNames reason => exact unbroken_append.mpr ⟨by decide, reason.unbroken_message⟩
  | argumentCount callee expected got =>
    have hcallee := unbroken_between callee.unbroken_name (by decide : Unbroken ": expected ")
      expected.unbroken_text
    exact unbroken_between hcallee (by decide) (unbroken_toString got)

/-- **The message of a fault that evaluation ends with has no line feed**, if the names in the values that
it handles have none. -/
theorem Fault.Due.unbroken {f : Fault} (h : f.Due Value.UnbrokenName) : Unbroken f.message := by
  have hcause : Unbroken f.cause.message := by
    cases h with
    | undefinedSymbol hx => exact unbroken_between (by decide) hx (by decide)
    | typeMismatch code expected got =>
      have hcode := unbroken_between code.unbroken_name (by decide : Unbroken ": expected ")
        expected.unbroken_text
      exact unbroken_between hcode (by decide) got.unbroken_text
    | fixed hcause _ => exact Cause.unbroken_of_isFixed hcause
  exact unbroken_between hcause (by decide) f.location.unbroken_text

/-- The cause of an error mentions at most a character of the text. -/
theorem Reader.Blamed.unbroken {cs : List Char} {cause : ReadCause} {low p e : Nat}
    (h : Blamed cs low cause p e) (hcs : '\n' ∉ cs) : Unbroken cause.message := by
  have hchar : ∀ {c : Char}, c ≠ '\n' → Unbroken c.toString := by
    intro c hc
    simpa [Unbroken] using hc.symm
  cases h with
  | @unterminated _ bracket =>
    have hbracket : Unbroken bracket.text := by cases bracket <;> decide
    exact unbroken_append.mpr ⟨by decide, hbracket⟩
  | unterminatedString => decide
  | unknownEscape _ _ _ _ hc _ =>
    have hmem := List.mem_of_getElem? hc
    exact unbroken_append.mpr ⟨by decide, hchar fun h => hcs (h ▸ hmem)⟩
  | missingMapValue => decide
  | @missingTarget _ sugar =>
    have hsugar : Unbroken sugar.name := by cases sugar <;> decide
    exact unbroken_append.mpr ⟨hsugar, by decide⟩
  | missingMetaTarget => decide
  | unexpectedCloser _ hc _ _ =>
    have hmem := List.mem_of_getElem? hc
    exact unbroken_between (by decide) (hchar fun h => hcs (h ▸ hmem)) (by decide)

end MiniLisp
