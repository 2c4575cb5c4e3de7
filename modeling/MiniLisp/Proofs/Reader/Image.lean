import MiniLisp.Proofs.Reader.Placement
import MiniLisp.Proofs.Reader.RoundTrip
import MiniLisp.Proofs.Reader.Written

/-!
# What reading can give

A value that is read is built from notation alone: its symbols and keywords have names that can be
written, and its numbers are numbers.  So it can be printed and read again, and that gives the value
back unless a literal in it was too large for a double.

* `isNaN_toFloat`: a literal always has a value.
* `Reader.Stands.textual`: what is written in a text is built from notation.
* `Value.equal_reread_iff`: reading a printed value gives it back if its numbers are not infinite, and
  only then.
* `next_image`: **what reading can give, and when it can be read again**.
-/

namespace MiniLisp

/-! ### The values of literals -/

namespace Decimal

open Float.Model Float.Model.UnpackedFloat

theorem isNaN_roundWithAccuracy (format : Format) (s : Sign) (m : Nat) (e : Int) (a : Accuracy) :
    (roundWithAccuracy format s m e a).isNaN = false := by
  rw [roundWithAccuracy]
  dsimp only
  split <;> rfl

theorem isNaN_ofScientific (m : Nat) (e : Int) :
    (UnpackedFloat.ofScientific .binary64 m e).isNaN = false := by
  rw [UnpackedFloat.ofScientific]
  repeat' split
  · rfl
  · rfl
  · rfl
  · exact isNaN_roundWithAccuracy _ _ _ _ _
  · exact isNaN_roundWithAccuracy _ _ _ _ _

/-- Only the largest exponent is for what is no number. -/
theorem isNaN_unpack {b : BitVec Format.binary64.numBits} (h : unpackExponent b ≠ -1#11) :
    (UnpackedFloat.unpack .binary64 b).isNaN = false := by
  rw [UnpackedFloat.unpack]
  dsimp only
  rw [if_neg h]
  split
  · split <;> rfl
  · rfl

/-- Packing may lose digits or become infinite, but it makes no new exception. -/
theorem isNaN_unpack_pack {u : UnpackedFloat} (h : u.isNaN = false) :
    (Float.Model.pack u).unpack.isNaN = false := by
  cases u with
  | notANumber => cases h
  | infinity s => cases s <;> rfl
  | zero s => cases s <;> rfl
  | finite s m e hm =>
    show (UnpackedFloat.unpack .binary64 (UnpackedFloat.pack .binary64 _)).isNaN = false
    rw [UnpackedFloat.pack]
    dsimp only
    split
    · cases s <;> rfl
    · next hlt =>
      split
      · refine isNaN_unpack ?_
        rw [unpackExponent_packComponents]
        intro hexp
        have hnat := congrArg BitVec.toNat hexp
        rw [BitVec.toNat_ofNat] at hnat
        have htop : (-1#11).toNat = 2 ^ 11 - 1 := by decide
        omega
      · refine isNaN_unpack ?_
        rw [unpackExponent_packComponents]
        decide

theorem isNaN_neg {u : UnpackedFloat} (h : u.isNaN = false) : u.neg.isNaN = false := by
  cases u with
  | notANumber => cases h
  | infinity s => rfl
  | zero s => rfl
  | finite s m e hm => rfl

/-- **A literal always has a value.** -/
theorem isNaN_toFloat (d : Decimal) : d.toFloat.isNaN = false := by
  have hmagnitude := isNaN_unpack_pack (isNaN_ofScientific d.digits d.exponent)
  rw [toFloat]
  split
  · exact isNaN_unpack_pack (isNaN_neg hmagnitude)
  · exact hmagnitude

/-- A number is finite or infinite. -/
theorem isFinite_iff {x : Float} (h : x.isNaN = false) : x.isFinite = true ↔ x.isInf = false := by
  have h : x.toModel.unpack.isNaN = false := h
  show x.toModel.unpack.isFinite = true ↔ x.toModel.unpack.isInf = false
  cases hu : x.toModel.unpack with
  | notANumber => rw [hu] at h; cases h
  | infinity s => exact iff_of_false nofun nofun
  | zero s => exact iff_of_true rfl rfl
  | finite s m e hm => exact iff_of_true rfl rfl

end Decimal

/-! ### What is written in a text -/

namespace Reader

/-- The head of a form that has a short notation can be written. -/
theorem isName_headOf (sugar : Sugar) : isName (headOf sugar) = true := by
  cases sugar <;> decide

/-- A name that is no literal is the name of a symbol. -/
theorem Named.isName {cs : List Char} {p e : Nat} {name : String} (h : Named cs p e name)
    (hother : name ∉ ["true", "false", "nil"]) : isName name = true := by
  obtain ⟨hspan, hchars, -, c, hhead, hmark, hdigit, hminus, -⟩ := h
  obtain ⟨ds, hname⟩ := List.head?_eq_some_iff.mp hhead
  have hnext : c = '-' → nextIs Decimal.isDigit ds = false := by
    intro hc
    have hdrop := drop_succ_of_drop (hname ▸ hspan.drop)
    have hminus := hminus hc
    rw [isDigit_eq, ← List.head?_drop, hdrop] at hminus
    cases ds with
    | nil => rfl
    | cons d ds => exact hminus
  rw [isNameChar_eq, hname] at hchars
  rw [isDigit_eq] at hdigit
  rw [MiniLisp.isName, hname]
  simp only [List.all_eq_true.mpr hchars, hdigit, Bool.and_eq_true, Bool.not_eq_true',
    Bool.and_eq_false_imp, decide_eq_true_eq, List.contains_eq_mem, decide_eq_false_iff_not]
  exact ⟨⟨⟨⟨trivial, hother⟩, hmark⟩, trivial⟩, hnext⟩

theorem isNaN_literalValue (literal : List Char) : (literalValue literal).isNaN = false := by
  have h := Decimal.isNaN_toFloat ⟨literal.head? = some '-',
    Nat.ofDigitChars 10 (literal.filter Char.isDigit) 0,
    -((literal.dropWhile (· ≠ '.')).length - 1 : Nat)⟩
  rw [Decimal.toFloat] at h
  simp only [decide_eq_true_eq] at h
  exact h

/-- What is written in a text is built from notation. -/
theorem Stands.textual {cs : List Char} {p e : Nat} {v : Value} (h : Stands cs p e v) :
    v.Textual fun x => x.isNaN = false := by
  induction h with
  | list _ _ _ _ ih => exact .list (List.forall_mem_map.mpr ih)
  | vector _ _ _ _ ih => exact .vector (List.forall_mem_map.mpr ih)
  | @map _ _ xs _ _ _ _ heven ih =>
    have hall := List.forall_mem_map.mpr ih
    have hlength : (xs.map Noted.value).length % 2 = 0 := by rw [List.length_map, heven]
    have hmem := Value.mem_of_pairs (pairs_of_even hlength)
    exact .map (fun e he => hall _ (hmem e he).1) (fun e he => hall _ (hmem e he).2)
  | @sugar _ _ _ sugar _ _ _ _ _ ih =>
    exact .list (List.forall_mem_cons.mpr
      ⟨.symbol (isName_headOf sugar), List.forall_mem_singleton.mpr ih⟩)
  | withMeta _ _ _ _ ihdata ih =>
    refine .list (List.forall_mem_cons.mpr ⟨.symbol (isName_headOf .withMeta), ?_⟩)
    exact List.forall_mem_cons.mpr ⟨ih, List.forall_mem_singleton.mpr ihdata⟩
  | number _ _ => exact .number (isNaN_literalValue _)
  | keyword _ hchars _ => exact .keyword (isNameChar_eq ▸ hchars)
  | string _ _ _ => exact .string
  | symbol hname hother => exact .symbol (hname.isName hother)
  | bool _ => exact .bool
  | nil _ => exact .nil

end Reader

/-! ### Reading what was printed -/

namespace Value

/-- No number in the value is infinite, at any depth. -/
def Bounded (v : Value) : Prop :=
  v.Everywhere fun w => ∀ x, w.number? = some x → x.isInf = false

theorem Textual.readable {v : Value} (h : v.Textual fun x => x.isNaN = false) (hv : v.Bounded) :
    v.Readable := by
  induction h with
  | list _ ih => exact .list fun w hw => ih w hw (hv.part hw)
  | vector _ ih => exact .vector fun w hw => ih w hw (hv.part hw)
  | map _ _ ihk ihv =>
    have hpart := fun w hw => hv.part (Value.mem_parts_map.mpr hw) (w := w)
    exact .map (fun e he => ihk e he (hpart _ ⟨e, he, Or.inl rfl⟩))
      (fun e he => ihv e he (hpart _ ⟨e, he, Or.inr rfl⟩))
  | number hx => exact .number ((Decimal.isFinite_iff hx).mpr (hv.self _ rfl))
  | symbol hname => exact .symbol hname
  | keyword hchars => exact .keyword hchars
  | string => exact .string
  | bool => exact .bool
  | nil => exact .nil

theorem bounded_of_number? {v : Value} (hnumber : v.number? = none)
    (hparts : ∀ w ∈ v.parts, w.Bounded) : v.Bounded :=
  .intro (fun x hx => by rw [hnumber] at hx; cases hx) hparts

/-- What equal rows of values found again say of each value. -/
theorem exists_equal_reread {vs : List Value} {v : Value} : ∀ {l : Location},
    equalElements (rereadElements l vs) vs = true → v ∈ vs → ∃ l', (v.reread l').equal v = true := by
  induction vs with
  | nil => intro l _ hv; cases hv
  | cons w vs ih =>
    intro l h hv
    rw [rereadElements, equalElements, Bool.and_eq_true] at h
    rcases List.mem_cons.mp hv with rfl | hv
    · exact ⟨l, h.1⟩
    · exact ih h.2 hv

theorem exists_equal_rereadEntries {es : List (Value × Value)} {e : Value × Value} :
    ∀ {l : Location}, equalEntries (rereadEntries l es) es = true → e ∈ es →
      ∃ l' l'', (e.1.reread l').equal e.1 = true ∧ (e.2.reread l'').equal e.2 = true := by
  induction es with
  | nil => intro l _ he; cases he
  | cons d es ih =>
    obtain ⟨k, v⟩ := d
    intro l h he
    rw [rereadEntries, equalEntries, Bool.and_eq_true, Bool.and_eq_true] at h
    rcases List.mem_cons.mp he with rfl | he
    · exact ⟨_, _, h.1.1, h.1.2⟩
    · exact ih h.2 he

/-- An infinite number is printed as a name, and a name is no number. -/
theorem Textual.bounded {v : Value} (h : v.Textual fun x => x.isNaN = false) :
    ∀ {l : Location}, (v.reread l).equal v = true → v.Bounded := by
  induction h with
  | list _ ih =>
    intro l hequal
    refine bounded_of_number? rfl fun w hw => ?_
    obtain ⟨l', hw'⟩ := exists_equal_reread hequal hw
    exact ih w hw hw'
  | vector _ ih =>
    intro l hequal
    refine bounded_of_number? rfl fun w hw => ?_
    obtain ⟨l', hw'⟩ := exists_equal_reread hequal hw
    exact ih w hw hw'
  | map _ _ ihk ihv =>
    intro l hequal
    refine bounded_of_number? rfl fun w hw => ?_
    obtain ⟨e, he, hw⟩ := mem_parts_map.mp hw
    obtain ⟨l', l'', hk, hv⟩ := exists_equal_rereadEntries hequal he
    rcases hw with rfl | rfl
    · exact ihk e he hk
    · exact ihv e he hv
  | @number l₀ x hx =>
    intro l hequal
    refine .intro (fun y hy => ?_) (by simp [parts])
    cases hy
    rw [← Decimal.isFinite_iff hx]
    by_contra hfinite
    rw [reread, if_neg hfinite] at hequal
    cases hequal
  | symbol _ => exact fun _ => bounded_of_number? rfl (by simp [parts])
  | keyword _ => exact fun _ => bounded_of_number? rfl (by simp [parts])
  | string => exact fun _ => bounded_of_number? rfl (by simp [parts])
  | bool => exact fun _ => bounded_of_number? rfl (by simp [parts])
  | nil => exact fun _ => bounded_of_number? rfl (by simp [parts])

/-- **Reading a printed value gives it back if none of its numbers is infinite, and only then.** -/
theorem equal_reread_iff {v : Value} (h : v.Textual fun x => x.isNaN = false) (l : Location) :
    (v.reread l).equal v = true ↔ v.Bounded :=
  ⟨h.bounded, fun hv => equal_reread (h.readable hv) l⟩

end Value

/-- Printing a value that is built from notation gives a text that can be read. -/
theorem readFirst_text {number : Float → Prop} {v : Value} (h : v.Textual number) :
    readFirst v.text = .ok (v.reread .start) := by
  have hhalt := Reader.halt_spell h [] .start [] rfl
  rw [List.append_nil] at hhalt
  rw [readFirst_eq_halt, Value.text, String.toList_ofList, Reader.State.initial, hhalt]
  rfl

/-! ### Reading in turn -/

/-- A call answers nothing if nothing but separators and comments is left, and only then. -/
theorem next_eq_nop_iff (c : Cursor) :
    (∃ l, c.next.1 = .ok (.nop l "")) ↔ Reader.Insignificant c.rest := by
  rw [Reader.fst_next, ← Reader.halt_eq_ended_iff c.location]
  cases hhalt : Reader.State.initial.halt c.location c.rest with
  | datum v c' =>
    have hv := Reader.written_halt (by simp [Reader.State.initial]) hhalt
    refine iff_of_false ?_ (by simp)
    rintro ⟨l, h⟩
    cases h
    exact hv.self.2 rfl
  | failed e c' => exact iff_of_false (by rintro ⟨l, h⟩; cases h) (by simp)
  | ended s l =>
    rw [Reader.Halt.answer]
    cases hend : s.atEnd? with
    | none => exact iff_of_true ⟨l, rfl⟩ ⟨s, l, rfl, hend⟩
    | some e =>
      refine iff_of_false (by rintro ⟨l, h⟩; cases h) ?_
      rintro ⟨s', l', h, hnone⟩
      cases h
      rw [hend] at hnone
      cases hnone

/-- **What reading can give, and when it can be read again.**  After any number of calls, a call that
does not fail answers nothing, because nothing is left, or it gives a value that is built from
notation.  That value can be printed and read again, and the result is equal to it if no number in it
is infinite, and only then. -/
theorem next_image (text : String) (n : Nat) :
    let c := (Cursor.ofText text).advance n
    ((∃ l, c.next.1 = .ok (.nop l "")) ↔ Reader.Insignificant c.rest) ∧
    match c.next.1 with
    | .error _ => True
    | .ok v => (∃ l, v = .nop l "") ∨
        v.Textual (fun x => x.isNaN = false) ∧
          ∃ v', readFirst v.text = .ok v' ∧ ((v' == v) = true ↔ v.Bounded) := by
  intro c
  refine ⟨next_eq_nop_iff c, ?_⟩
  obtain ⟨p, hp⟩ := Cursor.at_advance text n
  obtain ⟨e, -, hanswer⟩ := Reader.answered_next hp
  cases hnext : c.next.1 with
  | error error => trivial
  | ok v =>
    rw [hnext] at hanswer
    rcases hanswer with ⟨hv, -⟩ | ⟨q, -, hv⟩
    · exact Or.inl ⟨_, hv⟩
    · have htextual := hv.textual
      exact Or.inr ⟨htextual, _, readFirst_text htextual, Value.equal_reread_iff htextual _⟩

end MiniLisp
