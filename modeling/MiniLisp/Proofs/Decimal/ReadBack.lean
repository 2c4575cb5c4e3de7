import MiniLisp.Decimal.Layout
import MiniLisp.Proofs.Decimal.Double
import MiniLisp.Proofs.Decimal.Literal
import Mathlib

/-!
# Written numbers read back

A double is written with the fewest digits that read back as it.  `Decimal.shortest` tests what it
writes, so only its last resort needs an argument: the exact expansion of a double reads back,
because rounding leaves a number alone that has a canonical form.  From there the positional text is
followed digit by digit.

* `roundWithAccuracy_mul`: a number with a canonical form is rounded to it.
* `toFloat_shortest`: the shortest decimal of a double has that double as its value.
* `exists_literal_plain`: **the text of a finite double is a literal whose value is that double**.
-/

namespace MiniLisp.Decimal

open Float.Model Float.Model.UnpackedFloat

/-! ### Logarithms -/

theorem log2_le_of_lt {m : Nat} (hm : 0 < m) (h : m < 2 ^ 53) : m.log2 ≤ 52 := by
  have := (Nat.log2_lt (by omega)).mpr h
  omega

theorem log2_mul_two_pow {m : Nat} (h : 0 < m) (n : Nat) : (m * 2 ^ n).log2 = m.log2 + n := by
  induction n with
  | zero => simp
  | succ n ih =>
    rw [show m * 2 ^ (n + 1) = 2 * (m * 2 ^ n) by ring, Nat.log2_two_mul, ih]
    · omega
    · exact Nat.mul_ne_zero (by omega) (by simp)

/-- The logarithm of a product, up to one. -/
theorem log2_mul_le {a b : Nat} (ha : 0 < a) (hb : 0 < b) :
    (a * b).log2 ≤ a.log2 + b.log2 + 1 := by
  have hlt : a * b < 2 ^ (a.log2 + 1) * 2 ^ (b.log2 + 1) :=
    Nat.mul_lt_mul'' Nat.lt_log2_self Nat.lt_log2_self
  rw [← Nat.pow_add] at hlt
  have := (Nat.log2_lt (Nat.mul_ne_zero (by omega) (by omega))).mpr hlt
  omega

/-! ### Rounding what needs no rounding -/

theorem targetExponent_binary64 (t : Int) :
    Format.binary64.targetExponent t = max (t - 53) (-1074) := rfl

theorem mantissaBits_binary64 : Format.binary64.mantissaBits = 53 := rfl

theorem Canonical.targetExponent_eq {m : Nat} {e : Int} (h : Canonical m e) :
    Format.binary64.targetExponent (totalExponent m e) = e := by
  have hlog := log2_le_of_lt h.pos h.lt
  have hge := h.ge
  rw [targetExponent_binary64, totalExponent]
  rcases h.full with hf | hf
  · rw [log2_eq_of_full h.lt hf]
    omega
  · omega

theorem repeat_shiftRightOne (m n : Nat) :
    Nat.repeat ExtendedMantissa.shiftRightOne n ⟨m * 2 ^ n, false, false⟩ = ⟨m, false, false⟩ := by
  induction n generalizing m with
  | zero => simp [Nat.repeat]
  | succ n ih =>
    have h : m * 2 ^ (n + 1) = m * 2 * 2 ^ n := by ring
    rw [Nat.repeat, h, ih]
    simp [ExtendedMantissa.shiftRightOne]

theorem shiftToTargetExponent_mul {m : Nat} {e : Int} (h : Canonical m e) (n : Nat) :
    shiftToTargetExponent .binary64 (m * 2 ^ n) (e - n) .exact = (⟨m, false, false⟩, e) := by
  have htotal : totalExponent (m * 2 ^ n) (e - n) = totalExponent m e := by
    rw [totalExponent, totalExponent, log2_mul_two_pow h.pos]
    push_cast
    ring
  have hshift : (e - (e - n)).toNat = n := by omega
  rw [shiftToTargetExponent, htotal, h.targetExponent_eq, shiftToExponent, hshift]
  show (Nat.repeat _ n _, _) = _
  rw [ExtendedMantissa.ofMantissaAndAccuracy, repeat_shiftRightOne]
  simp

/-- **A number with a canonical form is rounded to it.** -/
theorem roundWithAccuracy_mul {m : Nat} {e : Int} (h : Canonical m e) (s : Sign) (n : Nat) :
    roundWithAccuracy .binary64 s (m * 2 ^ n) (e - n) .exact = .finite s m e h.pos := by
  have h0 := shiftToTargetExponent_mul h 0
  rw [Nat.pow_zero, Nat.mul_one, Int.natCast_zero, Int.sub_zero] at h0
  rw [roundWithAccuracy, shiftToTargetExponent_mul h n]
  simp only [ExtendedMantissa.roundedMantissa, ExtendedMantissa.accuracy,
    Accuracy.roundToNearestEven, h0]
  rw [dif_neg (by have := h.pos; omega)]

/-! ### Exact decimals -/

theorem ofScientific_zero_exponent {m : Nat} (hm : 0 < m) :
    UnpackedFloat.ofScientific .binary64 m 0 =
      roundWithAccuracy .binary64 .positive (m * 2 ^ 53) (-53) .exact := by
  rw [UnpackedFloat.ofScientific, dif_neg (by omega), if_neg (by decide),
    if_neg (by simp only [not_lt]; omega), if_pos (by decide)]
  simp only [UnpackedFloat.mul, mantissaBits_binary64, Nat.shiftLeft_eq, Int.toNat_zero, Nat.pow_zero,
    Nat.mul_one]
  rfl

theorem ofScientific_neg_exponent {m k : Nat} (hm : 0 < m) (hk : 0 < k) (hk' : k ≤ 1074) :
    UnpackedFloat.ofScientific .binary64 m (-(k : Int)) =
      UnpackedFloat.div .binary64 (.finite .positive m 0 hm)
        (.finite .positive (10 ^ k) 0 (Nat.pow_pos (by decide))) := by
  rw [UnpackedFloat.ofScientific, dif_neg (by omega), if_neg (by simp only [not_lt]; omega),
    if_neg (by simp only [not_lt]; omega), if_neg (by omega)]
  simp

/-- The quotient of `m * 5 ^ k` by `10 ^ k` is exact if it has a canonical form. -/
theorem divCore_exact {m k : Nat} (h : Canonical m (-(k : Int))) :
    ∃ n : Nat, divCore .binary64 (m * 5 ^ k) 0 (10 ^ k) 0 = (m * 2 ^ n, -(k : Int) - n, .exact) := by
  have h5 : 0 < 5 ^ k := Nat.pow_pos (by decide)
  have hpos : 0 < 10 ^ k := Nat.pow_pos (by decide)
  -- the exponent of the quotient is at most `-k`, so no digit of `m` is lost
  have htarget : Format.binary64.targetExponent
      (totalExponent (m * 5 ^ k) 0 - totalExponent (10 ^ k) 0) ≤ -(k : Int) := by
    have hlog := log2_le_of_lt h.pos h.lt
    have hprod := log2_mul_le h.pos h5
    have h10 : (10 ^ k).log2 = (5 ^ k).log2 + k := by
      rw [← log2_mul_two_pow h5, ← Nat.mul_pow]
    have hge := h.ge
    rw [targetExponent_binary64, totalExponent, totalExponent, h10]
    omega
  obtain ⟨n, hn⟩ := Int.le.dest htarget
  have hexp : Format.binary64.targetExponent
      (totalExponent (m * 5 ^ k) 0 - totalExponent (10 ^ k) 0) = -(k : Int) - n := by omega
  have hmin : min (0 - 0) (-(k : Int) - n) = -(k : Int) - n := by omega
  have hshift : (0 - 0 - (-(k : Int) - n)).toNat = k + n := by omega
  have hmul : (m * 5 ^ k) <<< (k + n) = m * 2 ^ n * 10 ^ k := by
    rw [Nat.shiftLeft_eq, show 10 = 5 * 2 from rfl, Nat.mul_pow, Nat.pow_add]
    ring
  refine ⟨n, ?_⟩
  rw [divCore]
  simp only [hexp, hmin, hshift, hmul, Nat.mul_div_cancel _ hpos, Nat.mul_mod_left,
    accuracyOfFraction, if_true]

theorem ofScientific_exact {m : Nat} {e : Int} (h : Canonical m e) :
    UnpackedFloat.ofScientific .binary64 (exact m e).digits (exact m e).exponent =
      .finite .positive m e h.pos := by
  cases e with
  | ofNat e =>
    have hpos : 0 < m * 2 ^ e := Nat.mul_pos h.pos (by simp)
    have hround := roundWithAccuracy_mul h .positive (e + 53)
    have hexp : Int.ofNat e - ((e + 53 : Nat) : Int) = -53 := by
      show (e : Int) - ((e + 53 : Nat) : Int) = -53
      omega
    rw [hexp, Nat.pow_add, ← Nat.mul_assoc] at hround
    rw [← hround]
    exact ofScientific_zero_exponent hpos
  | negSucc e =>
    have h' : Canonical m (-((e + 1 : Nat) : Int)) := h
    have hle := h'.ge
    have hpos : 0 < m * 5 ^ (e + 1) := Nat.mul_pos h.pos (by simp)
    obtain ⟨n, hn⟩ := divCore_exact h'
    have hdiv := ofScientific_neg_exponent hpos (by omega) (by omega : e + 1 ≤ 1074)
    rw [UnpackedFloat.div, hn] at hdiv
    exact hdiv.trans (roundWithAccuracy_mul h' .positive n)

/-! ### The shortest decimal -/

theorem toFloat_of_not_negative {d : Decimal} (h : d.negative = false) :
    d.toFloat = Float.ofModel (Float.Model.ofScientific d.digits d.exponent) := by
  rw [toFloat, h]
  rfl

theorem toFloat_exact {m : Nat} {e : Int} (h : Canonical m e) :
    (exact m e).spread.toFloat = ofForm .positive m e h := by
  have hspread : (exact m e).spread = exact m e := by
    cases e with
    | ofNat e => simp [exact, spread]
    | negSucc e => rfl
  have hneg : (exact m e).negative = false := by
    cases e <;> rfl
  rw [hspread, toFloat_of_not_negative hneg, Float.Model.ofScientific, ofScientific_exact h, ofForm]

theorem shortestAt_eq_some {x : Float} {q : Fraction} {count : Nat} {d : Decimal}
    (h : shortestAt x q count = some d) : d.negative = false ∧ readsBack x d = true := by
  rw [shortestAt] at h
  -- `below` and `above` are tested before they are taken, and neither has a sign
  split at h
  · rename_i hbelow habove
    split at h
    · cases h
      exact ⟨rfl, hbelow⟩
    · cases h
      exact ⟨by split <;> rfl, habove⟩
  · rename_i hbelow _
    cases h
    exact ⟨rfl, hbelow⟩
  · rename_i _ habove
    cases h
    exact ⟨by split <;> rfl, habove⟩
  · cases h

/-- **The shortest decimal of a double has that double as its value.** -/
theorem toFloat_shortest {m : Nat} {e : Int} (h : Canonical m e) :
    (shortest (ofForm .positive m e h) m e).negative = false ∧
      (shortest (ofForm .positive m e h) m e).spread.toFloat = ofForm .positive m e h := by
  rw [shortest]
  cases hfind : (List.range' 1 17).findSome? (shortestAt (ofForm .positive m e h) (.ofBinary m e)) with
  | none =>
    refine ⟨?_, toFloat_exact h⟩
    cases e <;> rfl
  | some d =>
    obtain ⟨count, _, hd⟩ := List.exists_of_findSome?_eq_some hfind
    obtain ⟨hneg, hback⟩ := shortestAt_eq_some hd
    exact ⟨hneg, eq_of_beq_ofForm hback⟩

/-! ### Positional texts -/

theorem isDigit_spellNat (n : Nat) : ∀ c ∈ spellNat n, isDigit c = true := by
  intro c hc
  exact Nat.isDigit_of_mem_toDigits (by decide) (by decide) hc

theorem ofDigitChars_spellNat (n : Nat) : Nat.ofDigitChars 10 (spellNat n) 0 = n :=
  Nat.ofDigitChars_ten_toDigits

theorem spellNat_ne_nil (n : Nat) : spellNat n ≠ [] :=
  Nat.toDigits_ne_nil

/-- **A positional text is a literal** of the number that it spells. -/
theorem exists_literal_positional (negative : Bool) (d : Decimal) :
    ∃ w : Literal,
      w.spell = (if negative then ['-'] else []) ++ positional d.digits d.exponent ∧
      w.value = { d.spread with negative := negative } := by
  obtain ⟨sign, digits, exponent⟩ := d
  have hdigits := isDigit_spellNat digits
  have hvalue := ofDigitChars_spellNat digits
  have hzeros : ∀ n, ∀ c ∈ List.replicate n '0', isDigit c = true := by
    intro n c hc
    rw [List.eq_of_mem_replicate hc]
    decide
  cases exponent with
  | ofNat e =>
    refine ⟨⟨negative, spellNat digits ++ List.replicate e '0', [], ?_, ?_, ?_⟩, ?_, ?_⟩
    · simp [spellNat_ne_nil]
    · intro c hc
      rcases List.mem_append.mp hc with hc | hc
      · exact hdigits c hc
      · exact hzeros e c hc
    · intro c hc
      cases hc
    · simp [Literal.spell, positional]
    · simp only [Literal.value, spread, List.append_nil, Nat.ofDigitChars_append,
        hvalue, Nat.ofDigitChars_replicate_zero, mk.injEq, true_and]
      exact ⟨Nat.mul_comm _ _, rfl⟩
  | negSucc e =>
    by_cases hlt : e + 1 < (spellNat digits).length
    · refine ⟨⟨negative, (spellNat digits).take ((spellNat digits).length - (e + 1)),
        (spellNat digits).drop ((spellNat digits).length - (e + 1)), ?_, ?_, ?_⟩, ?_, ?_⟩
      · intro hnil
        have hlen := congrArg List.length hnil
        rw [List.length_take, List.length_nil] at hlen
        omega
      · exact fun c hc => hdigits c (List.mem_of_mem_take hc)
      · exact fun c hc => hdigits c (List.mem_of_mem_drop hc)
      · have hplaces : ((spellNat digits).drop ((spellNat digits).length - (e + 1))).isEmpty =
            false := by
          rw [List.isEmpty_eq_false_iff, ne_eq, List.drop_eq_nil_iff]
          omega
        simp [Literal.spell, positional, hlt, hplaces]
      · have hlen : (spellNat digits).length - ((spellNat digits).length - (e + 1)) = e + 1 := by
          omega
        rw [Literal.value, List.take_append_drop, hvalue, List.length_drop, hlen]
        rfl
    · refine ⟨⟨negative, ['0'],
        List.replicate (e + 1 - (spellNat digits).length) '0' ++ spellNat digits, ?_, ?_, ?_⟩, ?_, ?_⟩
      · simp
      · intro c hc
        rw [List.mem_singleton.mp hc]
        decide
      · intro c hc
        rcases List.mem_append.mp hc with hc | hc
        · exact hzeros _ c hc
        · exact hdigits c hc
      · simp [Literal.spell, positional, hlt, spellNat_ne_nil]
      · have hlen : (List.replicate (e + 1 - (spellNat digits).length) '0' ++
            spellNat digits).length = e + 1 := by
          rw [List.length_append, List.length_replicate]
          omega
        have hvalue' : Nat.ofDigitChars 10 (['0'] ++
            (List.replicate (e + 1 - (spellNat digits).length) '0' ++ spellNat digits)) 0 =
              digits := by
          rw [Nat.ofDigitChars_append, Nat.ofDigitChars_append,
            Nat.ofDigitChars_replicate_zero]
          exact hvalue
        rw [Literal.value, hvalue', hlen]
        rfl

/-! ### The text of a double -/

/-- A finite double is a zero or has a canonical form. -/
theorem finite_cases {x : Float} (hx : x.isFinite = true) :
    (∃ s, x.toModel.unpack = .zero s) ∨ ∃ s m e h, x.toModel.unpack = .finite s m e h := by
  have hx : x.toModel.unpack.isFinite = true := hx
  cases hu : x.toModel.unpack with
  | notANumber => rw [hu] at hx; cases hx
  | infinity s => rw [hu] at hx; cases hx
  | zero s => exact Or.inl ⟨s, rfl⟩
  | finite s m e h => exact Or.inr ⟨s, m, e, h, rfl⟩

theorem eq_zero_of_unpack {x : Float} {s : Sign} (hx : x.toModel.unpack = .zero s) :
    x = .ofModel (.pack (.zero s)) := by
  rw [← hx, pack_unpack]

/-- A finite double is equal to itself. -/
theorem beq_self {x : Float} (hx : x.isFinite = true) : (x == x) = true := by
  rw [beq_self_iff]
  show x.toModel.unpack.isNaN = false
  rcases finite_cases hx with ⟨s, hs⟩ | ⟨s, m, e, h, hs⟩
  · rw [hs]
    rfl
  · rw [hs]
    rfl

/-- The value of a decimal with a sign, given the value without. -/
theorem toFloat_withSign {d : Decimal} (hneg : d.negative = false) (negative : Bool) :
    ({ d with negative := negative } : Decimal).toFloat =
      if negative then -d.toFloat else d.toFloat := by
  rw [toFloat_of_not_negative hneg]
  rfl

/-- **The text of a finite double is a literal whose value is that double.** -/
theorem exists_literal_plain {x : Float} (hx : x.isFinite = true) :
    ∃ w : Literal, w.spell = plain x ∧ w.value.toFloat = x := by
  rcases finite_cases hx with ⟨s, hs⟩ | ⟨s, m, e, hm, hs⟩
  · refine ⟨⟨s == .negative, ['0'], [], by simp, List.forall_mem_singleton.mpr rfl, by simp⟩, ?_, ?_⟩
    · rw [plain, spellFloat, hs]
      cases s <;> rfl
    · rw [eq_zero_of_unpack hs]
      cases s <;> rfl
  · obtain ⟨h, rfl⟩ := exists_eq_ofForm hs
    obtain ⟨hneg, hval⟩ := toFloat_shortest h
    have hspread : (shortest (ofForm .positive m e h) m e).spread.negative = false := by
      rw [spread]
      split <;> exact hneg
    obtain ⟨w, hspell, hvalue⟩ := exists_literal_positional (s == .negative)
      (shortest (ofForm .positive m e h) m e)
    refine ⟨w, ?_, ?_⟩
    · rw [hspell, plain, spellFloat, hs, abs_ofForm]
      cases s <;> rfl
    · rw [hvalue, toFloat_withSign hspread, hval]
      cases s with
      | positive => rfl
      | negative => exact neg_ofForm h

end MiniLisp.Decimal
