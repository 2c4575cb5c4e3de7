import MiniLisp.Decimal.Basic
import Mathlib

/-!
# The forms of a double

A double other than zero has one canonical form: a sign, a mantissa of at most 53 bits and an
exponent, where a mantissa with fewer bits stands only before the least exponent.  The logic knows a
double by its bits, and its operations unpack the bits to such a form and pack the result.  This
file says that the two are inverse to each other, so that a statement about forms becomes one about
doubles.

* `pack_unpack`: a double is what its parts are packed to.
* `unpack_pack_finite`: a canonical form comes back from its packing.
* `beq_iff`: two doubles are equal if they are the same number, the zeros counting as one.
* `eq_of_beq_ofForm`: a number equal to a double other than zero is that double.
-/

namespace MiniLisp.Decimal

open Float.Model Float.Model.UnpackedFloat

/-- The pairs of a mantissa and an exponent by which doubles other than zero are written. -/
structure Canonical (mantissa : Nat) (exponent : Int) : Prop where
  pos : 0 < mantissa
  lt : mantissa < 2 ^ 53
  ge : -1074 ≤ exponent
  le : exponent ≤ 971
  full : 2 ^ 52 ≤ mantissa ∨ exponent = -1074

theorem log2_eq_of_full {m : Nat} (h : m < 2 ^ 53) (h' : 2 ^ 52 ≤ m) : m.log2 = 52 := by
  rw [Nat.log2_eq_iff (by omega)]
  exact ⟨h', h⟩

/-! ### The three parts of a double -/

theorem unpackSign_packComponents {spec : Format} {s : Sign} {e : BitVec spec.exponentBits}
    {m : BitVec spec.mantissaBitsWithoutImplicit} :
    unpackSign (packComponents spec s e m) = s.toBitVec := by
  ext i hi
  have hi : i = 0 := by omega
  subst hi
  simp [unpackSign, packComponents, BitVec.getLsbD_append, BitVec.getElem_append]

theorem ofBitVec_toBitVec (s : Sign) : Sign.ofBitVec s.toBitVec = s := by
  cases s <;> rfl

theorem toBitVec_ofBitVec (b : BitVec 1) : (Sign.ofBitVec b).toBitVec = b := by
  revert b
  decide

theorem toNat_unpackMantissa (b : BitVec Format.binary64.numBits) :
    (unpackMantissa b).toNat = b.toNat % 2 ^ 52 := by
  simp [unpackMantissa]

theorem toNat_unpackExponent (b : BitVec Format.binary64.numBits) :
    (unpackExponent b).toNat = b.toNat / 2 ^ 52 % 2 ^ 11 := by
  simp [unpackExponent, Nat.shiftRight_eq_div_pow]

theorem toNat_unpackSign (b : BitVec Format.binary64.numBits) :
    (unpackSign b).toNat = b.toNat / 2 ^ 63 % 2 := by
  simp [unpackSign, Nat.shiftRight_eq_div_pow]

/-- A double is determined by its sign, its exponent and its mantissa. -/
theorem eq_of_parts {a b : BitVec Format.binary64.numBits} (hs : unpackSign a = unpackSign b)
    (he : unpackExponent a = unpackExponent b) (hm : unpackMantissa a = unpackMantissa b) :
    a = b := by
  have hs := congrArg BitVec.toNat hs
  have he := congrArg BitVec.toNat he
  have hm := congrArg BitVec.toNat hm
  rw [toNat_unpackSign, toNat_unpackSign] at hs
  rw [toNat_unpackExponent, toNat_unpackExponent] at he
  rw [toNat_unpackMantissa, toNat_unpackMantissa] at hm
  have ha : a.toNat < 2 ^ 64 := a.isLt
  have hb : b.toNat < 2 ^ 64 := b.isLt
  exact BitVec.eq_of_toNat_eq (by omega)

theorem toNat_one_append (b : BitVec 52) : (1#1 ++ b).toNat = 2 ^ 52 + b.toNat := by
  have hb := b.isLt
  rw [BitVec.toNat_append, ← Nat.shiftLeft_add_eq_or_of_lt hb, Nat.shiftLeft_eq]
  simp

/-- What packing does to a canonical form: the exponent of a number without a leading one is zero. -/
theorem pack_finite {m : Nat} {e : Int} (h : Canonical m e) (s : Sign) :
    UnpackedFloat.pack .binary64 (.finite s m e h.pos) =
      packComponents .binary64 s
        (if 2 ^ 52 ≤ m then BitVec.ofNat 11 (e + 1075).toNat else 0#11) (BitVec.ofNat 52 m) := by
  have hge := h.ge
  have hle := h.le
  have hbias : (e + (Format.binary64.exponentBias : Nat) + (52 : Nat)).toNat = (e + 1075).toNat := by
    rw [show Format.binary64.exponentBias = 1023 from rfl]
    omega
  rw [UnpackedFloat.pack]
  simp only [hbias]
  rw [if_neg (by omega), show Format.binary64.mantissaBits = 53 from rfl]
  by_cases hfull : 2 ^ 52 ≤ m
  · rw [if_pos hfull, if_pos (by rw [log2_eq_of_full h.lt hfull])]
  · rw [if_neg hfull, if_neg]
    intro hlog
    have := Nat.log2_self_le (n := m) (by have := h.pos; omega)
    rw [show m.log2 = 52 by omega] at this
    omega

/-- The parts of a double that is neither zero nor infinite. -/
theorem unpack_finite {b : BitVec Format.binary64.numBits} {s : Sign} {m : Nat} {e : Int}
    {hm : 0 < m} (h : UnpackedFloat.unpack .binary64 b = .finite s m e hm) :
    Canonical m e ∧ s = Sign.ofBitVec (unpackSign b) ∧
      unpackMantissa b = BitVec.ofNat 52 m ∧
      unpackExponent b = if 2 ^ 52 ≤ m then BitVec.ofNat 11 (e + 1075).toNat else 0#11 := by
  have hM : (unpackMantissa b).toNat < 2 ^ 52 := (unpackMantissa b).isLt
  have hE : (unpackExponent b).toNat < 2 ^ 11 := (unpackExponent b).isLt
  have hbias : Format.binary64.exponentBias = 1023 := rfl
  rw [UnpackedFloat.unpack] at h
  split at h
  · split at h <;> cases h
  · rename_i htop
    have htop : (unpackExponent b).toNat ≠ 2047 := by
      intro he
      exact htop (BitVec.eq_of_toNat_eq he)
    split at h
    · rename_i hzero
      split at h
      · cases h
      · injection h with h1 h2 h3
        subst h1 h2 h3
        rw [hzero, hbias]
        refine ⟨⟨hm, by omega, by simp, by simp, Or.inr (by simp)⟩, rfl, by simp, ?_⟩
        rw [if_neg (by omega)]
    · rename_i hzero
      have hzero : (unpackExponent b).toNat ≠ 0 := by
        intro he
        exact hzero (BitVec.eq_of_toNat_eq he)
      injection h with h1 h2 h3
      rw [toNat_one_append] at h2
      rw [hbias, show Format.binary64.mantissaBitsWithoutImplicit = 52 from rfl] at h3
      subst h1 h2 h3
      refine ⟨⟨by omega, by omega, by omega, by omega, Or.inl (by omega)⟩, rfl, ?_, ?_⟩
      · refine BitVec.eq_of_toNat_eq ?_
        show (unpackMantissa b).toNat = (2 ^ 52 + (unpackMantissa b).toNat) % 2 ^ 52
        omega
      · rw [if_pos (by omega)]
        refine BitVec.eq_of_toNat_eq ?_
        show (unpackExponent b).toNat = (_ + 1075 : Int).toNat % 2 ^ 11
        omega

theorem packComponents_parts {b : BitVec Format.binary64.numBits} {e : BitVec 11} {m : BitVec 52}
    (he : unpackExponent b = e) (hm : unpackMantissa b = m) :
    packComponents .binary64 (Sign.ofBitVec (unpackSign b)) e m = b := by
  refine eq_of_parts ?_ ?_ ?_
  · rw [unpackSign_packComponents, toBitVec_ofBitVec]
  · rw [unpackExponent_packComponents, he]
  · rw [unpackMantissa_packComponents, hm]

/-- **A double is what its parts are packed to.** -/
theorem pack_unpack (f : Float.Model) : Float.Model.pack f.unpack = f := by
  obtain ⟨bits, hv⟩ := f
  suffices h : UnpackedFloat.pack .binary64 (UnpackedFloat.unpack .binary64 bits.toBitVec) =
      bits.toBitVec by
    simp only [Float.Model.pack, Float.Model.unpack, h]
  cases hu : UnpackedFloat.unpack .binary64 bits.toBitVec with
  | finite s m e hm =>
    obtain ⟨hc, hs, hmant, hexp⟩ := unpack_finite hu
    rw [pack_finite hc, hs]
    exact packComponents_parts hexp hmant
  | notANumber =>
    rw [UnpackedFloat.unpack] at hu
    split at hu
    · rename_i hexp
      split at hu
      · cases hu
      · rename_i hmant
        exact (hv.eq_packedNaN hexp hmant).symm
    · split at hu
      · split at hu <;> cases hu
      · cases hu
  | infinity s =>
    rw [UnpackedFloat.unpack] at hu
    split at hu
    · rename_i hexp
      split at hu
      · rename_i hmant
        cases hu
        exact packComponents_parts hexp hmant
      · cases hu
    · split at hu
      · split at hu <;> cases hu
      · cases hu
  | zero s =>
    rw [UnpackedFloat.unpack] at hu
    split at hu
    · split at hu <;> cases hu
    · split at hu
      · rename_i hexp
        split at hu
        · rename_i hmant
          cases hu
          exact packComponents_parts hexp hmant
        · cases hu
      · cases hu

/-- **A canonical form comes back from its packing.** -/
theorem unpack_pack_finite {m : Nat} {e : Int} (h : Canonical m e) (s : Sign) :
    (Float.Model.pack (.finite s m e h.pos)).unpack = .finite s m e h.pos := by
  have hge := h.ge
  have hle := h.le
  have hlt := h.lt
  have hpos := h.pos
  have hbias : Format.binary64.exponentBias = 1023 := rfl
  show UnpackedFloat.unpack .binary64 (UnpackedFloat.pack .binary64 _) = _
  rw [pack_finite h, UnpackedFloat.unpack]
  simp only [unpackMantissa_packComponents, unpackExponent_packComponents,
    unpackSign_packComponents, ofBitVec_toBitVec, hbias]
  by_cases hfull : 2 ^ 52 ≤ m
  · have hexp : (BitVec.ofNat 11 (e + 1075).toNat).toNat = (e + 1075).toNat := by
      rw [BitVec.toNat_ofNat]
      omega
    have htop : BitVec.ofNat 11 (e + 1075).toNat ≠ -1#11 := by
      intro he
      have : (e + 1075).toNat = 2047 := hexp.symm.trans (congrArg BitVec.toNat he)
      omega
    have hzero : BitVec.ofNat 11 (e + 1075).toNat ≠ 0#11 := by
      intro he
      have : (e + 1075).toNat = 0 := hexp.symm.trans (congrArg BitVec.toNat he)
      omega
    have hmant : (1#1 ++ BitVec.ofNat 52 m).toNat = m := by
      rw [toNat_one_append, BitVec.toNat_ofNat]
      omega
    simp only [if_pos hfull, if_neg htop, if_neg hzero, hmant, hexp]
    congr 1
    omega
  · have hmant : (BitVec.ofNat 52 m).toNat = m := by
      rw [BitVec.toNat_ofNat]
      omega
    have hzero : BitVec.ofNat 52 m ≠ 0#52 := by
      intro he
      have : m = 0 := hmant.symm.trans (congrArg BitVec.toNat he)
      omega
    have he : e = -1074 := h.full.resolve_left hfull
    subst he
    simp only [if_neg hfull, dif_neg hzero, hmant]
    rfl

/-! ### Signs and equality -/

/-- The double of a canonical form. -/
def ofForm (s : Sign) (m : Nat) (e : Int) (h : Canonical m e) : Float :=
  .ofModel (.pack (.finite s m e h.pos))

/-- A double with a form is the double of that form. -/
theorem exists_eq_ofForm {x : Float} {s : Sign} {m : Nat} {e : Int} {hm : 0 < m}
    (hx : x.toModel.unpack = .finite s m e hm) : ∃ h : Canonical m e, x = ofForm s m e h := by
  have h := (unpack_finite hx).1
  refine ⟨h, ?_⟩
  rw [ofForm, ← hx, pack_unpack]

theorem abs_ofForm {s : Sign} {m : Nat} {e : Int} (h : Canonical m e) :
    (ofForm s m e h).abs = ofForm .positive m e h := by
  show Float.ofModel (.pack (Float.Model.pack (.finite s m e h.pos)).unpack.abs) = _
  rw [unpack_pack_finite h]
  rfl

theorem neg_ofForm {m : Nat} {e : Int} (h : Canonical m e) :
    -ofForm .positive m e h = ofForm .negative m e h := by
  show Float.ofModel (.pack (Float.Model.pack (.finite .positive m e h.pos)).unpack.neg) = _
  rw [unpack_pack_finite h]
  rfl

/-! ### Equal doubles -/

/-- What a double is compared by: the two zeros are one. -/
def oneZero : UnpackedFloat → UnpackedFloat
  | .zero _ => .zero .positive
  | u => u

/-- Two doubles are compared as equal if they are the same but for the sign of a zero, and if they are
numbers. -/
theorem compare_eq_iff {a b : UnpackedFloat} :
    a.compare b = some .eq ↔ a.isNaN = false ∧ oneZero a = oneZero b := by
  cases a with
  | notANumber => exact iff_of_false nofun nofun
  | infinity s =>
    cases b with
    | infinity t =>
      cases s <;> cases t <;>
        simp [UnpackedFloat.compare, oneZero, UnpackedFloat.isNaN] <;> decide
    | _ => cases s <;> simp [UnpackedFloat.compare, oneZero]
  | zero s =>
    cases b with
    | zero t => simp [UnpackedFloat.compare, oneZero, UnpackedFloat.isNaN]
    | finite t m e hm => cases t <;> simp [UnpackedFloat.compare, oneZero]
    | infinity t => cases t <;> simp [UnpackedFloat.compare, oneZero]
    | notANumber => simp [UnpackedFloat.compare, oneZero]
  | finite s m e hm =>
    cases b with
    | finite t m' e' hm' =>
      cases s <;> cases t <;>
        simp [UnpackedFloat.compare, oneZero, UnpackedFloat.isNaN, Ordering.then_eq_eq, and_comm]
    | zero t => cases s <;> simp [UnpackedFloat.compare, oneZero]
    | infinity t => cases t <;> simp [UnpackedFloat.compare, oneZero]
    | notANumber => simp [UnpackedFloat.compare, oneZero]

theorem isNaN_oneZero (u : UnpackedFloat) : (oneZero u).isNaN = u.isNaN := by
  cases u <;> rfl

/-- **When two doubles are equal.** -/
theorem beq_iff {x y : Float} : (x == y) = true ↔
    x.isNaN = false ∧ oneZero x.toModel.unpack = oneZero y.toModel.unpack := by
  show (x.toModel.unpack.compare y.toModel.unpack == some .eq) = true ↔ _
  rw [beq_iff_eq, compare_eq_iff]
  rfl

theorem beq_self_iff {x : Float} : (x == x) = true ↔ x.isNaN = false := by
  rw [beq_iff]
  exact and_iff_left rfl

/-- Equality of doubles is symmetric and transitive. -/
instance : PartialEquivBEq Float where
  symm {x y} h := by
    obtain ⟨hx, hxy⟩ := beq_iff.mp h
    have hy : (oneZero y.toModel.unpack).isNaN = false := by
      rw [← hxy, isNaN_oneZero]
      exact hx
    rw [isNaN_oneZero] at hy
    exact beq_iff.mpr ⟨hy, hxy.symm⟩
  trans {x y z} h h' := by
    obtain ⟨hx, hxy⟩ := beq_iff.mp h
    obtain ⟨-, hyz⟩ := beq_iff.mp h'
    exact beq_iff.mpr ⟨hx, hxy.trans hyz⟩

theorem eq_finite_of_compare {a : UnpackedFloat} {m : Nat} {e : Int} {hm : 0 < m}
    (h : a.compare (.finite .positive m e hm) = some .eq) : a = .finite .positive m e hm := by
  obtain ⟨-, h⟩ := compare_eq_iff.mp h
  cases a with
  | zero s => cases h
  | _ => exact h

/-- **A number equal to a double other than zero is that double.** -/
theorem eq_of_beq_ofForm {y : Float} {m : Nat} {e : Int} {h : Canonical m e}
    (hy : (y == ofForm .positive m e h) = true) : y = ofForm .positive m e h := by
  have hy : (y.toModel.unpack.compare
      (Float.Model.pack (.finite .positive m e h.pos)).unpack == some .eq) = true := hy
  rw [unpack_pack_finite h, beq_iff_eq] at hy
  rw [ofForm, ← eq_finite_of_compare hy, pack_unpack]

end MiniLisp.Decimal
