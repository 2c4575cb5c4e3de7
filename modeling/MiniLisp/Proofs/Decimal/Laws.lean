import MiniLisp.Proofs.Decimal.ReadBack
import Mathlib

/-!
# Laws of doubles

Doubles are compared along a line: the negative infinity, the negative numbers, the two zeros in one
place, the positive numbers, the infinity.  Of two numbers with the same sign the exponent decides, and
then the mantissa.  `place` is the place of a double on that line, so the order of doubles is the order
of their places, with what is not a number left out.

The two numbers that sums and products start from change nothing, whatever they are added to or
multiplied with.

* `lt_iff_place`, `le_iff_place`: **doubles are ordered by their places**.
* `negZero_add`, `floatOne_mul`: **the negative zero and the one are neutral**.
* `beq_zero_iff`: there are two doubles equal to zero.
-/

namespace MiniLisp.Decimal

open Float.Model Float.Model.UnpackedFloat

/-! ### Places -/

/-- The place of a number among all others: its part of the line, and its place there. -/
def rank : UnpackedFloat → ℤ ×ₗ ℤ ×ₗ ℤ
  | .infinity .negative => toLex (-2, toLex (0, 0))
  | .finite .negative m e _ => toLex (-1, toLex (-e, -m))
  | .zero _ | .notANumber => toLex (0, toLex (0, 0))
  | .finite .positive m e _ => toLex (1, toLex (e, m))
  | .infinity .positive => toLex (2, toLex (0, 0))

theorem compare_natCast (m n : Nat) : compare (m : ℤ) (n : ℤ) = compare m n := by
  rw [← cmp_eq_compare, ← cmp_eq_compare]
  exact Nat.strictMono_cast.cmp_map_eq m n

theorem compare_negated (m n : ℤ) : compare (-m) (-n) = compare n m := by
  have hneg : StrictAnti fun k : ℤ => -k := fun _ _ h => neg_lt_neg h
  rw [← cmp_eq_compare, ← cmp_eq_compare]
  exact hneg.cmp_map_eq m n

section

variable (m m' : Nat) (e e' : ℤ) (hm : 0 < m) (hm' : 0 < m')

theorem compare_rank_positive :
    compare (rank (.finite .positive m e hm)) (rank (.finite .positive m' e' hm')) =
      (compare e e').then (compare m m') := by
  rw [← compare_natCast]
  rfl

theorem compare_rank_negative :
    compare (rank (.finite .negative m e hm)) (rank (.finite .negative m' e' hm')) =
      ((compare e e').then (compare m m')).swap := by
  show (compare (-e) (-e')).then (compare (-(m : ℤ)) (-(m' : ℤ))) = _
  rw [compare_negated, compare_negated, compare_natCast, Ordering.swap_then, Int.compare_swap,
    Nat.compare_swap]

end

/-- Numbers are compared by their ranks. -/
theorem compare_eq_rank {a b : UnpackedFloat} (ha : a.isNaN = false) (hb : b.isNaN = false) :
    a.compare b = some (compare (rank a) (rank b)) := by
  -- Numbers from two parts of the line are told apart by the first component.
  cases a with
  | notANumber => cases ha
  | infinity s =>
    cases b with
    | notANumber => cases hb
    | infinity t => cases s <;> cases t <;> rfl
    | zero t => cases s <;> rfl
    | finite t m e hm => cases s <;> cases t <;> rfl
  | zero s =>
    cases b with
    | notANumber => cases hb
    | infinity t => cases t <;> rfl
    | zero t => rfl
    | finite t m e hm => cases t <;> rfl
  | finite s m e hm =>
    cases b with
    | notANumber => cases hb
    | infinity t => cases s <;> cases t <;> rfl
    | zero t => cases s <;> rfl
    | finite t m' e' hm' =>
      cases s with
      | positive =>
        cases t with
        | positive => rw [compare_rank_positive]; rfl
        | negative => rfl
      | negative =>
        cases t with
        | positive => rfl
        | negative => rw [compare_rank_negative]; rfl

/-- What is not a number is not compared. -/
theorem compare_eq_none {a b : UnpackedFloat} (h : a.isNaN = true ∨ b.isNaN = true) :
    a.compare b = none := by
  cases a with
  | notANumber => rfl
  | infinity s =>
    cases b with
    | notANumber => cases s <;> rfl
    | _ => simp [UnpackedFloat.isNaN] at h
  | zero s =>
    cases b with
    | notANumber => rfl
    | _ => simp [UnpackedFloat.isNaN] at h
  | finite s m e hm =>
    cases b with
    | notANumber => cases s <;> rfl
    | _ => simp [UnpackedFloat.isNaN] at h

/-- The place of a double. -/
def place (x : Float) : ℤ ×ₗ ℤ ×ₗ ℤ :=
  rank x.toModel.unpack

theorem compare_cases (x y : Float) :
    (x.isNaN = false ∧ y.isNaN = false ∧
      x.toModel.unpack.compare y.toModel.unpack = some (compare (place x) (place y))) ∨
    ¬ (x.isNaN = false ∧ y.isNaN = false) ∧ x.toModel.unpack.compare y.toModel.unpack = none := by
  by_cases h : x.isNaN = false ∧ y.isNaN = false
  · exact Or.inl ⟨h.1, h.2, compare_eq_rank h.1 h.2⟩
  · refine Or.inr ⟨h, compare_eq_none ?_⟩
    rw [not_and_or, Bool.not_eq_false, Bool.not_eq_false] at h
    exact h

/-- **Doubles are ordered by their places.** -/
theorem lt_iff_place {x y : Float} :
    x < y ↔ x.isNaN = false ∧ y.isNaN = false ∧ place x < place y := by
  show decide ((x.toModel.unpack.compare y.toModel.unpack == some .lt) = true) = true ↔ _
  rw [decide_eq_true_iff, beq_iff_eq]
  rcases compare_cases x y with ⟨hx, hy, h⟩ | ⟨hnan, h⟩
  · rw [h, Option.some.injEq, compare_lt_iff_lt]
    simp only [hx, hy, true_and]
  · rw [h]
    exact iff_of_false nofun fun h => hnan ⟨h.1, h.2.1⟩

theorem le_iff_place {x y : Float} :
    x ≤ y ↔ x.isNaN = false ∧ y.isNaN = false ∧ place x ≤ place y := by
  show decide ((x.toModel.unpack.compare y.toModel.unpack).any (·.isLE) = true) = true ↔ _
  rw [decide_eq_true_iff]
  rcases compare_cases x y with ⟨hx, hy, h⟩ | ⟨hnan, h⟩
  · rw [h, Option.any_some, Ordering.isLE_iff_ne_gt, compare_gt_iff_gt, not_lt]
    simp only [hx, hy, true_and]
  · rw [h]
    exact iff_of_false nofun fun h => hnan ⟨h.1, h.2.1⟩

theorem lt_transitive {x y z : Float} (h : x < y) (h' : y < z) : x < z := by
  obtain ⟨hx, -, hxy⟩ := lt_iff_place.mp h
  obtain ⟨-, hz, hyz⟩ := lt_iff_place.mp h'
  exact lt_iff_place.mpr ⟨hx, hz, hxy.trans hyz⟩

theorem le_transitive {x y z : Float} (h : x ≤ y) (h' : y ≤ z) : x ≤ z := by
  obtain ⟨hx, -, hxy⟩ := le_iff_place.mp h
  obtain ⟨-, hz, hyz⟩ := le_iff_place.mp h'
  exact le_iff_place.mpr ⟨hx, hz, hxy.trans hyz⟩

/-! ### Neutral numbers -/

/-- **The negative zero added to a number is that number**, also to a zero of either sign. -/
theorem negZero_add (x : Float) : -0.0 + x = x := by
  have hadd : UnpackedFloat.add .binary64 (.zero .negative) x.toModel.unpack = x.toModel.unpack := by
    cases x.toModel.unpack with
    | zero s => cases s <;> rfl
    | _ => rfl
  show Float.ofModel (.pack (UnpackedFloat.add .binary64 (.zero .negative) x.toModel.unpack)) = x
  rw [hadd, pack_unpack]

/-- **One times a number is that number.** -/
theorem floatOne_mul (x : Float) : 1.0 * x = x := by
  have hone : (1.0 : Float).toModel.unpack = .finite .positive (2 ^ 52) (-52) (by decide) := by
    rfl
  have hmul : UnpackedFloat.mul .binary64 (.finite .positive (2 ^ 52) (-52) (by decide))
      x.toModel.unpack = x.toModel.unpack := by
    cases hx : x.toModel.unpack with
    | finite s m e hm =>
      -- The product has the 52 bits of the one too many, and rounding takes them off.
      have h := (unpack_finite hx).1
      rw [UnpackedFloat.mul, Nat.mul_comm, Int.add_comm]
      cases s <;> exact roundWithAccuracy_mul h _ 52
    | infinity s => cases s <;> rfl
    | zero s => cases s <;> rfl
    | notANumber => rfl
  show Float.ofModel (.pack (UnpackedFloat.mul .binary64 (1.0 : Float).toModel.unpack
    x.toModel.unpack)) = x
  rw [hone, hmul, pack_unpack]

/-- The doubles that are equal to zero are the zeros of either sign. -/
theorem beq_zero_iff {x : Float} : (x == 0.0) = true ↔ x = 0.0 ∨ x = -0.0 := by
  constructor
  · intro h
    have hzero : oneZero x.toModel.unpack = .zero .positive := (beq_iff.mp h).2
    cases hx : x.toModel.unpack with
    | zero s =>
      rw [eq_zero_of_unpack hx]
      cases s with
      | positive => exact Or.inl rfl
      | negative => exact Or.inr rfl
    | _ => rw [hx] at hzero; cases hzero
  · rintro (rfl | rfl)
    · decide
    · decide

end MiniLisp.Decimal
