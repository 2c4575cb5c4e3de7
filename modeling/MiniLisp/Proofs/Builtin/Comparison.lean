import Mathlib
import MiniLisp.Proofs.Builtin.Answers
import MiniLisp.Proofs.Decimal.Laws
import MiniLisp.Proofs.Value.Equality

/-!
# Chained comparisons

A comparison of several operands looks at neighbours only.  Equality of values and the order of numbers
go on from one operand to the next, so it holds between neighbours just if it holds between any two
operands, the earlier one on the left.  What is not a number is in no relation with anything, and it
always has a neighbour.

* `adjacent_iff_pairs`: **neighbours are enough** for a relation that goes on.
* `Comparison.relates_trans`: the order of numbers goes on.
* `adjacent_eq_false`: one operand that is in no relation is enough against it.
* `chained_comparisons`: **what a comparison of several operands means**.
-/

namespace MiniLisp

/-! ### Neighbours -/

section

variable {α : Type} {r : α → α → Bool} {xs : List α}

theorem adjacent_iff_isChain : adjacent r xs = true ↔ xs.IsChain fun x y => r x y = true := by
  fun_induction adjacent r xs with
  | case1 => exact iff_of_true rfl .nil
  | case2 x => exact iff_of_true rfl (.singleton x)
  | case3 x y rest ih => rw [Bool.and_eq_true, List.isChain_cons_cons, ih]

/-- **Neighbours are enough**: a relation that goes on holds between each two neighbours just if it
holds between any two members. -/
theorem adjacent_iff_pairs {R : α → α → Prop} (hr : ∀ x y, r x y = true ↔ R x y)
    (htrans : ∀ x y z, R x y → R y z → R x z) :
    adjacent r xs = true ↔ ∀ i j (_ : i < j) (_ : j < xs.length), R xs[i] xs[j] := by
  have : Trans R R R := ⟨htrans _ _ _⟩
  simp only [adjacent_iff_isChain, hr]
  rw [List.isChain_iff_pairwise, List.pairwise_iff_getElem]
  exact ⟨fun h i j hij hj => h i j _ hj hij, fun h i j _ hj hij => h i j hij hj⟩

/-- Reversing a row turns the relation round. -/
theorem adjacent_reverse : adjacent r xs.reverse = adjacent (fun x y => r y x) xs := by
  rw [Bool.eq_iff_iff, adjacent_iff_isChain, adjacent_iff_isChain, List.isChain_reverse]

/-- A member that is in no relation is enough, as it has a neighbour on one side. -/
theorem adjacent_eq_false {x : α} (hx : x ∈ xs) (hlength : 2 ≤ xs.length)
    (hr : ∀ y, r x y = false ∧ r y x = false) : adjacent r xs = false := by
  refine Bool.eq_false_iff.mpr fun h => ?_
  have hchain := List.isChain_iff_getElem.mp (adjacent_iff_isChain.mp h)
  obtain ⟨i, hi, rfl⟩ := List.getElem_of_mem hx
  by_cases hnext : i + 1 < xs.length
  · exact Bool.false_ne_true ((hr _).1.symm.trans (hchain i hnext))
  · obtain ⟨j, rfl⟩ : ∃ j, i = j + 1 := ⟨i - 1, by omega⟩
    exact Bool.false_ne_true ((hr _).2.symm.trans (hchain j hi))

end

/-! ### The relations -/

namespace Comparison

/-- The order of two numbers that a relation stands for. -/
def Relates : Comparison → Float → Float → Prop
  | .greater => (· > ·)
  | .greaterOrEqual => (· ≥ ·)
  | .less => (· < ·)
  | .lessOrEqual => (· ≤ ·)

variable {relation : Comparison} {x y z : Float}

theorem holds_iff : relation.holds x y = true ↔ relation.Relates x y := by
  cases relation <;> exact decide_eq_true_iff

/-- The order of numbers goes on. -/
theorem relates_trans (h : relation.Relates x y) (h' : relation.Relates y z) :
    relation.Relates x z := by
  cases relation with
  | greater => exact Decimal.lt_transitive h' h
  | greaterOrEqual => exact Decimal.le_transitive h' h
  | less => exact Decimal.lt_transitive h h'
  | lessOrEqual => exact Decimal.le_transitive h h'

/-- Only numbers are in order. -/
theorem isNaN_of_relates (h : relation.Relates x y) : x.isNaN = false ∧ y.isNaN = false := by
  cases relation with
  | greater =>
    obtain ⟨hy, hx, -⟩ := Decimal.lt_iff_place.mp h
    exact ⟨hx, hy⟩
  | greaterOrEqual =>
    obtain ⟨hy, hx, -⟩ := Decimal.le_iff_place.mp h
    exact ⟨hx, hy⟩
  | less =>
    obtain ⟨hx, hy, -⟩ := Decimal.lt_iff_place.mp h
    exact ⟨hx, hy⟩
  | lessOrEqual =>
    obtain ⟨hx, hy, -⟩ := Decimal.le_iff_place.mp h
    exact ⟨hx, hy⟩

theorem holds_eq_false (hx : x.isNaN = true) (y : Float) :
    relation.holds x y = false ∧ relation.holds y x = false := by
  refine ⟨Bool.eq_false_iff.mpr fun h => ?_, Bool.eq_false_iff.mpr fun h => ?_⟩
  · exact Bool.false_ne_true ((isNaN_of_relates (holds_iff.mp h)).1.symm.trans hx)
  · exact Bool.false_ne_true ((isNaN_of_relates (holds_iff.mp h)).2.symm.trans hx)

end Comparison

/-- A value that contains what is not a number is equal to nothing. -/
theorem Value.equal_eq_false {v : Value} (hv : v.ContainsNaN) (w : Value) :
    v.equal w = false ∧ w.equal v = false := by
  have hself : v.equal v = false := Bool.eq_false_iff.mpr fun h => equal_self_iff.mp h hv
  refine ⟨Bool.eq_false_iff.mpr fun h => ?_, Bool.eq_false_iff.mpr fun h => ?_⟩
  · exact Bool.false_ne_true (hself.symm.trans (equal_trans h (equal_symm h)))
  · exact Bool.false_ne_true (hself.symm.trans (equal_trans (equal_symm h) h))

/-! ### Answers -/

section

variable {head : Location} {operands : List Value} {xs : List Float} {relation : Comparison}

theorem result?_compare (h : operands.map Value.number? = xs.map some) :
    (Primitive.compare relation).result? head operands =
      some (.ok (.bool head (adjacent relation.holds xs))) := by
  simp only [Primitive.result?, numbers_eq_ok h]
  rfl

theorem map_number?_reverse (h : operands.map Value.number? = xs.map some) :
    operands.reverse.map Value.number? = xs.reverse.map some := by
  rw [List.map_reverse, List.map_reverse, h]

theorem length_of_map_number? (h : operands.map Value.number? = xs.map some) :
    operands.length = xs.length := by
  simpa using congrArg List.length h

end

/-- **What a comparison of several operands means.**  The operands are equal if any two of them are.
Numbers are in order if any two of them are, the earlier one on the left, and they are in the one order
just if they are in the other one when read backwards.  One operand that is not a number, or for equality
contains such a one, makes the answer false.  If an operand is of another kind, there is no order, and
the first such operand is blamed. -/
theorem chained_comparisons (head : Location) (operands : List Value)
    (hlength : 2 ≤ operands.length) :
    (∃ b, Primitive.equal.Answers head operands (.ok (.bool head b)) ∧
      (b = true ↔ ∀ i j (_ : i < j) (_ : j < operands.length), (operands[i] == operands[j]) = true) ∧
      ((∃ v ∈ operands, v.ContainsNaN) → b = false)) ∧
    (∀ xs : List Float, operands.map Value.number? = xs.map some →
      (∀ relation : Comparison, ∃ b,
        (Primitive.compare relation).Answers head operands (.ok (.bool head b)) ∧
        (b = true ↔ ∀ i j (_ : i < j) (_ : j < xs.length), relation.Relates xs[i] xs[j]) ∧
        ((∃ x ∈ xs, x.isNaN = true) → b = false)) ∧
      (Primitive.compare .greater).result? head operands =
        (Primitive.compare .less).result? head operands.reverse ∧
      (Primitive.compare .greaterOrEqual).result? head operands =
        (Primitive.compare .lessOrEqual).result? head operands.reverse) ∧
    ∀ v, operands.find? (·.tag ≠ .number) = some v → ∀ relation : Comparison,
      (Primitive.compare relation).Answers head operands
        (.error ⟨.typeMismatch relation.name .number v.tag, head⟩) := by
  have harity : (Arity.atLeast 2).contains operands.length = true :=
    (Arity.contains_atLeast 2 _).mpr hlength
  refine ⟨?_, fun xs hxs => ⟨fun relation => ?_, ?_, ?_⟩, fun v hv relation => ?_⟩
  · refine ⟨_, Primitive.answers nofun harity rfl, ?_, ?_⟩
    · exact adjacent_iff_pairs (fun _ _ => Iff.rfl) fun _ _ _ => Value.equal_trans
    · rintro ⟨v, hv, hnan⟩
      exact adjacent_eq_false hv hlength (Value.equal_eq_false hnan)
  · refine ⟨_, Primitive.answers nofun harity (result?_compare hxs), ?_, ?_⟩
    · exact adjacent_iff_pairs (fun _ _ => Comparison.holds_iff) fun _ _ _ => Comparison.relates_trans
    · rintro ⟨x, hx, hnan⟩
      rw [length_of_map_number? hxs] at hlength
      exact adjacent_eq_false hx hlength (Comparison.holds_eq_false hnan)
  · rw [result?_compare hxs, result?_compare (map_number?_reverse hxs), adjacent_reverse]
    rfl
  · rw [result?_compare hxs, result?_compare (map_number?_reverse hxs), adjacent_reverse]
    rfl
  · refine Primitive.answers nofun harity ?_
    simp only [Primitive.result?, numbers_eq_error hv]
    rfl

/-- The two zeros before a greater number, what is not a number in a vector, and a keyword behind a
`nil` and what is not a number. -/
theorem chained_comparisons_zeros :
    let l := Location.start
    let zeros := [.number l 0.0, .number l (-0.0), .number l 1.5]
    (Primitive.compare .lessOrEqual).Answers l zeros (.ok (.bool l true)) ∧ (0.0 : Float) ≤ 1.5 ∧
    Primitive.equal.Answers l [.vector l [.number l (0.0 / 0.0)], .vector l [.number l (0.0 / 0.0)]]
      (.ok (.bool l false)) ∧
    (Primitive.compare .less).Answers l [.number l (0.0 / 0.0), .nil l, .keyword l ""]
      (.error ⟨.typeMismatch "<" .number .nil, l⟩) := by
  intro l zeros
  obtain ⟨b, hb, hpairs, -⟩ := ((chained_comparisons l zeros (by decide)).2.1 [0.0, -0.0, 1.5] rfl).1
    .lessOrEqual
  have htrue : (Primitive.compare .lessOrEqual).result? l zeros = some (.ok (.bool l true)) := rfl
  cases htrue.symm.trans hb.result?
  obtain ⟨c, hc, -, hnan⟩ := (chained_comparisons l
    [.vector l [.number l (0.0 / 0.0)], .vector l [.number l (0.0 / 0.0)]] (by decide)).1
  rw [hnan ⟨_, List.mem_cons_self, .vector List.mem_cons_self (.number (by decide))⟩] at hc
  refine ⟨hb, hpairs.mp rfl 0 2 (by decide) (by decide), hc, ?_⟩
  exact (chained_comparisons l [.number l (0.0 / 0.0), .nil l, .keyword l ""] (by decide)).2.2 (.nil l)
    rfl .less

end MiniLisp
