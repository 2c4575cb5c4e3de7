import MiniLisp.Proofs.Builtin.Answers
import MiniLisp.Proofs.Decimal.Laws
import MiniLisp.Proofs.Eval.Unstuck

/-!
# Arithmetic on several operands

The four operations take any number of operands from the left.  A difference and a quotient start from
the first operand, a sum starts from the negative zero and a product from one; these are neutral, so all
four start from the first operand.  An operand that is no number comes before a divisor that is zero, and
a divisor that is zero before any division.

* `Arithmetic.result?_eq_foldl`: **every operation goes on from its first operand**.
* `Arithmetic.result?_divideByZero`: nothing is divided if a divisor is zero.
* `arithmetic_folds`: **what a call of an operation comes to**.
-/

namespace MiniLisp

open Eval

namespace Arithmetic

/-- The operation on two numbers. -/
def on : Arithmetic → Float → Float → Float
  | .add => (· + ·)
  | .subtract => (· - ·)
  | .multiply => (· * ·)
  | .divide => (· / ·)

/-- Whether the operation divides, and one of the divisors is a zero of either sign. -/
def DividesByZero (operation : Arithmetic) (divisors : List Float) : Prop :=
  operation = .divide ∧ ∃ y ∈ divisors, y = 0.0 ∨ y = -0.0

variable {operation : Arithmetic} {head : Location} {x : Float} {xs : List Float}

theorem any_zero_iff : xs.any (· == 0.0) = true ↔ ∃ y ∈ xs, y = 0.0 ∨ y = -0.0 := by
  simp only [List.any_eq_true, Decimal.beq_zero_iff]

/-- **Every operation goes on from its first operand**, whatever it starts from. -/
theorem result?_eq_foldl (h : ¬ operation.DividesByZero xs) :
    operation.result? head (x :: xs) = some (.ok (xs.foldl operation.on x)) := by
  cases operation with
  | add =>
    rw [result?, List.foldl_cons, Decimal.negZero_add]
    rfl
  | subtract => rfl
  | multiply =>
    rw [result?, List.foldl_cons, Decimal.floatOne_mul]
    rfl
  | divide =>
    have hzero : ¬ xs.any (· == 0.0) = true := fun hany => h ⟨rfl, any_zero_iff.mp hany⟩
    rw [result?, if_neg hzero]
    rfl

/-- Nothing is divided if a divisor is zero. -/
theorem result?_divideByZero (h : operation.DividesByZero xs) :
    operation.result? head (x :: xs) = some (.error ⟨.divideByZero, head⟩) := by
  obtain ⟨rfl, hzero⟩ := h
  rw [result?, if_pos (any_zero_iff.mpr hzero)]

end Arithmetic

section

variable {operation : Arithmetic} {head : Location} {operands : List Value}

theorem result?_arithmetic {xs : List Float} (h : operands.map Value.number? = xs.map some) :
    (Primitive.arithmetic operation).result? head operands =
      (operation.result? head xs).map fun r => r.map (.number head) := by
  simp only [Primitive.result?, numbers_eq_ok h]

theorem result?_arithmetic_of_find? {v : Value} (h : operands.find? (·.tag ≠ .number) = some v) :
    (Primitive.arithmetic operation).result? head operands =
      some (.error ⟨.typeMismatch operation.name .number v.tag, head⟩) := by
  simp only [Primitive.result?, numbers_eq_error h]

end

/-- **What a call of an operation comes to.**  If an operand is no number, the first such operand is
blamed, also if a divisor is zero.  Otherwise a division fails just if an operand behind the first is a
zero of either sign; and if it does not fail, the result is the number that the operation on two numbers
comes to, taken from the left over the operands behind the first.  It stands at the head. -/
theorem arithmetic_folds (operation : Arithmetic) (recur : Evaluator) (frame : FrameId)
    (head : Location) (id : FunctionId) (operands : List Value) (s : Store) (log : List Event)
    (hlength : 2 ≤ operands.length) (hnop : ∀ v ∈ operands, v.isNop = false) :
    let call :=
      (apply recur frame (.primitive head id (.arithmetic operation)) operands).run ⟨s, log⟩
    call.2.store = s ∧
    (∀ v, operands.find? (·.tag ≠ .number) = some v → call.1 =
      .error (.failed (.fault ⟨.typeMismatch operation.name .number v.tag, head⟩))) ∧
    ∀ x xs, operands.map Value.number? = (x :: xs).map some →
      (call.1 = .error (.failed (.fault ⟨.divideByZero, head⟩)) ↔ operation.DividesByZero xs) ∧
      (¬ operation.DividesByZero xs →
        call.1 = .ok (.number head (xs.foldl operation.on x))) := by
  intro call
  have harity : (Primitive.arithmetic operation).arity.contains operands.length = true :=
    (Arity.contains_atLeast 2 _).mpr hlength
  have hplain : Primitive.arithmetic operation ≠ .lambda := nofun
  obtain ⟨result, hresult⟩ :=
    Option.isSome_iff_exists.mp (isSome_result? (l := head) hplain harity)
  obtain ⟨log', hcall⟩ := (Primitive.answers hplain harity hresult).call hnop recur frame id s log
  have hcall : call = (lift result).run ⟨s, log'⟩ := hcall
  rw [hcall]
  refine ⟨?_, fun v hv => ?_, fun x xs hxs => ?_⟩
  · cases result <;> rfl
  · cases hresult.symm.trans (result?_arithmetic_of_find? hv)
    rfl
  · rw [result?_arithmetic hxs] at hresult
    by_cases hzero : operation.DividesByZero xs
    · rw [Arithmetic.result?_divideByZero hzero] at hresult
      cases hresult
      exact ⟨iff_of_true rfl hzero, fun h => absurd hzero h⟩
    · rw [Arithmetic.result?_eq_foldl hzero] at hresult
      cases hresult
      exact ⟨iff_of_false nofun hzero, fun _ => rfl⟩

/-- The sum of two negative zeros, a quotient with a negative zero among the divisors, and one with a
string behind a zero. -/
theorem arithmetic_folds_zeros :
    let l := Location.start
    let outcome := fun operation operands =>
      ((apply (eval 0) 0 (.primitive l 0 (.arithmetic operation)) operands).run ⟨.fresh .default, []⟩).1
    outcome .add [.number l (-0.0), .number l (-0.0)] = .ok (.number l (-0.0)) ∧
    outcome .divide [.number l 1.0, .number l 2.0, .number l (-0.0)] =
      .error (.failed (.fault ⟨.divideByZero, l⟩)) ∧
    outcome .divide [.number l 1.0, .number l 0.0, .string l ""] =
      .error (.failed (.fault ⟨.typeMismatch "/" .number .string, l⟩)) := by
  intro l outcome
  have hsum := (arithmetic_folds .add (eval 0) 0 l 0 [.number l (-0.0), .number l (-0.0)]
    (.fresh .default) [] (by decide) (by decide)).2.2 (-0.0) [-0.0] rfl
  have hquotient := (arithmetic_folds .divide (eval 0) 0 l 0
    [.number l 1.0, .number l 2.0, .number l (-0.0)] (.fresh .default) [] (by decide)
    (by decide)).2.2 1.0 [2.0, -0.0] rfl
  have hstring := (arithmetic_folds .divide (eval 0) 0 l 0
    [.number l 1.0, .number l 0.0, .string l ""] (.fresh .default) [] (by decide)
    (by decide)).2.1 (.string l "") rfl
  have hzero : ((-0.0 : Float) + -0.0) = -0.0 := Decimal.negZero_add _
  refine ⟨(hsum.2 fun h => nomatch h.1).trans ?_, hquotient.1.mpr ⟨rfl, -0.0, by simp, Or.inr rfl⟩, hstring⟩
  exact congrArg (fun x => Except.ok (Value.number l x)) hzero

end MiniLisp
