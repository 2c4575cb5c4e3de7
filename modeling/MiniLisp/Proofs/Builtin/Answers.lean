import MiniLisp.Proofs.Eval.Calls

/-!
# What primitives answer

A primitive that needs no frame has a result that depends on its operands and on the location of the
head alone.  A call adds nothing to it: it comes to that result and leaves the store as it is, if the
number of operands is right and none of them is a nothing.

* `Primitive.Answers`: the result of a primitive and of every call of it.
* `Primitive.answers`: a primitive answers what it computes.
* `numbers_eq_ok`, `numbers_eq_error`: **the operands are taken as numbers, or the first that is none
  is blamed**.
-/

namespace MiniLisp

open Eval

section

variable {p : Primitive} {head : Location} {operands : List Value} {result : Except Fault Value}

theorem primitive?_of_result? (s : Store) (frame : FrameId) (hp : p ≠ .lambda)
    (hresult : p.result? head operands = some result) :
    s.primitive? frame p head operands = some (result, s) := by
  unfold Store.primitive?
  split
  · exact absurd rfl hp
  · rw [hresult]
    rfl

theorem run_callPrimitive_of_result? (s : Store) (log : List Event) (frame : FrameId)
    (hp : p ≠ .lambda) (harity : p.arity.contains operands.length = true)
    (hresult : p.result? head operands = some result) :
    ∃ log', (callPrimitive frame head p operands).run ⟨s, log⟩ = (lift result).run ⟨s, log'⟩ := by
  rw [callPrimitive, if_pos harity, run_emit_bind, run_getStore_bind,
    primitive?_of_result? s frame hp hresult]
  cases result with
  | ok v => exact ⟨_, rfl⟩
  | error f => exact ⟨_, rfl⟩

theorem apply_primitive {recur : Evaluator} {frame : FrameId} (id : FunctionId)
    (h : ∀ v ∈ operands, v.isNop = false) :
    apply recur frame (.primitive head id p) operands = callPrimitive frame head p operands := by
  rw [apply, find?_isNop_eq_none h]

/-- What a primitive answers to operands: its result, which is what every call comes to if no operand
is a nothing.  The store stays as it is. -/
structure Primitive.Answers (p : Primitive) (head : Location) (operands : List Value)
    (result : Except Fault Value) : Prop where
  result? : p.result? head operands = some result
  call : (∀ v ∈ operands, v.isNop = false) →
    ∀ (recur : Evaluator) (frame : FrameId) (id : FunctionId) (s : Store) (log : List Event),
      ∃ log', (apply recur frame (.primitive head id p) operands).run ⟨s, log⟩ =
        (lift result).run ⟨s, log'⟩

theorem Primitive.answers (hp : p ≠ .lambda) (harity : p.arity.contains operands.length = true)
    (hresult : p.result? head operands = some result) : p.Answers head operands result where
  result? := hresult
  call hoperands recur frame id s log := by
    rw [apply_primitive id hoperands]
    exact run_callPrimitive_of_result? s log frame hp harity hresult

end

/-! ### Operands that are numbers -/

theorem Value.number?_eq_none_iff {v : Value} : v.number? = none ↔ v.tag ≠ .number := by
  cases v <;> simp [Value.number?, Value.tag]

section

variable {operator : String} {head : Location} {operands : List Value}

/-- Operands that are numbers are taken as they are. -/
theorem numbers_eq_ok {xs : List Float} (h : operands.map Value.number? = xs.map some) :
    numbers operator head operands = .ok xs := by
  induction operands generalizing xs with
  | nil =>
    cases xs with
    | nil => rfl
    | cons x xs => cases h
  | cons v vs ih =>
    cases xs with
    | nil => cases h
    | cons x xs =>
      obtain ⟨hv, hvs⟩ := List.cons.inj h
      rw [numbers, hv, ih hvs]
      rfl

/-- **The first operand that is no number is to blame**, whatever the others are. -/
theorem numbers_eq_error {v : Value} (h : operands.find? (·.tag ≠ .number) = some v) :
    numbers operator head operands = .error ⟨.typeMismatch operator .number v.tag, head⟩ := by
  induction operands with
  | nil => cases h
  | cons w ws ih =>
    rw [numbers]
    cases hw : w.number? with
    | none =>
      rw [List.find?_cons_of_pos (by simpa using Value.number?_eq_none_iff.mp hw)] at h
      cases h
      rfl
    | some x =>
      have htag : ¬ w.tag ≠ .number := by
        rw [← Value.number?_eq_none_iff, hw]
        simp
      rw [List.find?_cons_of_neg (by simpa using htag)] at h
      rw [ih h]
      rfl

end

end MiniLisp
