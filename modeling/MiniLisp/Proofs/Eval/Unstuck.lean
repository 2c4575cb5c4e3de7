import MiniLisp.Proofs.Eval.Calls

/-!
# Evaluation never gets stuck

Some rules of evaluation work on operands that have to be there: a primitive takes its operands apart,
a closure hands one to each of its names, and a definition is reported under its key.  Nothing but a
number declared elsewhere sees to it: the arity of the primitive, the arity that the names and the
strictness amount to, or the count that a definition has checked before.

The declared numbers fit what the rules do, for all primitives and all closures.  So evaluation ends
with a value or with a fault, if it ends at all, whatever the store and the value are.

* `isSome_primitive?`: **a primitive has a result for every number of operands that it takes**.
* `isSome_bind?`: so has a closure.
* `eval_never_stuck`: **evaluation never gets stuck**.
-/

namespace MiniLisp

open Eval

/-! ### Declared numbers of operands -/

section

variable {l : Location} {vs : List Value}

theorem length_numbers {operator : String} {xs : List Float} (h : numbers operator l vs = .ok xs) :
    xs.length = vs.length := by
  induction vs generalizing xs with
  | nil => cases h; rfl
  | cons v vs ih =>
    rw [numbers] at h
    split at h
    · cases h
    · cases hrest : numbers operator l vs with
      | error f => rw [hrest] at h; cases h
      | ok ys =>
        rw [hrest] at h
        cases h
        rw [List.length_cons, List.length_cons, ih hrest]

theorem isSome_arithmetic (operation : Arithmetic) {xs : List Float} (h : 2 ≤ xs.length) :
    (operation.result? l xs).isSome = true := by
  cases xs with
  | nil => cases h
  | cons x xs =>
    cases operation with
    | divide =>
      rw [Arithmetic.result?]
      split
      · rfl
      · rfl
    | _ => rfl

/-- The primitives that need no frame, one by one. -/
theorem isSome_result? {p : Primitive} (hp : p ≠ .lambda)
    (h : p.arity.contains vs.length = true) : (p.result? l vs).isSome = true := by
  cases p with
  | arithmetic operation =>
    rw [Primitive.arity, Arity.contains_atLeast] at h
    simp only [Primitive.result?]
    split
    · rfl
    · next xs hxs =>
      rw [Option.isSome_map]
      exact isSome_arithmetic operation (by rw [length_numbers hxs]; exact h)
  | ask question =>
    cases vs with
    | nil => cases question <;> cases h
    | cons v vs => rfl
  | isEmpty =>
    cases vs with
    | nil => cases h
    | cons v vs =>
      simp only [Primitive.result?]
      split
      · rfl
      · rfl
  | choose =>
    match vs with
    | [] => cases h
    | [_] => cases h
    | test :: yes :: others => rfl
  | last =>
    cases vs with
    | nil => cases h
    | cons v vs => simp [Primitive.result?, List.getLast?_cons]
  | lambda => exact absurd rfl hp
  | count | not | quote =>
    cases vs with
    | nil => cases h
    | cons v vs => rfl
  | _ => rfl

/-- **A primitive has a result for every number of operands that it takes.** -/
theorem isSome_primitive? (s : Store) (frame : FrameId) {p : Primitive}
    (h : p.arity.contains vs.length = true) : (s.primitive? frame p l vs).isSome = true := by
  by_cases hp : p = .lambda
  · subst hp
    rw [Primitive.arity, Arity.contains_atLeast] at h
    match vs with
    | [] => cases h
    | [_] => simp at h
    | v :: body :: rest =>
      simp only [Store.primitive?, Store.lambda?]
      split
      · rfl
      · rfl
  · unfold Store.primitive?
    split
    · exact absurd rfl hp
    · rw [Option.isSome_map]
      exact isSome_result? hp h

/-- A closure has an operand for each of its names if it takes their number, strict or not. -/
theorem isSome_bind? {p : Parameters} {strict : Bool}
    (h : (p.arity strict).contains vs.length = true) : (p.bind? l vs).isSome = true := by
  rw [Parameters.bind?_eq_some_iff.mpr ⟨Parameters.length_le_of_contains h, rfl⟩]
  rfl

end

/-! ### Outcomes -/

/-- A result that is not due to a rule that does not fit: a value, a fault, or none because the bound on
the depth was reached. -/
inductive Landed {α : Type} : Except Stop α → Prop
  | value (a : α) : Landed (.ok a)
  | fault (f : Fault) : Landed (.error (.failed (.fault f)))
  | tooDeep : Landed (.error .tooDeep)

/-- An evaluation that never gets stuck. -/
def Eval.Lands {α : Type} (e : Eval α) : Prop :=
  ∀ m, Landed (e.run m).1

section

variable {α β : Type}

theorem Eval.Lands.bind {e : Eval α} {f : α → Eval β} (he : e.Lands) (hf : ∀ a, (f a).Lands) :
    (e >>= f).Lands := by
  intro m
  have he := he m
  rw [run_bind]
  generalize e.run m = o at he ⊢
  obtain ⟨r, n⟩ := o
  cases he with
  | value a => exact hf a n
  | fault f => exact .fault f
  | tooDeep => exact .tooDeep

theorem lands_pure (a : α) : (pure a : Eval α).Lands := fun _ => .value a

theorem lands_fail (cause : Cause) (l : Location) : (fail cause l : Eval α).Lands :=
  fun _ => .fault ⟨cause, l⟩

theorem lands_emit (e : Event) : (emit e).Lands := fun _ => .value ()

theorem lands_update (f : Store → Store) : (update f).Lands := fun _ => .value ()

theorem lands_spawn (parent : FrameId) : (spawn parent).Lands := fun m => .value m.store.frames.size

theorem lands_getStore : getStore.Lands := fun m => .value m.store

theorem lands_lookup (frame : FrameId) (key : Value) : (lookup frame key).Lands := by
  refine lands_getStore.bind fun s => ?_
  cases s.get frame key with
  | ok v => exact lands_pure v
  | error f => exact fun _ => .fault f

theorem lands_callPrimitive (frame : FrameId) (l : Location) (code : Primitive) (vs : List Value) :
    (callPrimitive frame l code vs).Lands := by
  unfold callPrimitive
  split
  · next h =>
    refine (lands_emit _).bind fun _ => lands_getStore.bind fun s => ?_
    obtain ⟨⟨r, t⟩, hr⟩ := Option.isSome_iff_exists.mp (isSome_primitive? (l := l) s frame h)
    rw [hr]
    cases r with
    | ok v => exact (lands_update _).bind fun _ => (lands_emit _).bind fun _ => lands_pure v
    | error f => exact (lands_update _).bind fun _ => (lands_emit _).bind fun _ _ => .fault f
  · exact lands_fail _ l

end

/-! ### One rule after the other -/

section

variable {recur : Evaluator} (hrecur : ∀ frame v, (recur frame v).Lands)

include hrecur

theorem lands_callClosure (l : Location) (p : Parameters) (body : Value) (captured : FrameId)
    (vs : List Value) : (callClosure recur l p body captured vs).Lands := by
  refine (lands_emit _).bind fun _ => lands_getStore.bind fun s => ?_
  dsimp only
  split
  · next h =>
    refine (lands_spawn captured).bind fun inner => ?_
    obtain ⟨pairs, hpairs⟩ := Option.isSome_iff_exists.mp (isSome_bind? (l := l) h)
    rw [hpairs]
    exact (lands_update _).bind fun _ => hrecur inner body
  · exact lands_fail _ l

theorem lands_apply (frame : FrameId) (head : Value) (vs : List Value) :
    (apply recur frame head vs).Lands := by
  unfold apply
  split
  · exact lands_fail _ _
  · split
    · exact lands_callPrimitive _ _ _ _
    · exact lands_callClosure hrecur _ _ _ _ _
    · exact lands_fail _ _

theorem lands_evalElements (frame : FrameId) (vs : List Value) :
    (evalElements recur frame vs).Lands := by
  induction vs with
  | nil => exact lands_pure []
  | cons v vs ih => exact (hrecur frame v).bind fun _ => ih.bind fun _ => lands_pure _

theorem lands_evalEntries (frame : FrameId) (es : List (Value × Value)) :
    (evalEntries recur frame es).Lands := by
  induction es with
  | nil => exact lands_pure []
  | cons e es ih => exact (hrecur frame e.2).bind fun _ => ih.bind fun _ => lands_pure _

theorem lands_evalContents (frame : FrameId) (v : Value) : (evalContents recur frame v).Lands := by
  refine (lands_emit _).bind fun _ => ?_
  cases v with
  | symbol l x => exact lands_lookup frame _
  | list l vs => exact (lands_evalElements hrecur frame vs).bind fun _ => lands_pure _
  | vector l vs => exact (lands_evalElements hrecur frame vs).bind fun _ => lands_pure _
  | map l es => exact (lands_evalEntries hrecur frame es).bind fun _ => lands_pure _
  | _ => exact lands_pure _

theorem lands_define (frame : FrameId) (l : Location) (vs : List Value) :
    (define recur frame l vs).Lands := by
  unfold define
  split
  · split
    · exact lands_fail _ _
    · exact (hrecur _ _).bind fun w => (lands_update _).bind fun _ => lands_pure w
  · exact lands_fail _ l

theorem lands_bindPairs (frame : FrameId) (es : List (Value × Value)) :
    (bindPairs recur frame es).Lands := by
  induction es with
  | nil => exact lands_pure ()
  | cons e es ih =>
    unfold bindPairs
    split
    · exact lands_fail _ _
    · exact (hrecur frame e.2).bind fun _ => (lands_update _).bind fun _ => ih

theorem lands_bindLocally (frame : FrameId) (l : Location) (vs : List Value) :
    (bindLocally recur frame l vs).Lands := by
  unfold bindLocally
  split
  · split
    · exact lands_fail _ _
    · split
      · exact lands_fail _ _
      · refine (lands_spawn frame).bind fun inner => ?_
        exact (lands_bindPairs hrecur inner _).bind fun _ => hrecur inner _
  · exact lands_fail _ l

theorem lands_evalForm (frame : FrameId) (form head : Value) (vs : List Value) :
    (evalForm recur frame form head vs).Lands := by
  refine (lands_emit _).bind fun _ => ?_
  split
  · cases vs with
    | nil => exact fun _ => .fault _ -- There is no key to report, but the definition failed before.
    | cons key vs =>
      refine (lands_define hrecur frame head.location (key :: vs)).bind fun w => ?_
      exact (lands_emit _).bind fun _ => lands_pure w
  · split
    · exact lands_bindLocally hrecur frame _ vs
    · refine (hrecur frame head).bind fun function => ?_
      split
      · exact lands_fail _ _
      · exact lands_apply hrecur frame function vs
      · exact (lands_evalElements hrecur frame vs).bind fun ws => lands_apply hrecur frame function ws

theorem lands_evalStep (frame : FrameId) (v : Value) : (evalStep recur frame v).Lands := by
  unfold evalStep
  split
  · exact lands_pure _
  · exact lands_evalForm hrecur frame _ _ _
  · exact lands_evalContents hrecur frame _

end

theorem lands_eval (depth : Nat) : ∀ (frame : FrameId) (v : Value), (eval depth frame v).Lands := by
  induction depth with
  | zero => exact fun _ _ _ => .tooDeep
  | succ depth ih => exact lands_evalStep ih

/-- **Evaluation never gets stuck.**  Every primitive has a result for each number of operands that it
takes, and every closure an operand for each of its names, whether it is strict or not.  So whatever the
store holds, evaluating any value, evaluating it by its contents and applying anything to any operands
ends with a value or with a fault, unless it does not end within the depth. -/
theorem eval_never_stuck (depth : Nat) :
    (∀ (s : Store) (frame : FrameId) (code : Primitive) (l : Location) (operands : List Value),
      code.arity.contains operands.length = true →
      (s.primitive? frame code l operands).isSome = true) ∧
    (∀ (p : Parameters) (strict : Bool) (l : Location) (operands : List Value),
      (p.arity strict).contains operands.length = true → (p.bind? l operands).isSome = true) ∧
    (∀ (frame : FrameId) (v : Value) (m : Machine), Landed ((eval depth frame v).run m).1) ∧
    (∀ (frame : FrameId) (v : Value) (m : Machine),
      Landed ((evalContents (eval depth) frame v).run m).1) ∧
    ∀ (frame : FrameId) (head : Value) (operands : List Value) (m : Machine),
      Landed ((apply (eval depth) frame head operands).run m).1 := by
  have hrecur := lands_eval depth
  refine ⟨fun s frame _ _ _ h => isSome_primitive? s frame h, fun _ _ _ _ h => isSome_bind? h,
    hrecur, lands_evalContents hrecur, lands_apply hrecur⟩

/-- A call that no text denotes: the head is the primitive that subtracts, and there is no operand. -/
theorem eval_never_stuck_subtract :
    ((Store.fresh .default).primitive? 0 (.arithmetic .subtract) ⟨1, 1⟩
      [.nop ⟨1, 2⟩ "", .nop ⟨1, 4⟩ ""]).isSome = true ∧
    Landed ((eval 2 0 (.list ⟨1, 1⟩ [.primitive ⟨1, 2⟩ 27 (.arithmetic .subtract)])).run
      ⟨.fresh .default, []⟩).1 :=
  ⟨(eval_never_stuck 2).1 _ _ _ _ _ (by decide), (eval_never_stuck 2).2.2.1 _ _ _⟩

end MiniLisp
