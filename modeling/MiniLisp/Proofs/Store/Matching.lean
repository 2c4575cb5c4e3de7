import MiniLisp.Builtin
import MiniLisp.Proofs.Value.Matching

/-!
# Stores that match

Two stores match if they have the same frames, bound to each other in the same way, in which the same
names are bound to matching values.  The order in which a frame keeps its names does not matter.

Looking up, binding and making frames or functions lead from matching stores to matching stores, and a
primitive has matching results on them.

* `Store.Matches.find?`: a name has matching values.
* `Store.Matches.primitive?`: **a primitive has matching results**.
-/

namespace MiniLisp

/-- Two frames with the same parent, matching settings and matching values for every name. -/
structure Frame.Matches (C : Correspondence) (f f' : Frame) : Prop where
  parent : f.parent = f'.parent
  settings : C.settings f.settings f'.settings
  bindings : ∀ name, Option.Rel (Value.Matches C) (f.bindings.get? name) (f'.bindings.get? name)

/-- Two stores with matching frames that have made as many functions.  The functions that they make
from then on go together. -/
structure Store.Matches (C : Correspondence) (s s' : Store) : Prop where
  size : s.frames.size = s'.frames.size
  frames : ∀ i : Nat, Option.Rel (Frame.Matches C) s.frames[i]? s'.frames[i]?
  functions : s.functions = s'.functions
  identity : ∀ i, s.functions ≤ i → C.identity i i

/-- Two faults at locations that go together.  The causes are the same, but for a closure that is called
with a wrong number of arguments: the number it takes depends on the settings. -/
inductive Fault.Matches (C : Correspondence) : Fault → Fault → Prop
  | same {l l' : Location} {cause : Cause} : C.location l l' →
      (∀ expected got, cause ≠ .argumentCount .closure expected got) →
      Matches C ⟨cause, l⟩ ⟨cause, l'⟩
  | arguments {l l' : Location} (parameters : Parameters) {a b : Settings} (got : Nat) :
      C.location l l' → C.settings a b →
      Matches C ⟨.argumentCount .closure (parameters.arity a.strictArity) got, l⟩
        ⟨.argumentCount .closure (parameters.arity b.strictArity) got, l'⟩

/-- Two results, both with a value or both without, that are related. -/
inductive Similar {ε α : Type} (E : ε → ε → Prop) (R : α → α → Prop) :
    Except ε α → Except ε α → Prop
  | ok {a a' : α} : R a a' → Similar E R (.ok a) (.ok a')
  | error {e e' : ε} : E e e' → Similar E R (.error e) (.error e')

section

variable {ε α β : Type} {E : ε → ε → Prop} {R : α → α → Prop} {S : β → β → Prop}

theorem Similar.map {r r' : Except ε α} (h : Similar E R r r') {f f' : α → β}
    (hf : ∀ {a a'}, R a a' → S (f a) (f' a')) : Similar E S (r.map f) (r'.map f') := by
  cases h with
  | ok ha => exact .ok (hf ha)
  | error he => exact .error he

theorem optionRel_map {o o' : Option α} (h : Option.Rel R o o') {f f' : α → β}
    (hf : ∀ {a a'}, R a a' → S (f a) (f' a')) : Option.Rel S (o.map f) (o'.map f') := by
  cases h with
  | some ha => exact .some (hf ha)
  | none => exact .none

end

section

variable {C : Correspondence} {s s' : Store} {v v' : Value} {l l' : Location}

namespace Store.Matches

/-! ### Frames -/

theorem settings (h : s.Matches C s') (frame : FrameId) :
    C.settings (s.settings frame) (s'.settings frame) := by
  have hframe := h.frames frame
  rw [Store.settings, Store.settings]
  generalize s.frames[frame]? = o, s'.frames[frame]? = o' at hframe ⊢
  cases hframe with
  | some hf => exact hf.settings
  | none => exact C.settings_default

/-- **A name has matching values in matching stores.** -/
theorem find? (h : s.Matches C s') (frame : FrameId) (name : String) :
    Option.Rel (Value.Matches C) (s.find? frame name) (s'.find? frame name) := by
  induction frame using Nat.strongRecOn with
  | ind frame ih =>
    have hframe := h.frames frame
    rw [Store.find?, Store.find?.eq_def s']
    generalize s.frames[frame]? = o, s'.frames[frame]? = o' at hframe ⊢
    cases hframe with
    | none => exact .none
    | @some f f' hf =>
      have hname := hf.bindings name
      dsimp only
      rw [← hf.parent]
      generalize f.bindings.get? name = b, f'.bindings.get? name = b' at hname ⊢
      cases hname with
      | some hv => exact .some hv
      | none =>
        cases f.parent with
        | none => exact .none
        | some parent =>
          dsimp only
          split
          · next hlt => exact ih parent hlt
          · exact .none

theorem spawn (h : s.Matches C s') (parent : FrameId) :
    (s.spawn parent).1 = (s'.spawn parent).1 ∧ (s.spawn parent).2.Matches C (s'.spawn parent).2 := by
  refine ⟨h.size, ?_, fun i => ?_, h.functions, h.identity⟩
  · simp [Store.spawn, h.size]
  · show Option.Rel _ (s.frames.push _)[i]? (s'.frames.push _)[i]?
    rw [Array.getElem?_push, Array.getElem?_push, h.size]
    split
    · exact .some ⟨rfl, h.settings parent, fun _ => .none⟩
    · exact h.frames i

theorem insert (h : s.Matches C s') (frame : FrameId) (name : String) (hv : v.Matches C v') :
    (s.insert frame name v).Matches C (s'.insert frame name v') := by
  refine ⟨?_, fun i => ?_, h.functions, h.identity⟩
  · simp [Store.insert, h.size]
  · show Option.Rel _ (s.frames.modify frame _)[i]? (s'.frames.modify frame _)[i]?
    rw [Array.getElem?_modify, Array.getElem?_modify]
    split
    · refine optionRel_map (h.frames i) fun {f f'} hf => ?_
      refine ⟨hf.parent, hf.settings, fun x => ?_⟩
      rw [Bindings.get?_insert, Bindings.get?_insert]
      split
      · exact .some hv
      · exact hf.bindings x
    · exact h.frames i

theorem insertAll {pairs pairs' : List (String × Value)}
    (hpairs : List.Forall₂ (fun p p' => p.1 = p'.1 ∧ p.2.Matches C p'.2) pairs pairs')
    (h : s.Matches C s') (frame : FrameId) :
    (s.insertAll frame pairs).Matches C (s'.insertAll frame pairs') := by
  induction hpairs generalizing s s' with
  | nil => exact h
  | @cons p p' _ _ hp _ ih =>
    obtain ⟨hname, hv⟩ := hp
    refine ih ?_
    show (s.insert frame p.1 p.2).Matches C (s'.insert frame p'.1 p'.2)
    rw [hname]
    exact h.insert frame p'.1 hv

theorem newFunction (h : s.Matches C s') :
    C.identity s.newFunction.1 s'.newFunction.1 ∧
      s.newFunction.2.Matches C s'.newFunction.2 := by
  refine ⟨?_, h.size, h.frames, ?_, fun i hi => h.identity i (Nat.le_of_succ_le hi)⟩
  · show C.identity s.functions s'.functions
    rw [← h.functions]
    exact h.identity _ (Nat.le_refl _)
  · show s.functions + 1 = s'.functions + 1
    rw [h.functions]

theorem get (h : s.Matches C s') (frame : FrameId) (hv : v.Matches C v') :
    Similar (Fault.Matches C) (Value.Matches C) (s.get frame v) (s'.get frame v') := by
  rw [Store.get, Store.get, Store.notASymbol, Store.notASymbol, hv.tag_eq, hv.symbol?_eq]
  cases v'.symbol? with
  | none => exact .error (.same hv.location (by simp))
  | some name =>
    have hname := h.find? frame name
    dsimp only
    generalize s.find? frame name = o, s'.find? frame name = o' at hname ⊢
    cases hname with
    | some hw => exact .ok (hw.moveTo hv.location)
    | none => exact .error (.same hv.location (by simp))

end Store.Matches

/-- A store matches itself if the functions that it holds go with themselves, and so do those that it
makes from then on. -/
theorem Store.matches_self (hl : ∀ l, C.location l l) (hs : ∀ a, C.settings a a) {s : Store}
    (hv : ∀ {i x v}, s.binding? i x = some v →
      v.Everywhere fun w => ∀ i, w.identity? = some i → C.identity i i)
    (hi : ∀ i, s.functions ≤ i → C.identity i i) : s.Matches C s := by
  refine ⟨rfl, fun i => ?_, rfl, hi⟩
  cases hf : s.frames[i]? with
  | none => exact .none
  | some f =>
    refine .some ⟨rfl, hs _, fun x => ?_⟩
    cases hx : f.bindings.get? x with
    | none => exact .none
    | some v => exact .some (Value.matches_self hl (hv (i := i) (x := x) (by rw [binding?, hf]; exact hx)))

/-- A store matches itself if nothing has to differ. -/
theorem Store.matches_refl (hl : ∀ l, C.location l l) (hi : ∀ i, C.identity i i)
    (hs : ∀ a, C.settings a a) (s : Store) : s.Matches C s :=
  matches_self hl hs (fun {_ _ v} _ => Value.Everywhere.of_forall (fun _ i _ => hi i) v)
    fun i _ => hi i

/-! ### Primitives -/

section

variable {vs vs' : List Value} (hl : C.location l l') (hvs : List.Forall₂ (Value.Matches C) vs vs')

include hl hvs

theorem matches_numbers (operator : String) :
    Similar (Fault.Matches C) Eq (numbers operator l vs) (numbers operator l' vs') := by
  induction hvs with
  | nil => exact .ok rfl
  | @cons v v' _ _ hv _ ih =>
    rw [numbers, numbers, hv.number?_eq, hv.tag_eq]
    cases v'.number? with
    | none => exact .error (.same hl (by simp))
    | some x => exact ih.map fun h => by rw [h]

omit hl in
theorem adjacent_equal_eq : adjacent Value.equal vs = adjacent Value.equal vs' := by
  induction hvs with
  | nil => rfl
  | cons hu hus ih =>
    cases hus with
    | nil => rfl
    | cons hv _ => rw [adjacent, adjacent, hu.equal_eq hv, ih]

omit hvs in
theorem matches_arithmetic (operation : Arithmetic) (xs : List Float) :
    Option.Rel (Similar (Fault.Matches C) Eq) (operation.result? l xs)
      (operation.result? l' xs) := by
  unfold Arithmetic.result?
  split
  · exact .some (.ok rfl)
  · exact .some (.ok rfl)
  · exact .some (.ok rfl)
  · split
    · exact .some (.error (.same hl (by simp)))
    · exact .some (.ok rfl)
  · exact .none

/-- A primitive that needs no frame has matching results. -/
theorem matches_result? (p : Primitive) :
    Option.Rel (Similar (Fault.Matches C) (Value.Matches C)) (p.result? l vs) (p.result? l' vs') := by
  cases p with
  | arithmetic operation =>
    have hxs := matches_numbers hl hvs operation.name
    simp only [Primitive.result?]
    generalize numbers operation.name l vs = r, numbers operation.name l' vs' = r' at hxs ⊢
    cases hxs with
    | error hf => exact .some (.error hf)
    | ok h =>
      subst h
      refine optionRel_map (matches_arithmetic hl operation _) fun h => h.map fun h => ?_
      rw [h]
      exact .number _ hl
  | compare relation =>
    refine .some ((matches_numbers hl hvs relation.name).map fun h => ?_)
    rw [h]
    exact .bool _ hl
  | equal =>
    simp only [Primitive.result?, adjacent_equal_eq hvs]
    exact .some (.ok (.bool _ hl))
  | list => exact .some (.ok (.list hl hvs))
  | vector => exact .some (.ok (.vector hl hvs))
  | ask question =>
    cases hvs with
    | nil => exact .none
    | cons hv _ =>
      simp only [Primitive.result?, hv.tag_eq]
      exact .some (.ok (.bool _ hl))
  | isEmpty =>
    cases hvs with
    | nil => exact .none
    | @cons v v' _ _ hv _ =>
      have hempty : v.isEmpty? = v'.isEmpty? := by
        cases hv with
        | list _ h => cases h <;> rfl
        | vector _ h => cases h <;> rfl
        | map _ h => cases h <;> rfl
        | _ => rfl
      simp only [Primitive.result?, hempty, hv.tag_eq]
      cases v'.isEmpty? with
      | some b => exact .some (.ok (.bool b hl))
      | none => exact .some (.error (.same hl (by simp)))
  | count =>
    cases hvs with
    | nil => exact .none
    | @cons v v' _ _ hv _ =>
      have hcount : v.elements?.map List.length = v'.elements?.map List.length := by
        have h := hv.elements?
        generalize v.elements? = o, v'.elements? = o' at h ⊢
        cases h with
        | some h => exact congrArg some h.length_eq
        | none => rfl
      simp only [Primitive.result?, hcount]
      exact .some (.ok (.number _ hl))
  | choose =>
    cases hvs with
    | nil => exact .none
    | @cons test test' _ _ htest hvs =>
      cases hvs with
      | nil => exact .none
      | cons hyes hothers =>
        simp only [Primitive.result?, htest.truthy_eq]
        refine .some (.ok ?_)
        split
        · exact hyes
        · cases hothers with
          | nil => exact .nil hl
          | cons hno _ => exact hno
  | last =>
    simp only [Primitive.result?]
    refine optionRel_map (R := Value.Matches C) ?_ fun h => .ok h
    have hreverse := List.rel_reverse hvs
    rw [List.getLast?_eq_head?_reverse, List.getLast?_eq_head?_reverse]
    generalize vs.reverse = us, vs'.reverse = us' at hreverse ⊢
    cases hreverse with
    | nil => exact .none
    | cons hv _ => exact .some hv
  | not =>
    cases hvs with
    | nil => exact .none
    | cons hv _ =>
      simp only [Primitive.result?, hv.truthy_eq]
      exact .some (.ok (.bool _ hl))
  | lambda => exact .none
  | quote =>
    cases hvs with
    | nil => exact .none
    | cons hv _ => exact .some (.ok hv)
  | print =>
    have hspell : vs.map Value.spell = vs'.map Value.spell :=
      Value.Matches.map_spell_eq hvs fun _ _ _ h => h.spell_eq
    simp only [Primitive.result?, hspell]
    exact .some (.ok (.string _ hl))

omit hl in
theorem matches_parameterNames :
    Similar (Fault.Matches C) Eq (parameterNames vs) (parameterNames vs') := by
  induction hvs with
  | nil => exact .ok rfl
  | @cons v v' _ _ hv _ ih =>
    rw [parameterNames, parameterNames, hv.symbol?_eq, hv.tag_eq]
    cases v'.symbol? with
    | none => exact .error (.same hv.location (by simp))
    | some name => exact ih.map fun h => by rw [h]

omit hvs in
theorem matches_parametersOf (hv : v.Matches C v') :
    Similar (Fault.Matches C) Eq (parametersOf l v) (parametersOf l' v') := by
  have helements := hv.elements?
  rw [parametersOf, parametersOf, hv.tag_eq]
  generalize v.elements? = o, v'.elements? = o' at helements ⊢
  cases helements with
  | none => exact .error (.same hv.location (by simp))
  | @some vs vs' hvs =>
    have hnames := matches_parameterNames hvs
    dsimp only
    generalize parameterNames vs = r, parameterNames vs' = r' at hnames ⊢
    cases hnames with
    | error hf => exact .error hf
    | @ok names _ h =>
      subst h
      dsimp only
      cases Parameters.ofNames names with
      | error reason => exact .error (.same hl (by simp))
      | ok parameters => exact .ok rfl

/-- A result of a primitive together with the store after it. -/
def Answers (C : Correspondence) (a a' : Except Fault Value × Store) : Prop :=
  Similar (Fault.Matches C) (Value.Matches C) a.1 a'.1 ∧ a.2.Matches C a'.2

theorem Store.Matches.lambda? (h : s.Matches C s') (frame : FrameId) :
    Option.Rel (Answers C) (s.lambda? frame l vs) (s'.lambda? frame l' vs') := by
  cases hvs with
  | nil => exact .none
  | @cons v v' _ _ hv hvs =>
    cases hvs with
    | nil => exact .none
    | cons hbody _ =>
      have hparameters := matches_parametersOf hl hv
      simp only [Store.lambda?]
      generalize parametersOf l v = r, parametersOf l' v' = r' at hparameters ⊢
      cases hparameters with
      | error hf => exact .some ⟨.error hf, h⟩
      | ok hp =>
        subst hp
        obtain ⟨hi, hs⟩ := h.newFunction
        exact .some ⟨.ok (.closure _ frame hl hi hbody), hs⟩

/-- **A primitive has matching results on matching stores.** -/
theorem Store.Matches.primitive? (h : s.Matches C s') (frame : FrameId) (p : Primitive) :
    Option.Rel (Answers C) (s.primitive? frame p l vs) (s'.primitive? frame p l' vs') := by
  by_cases hp : p = .lambda
  · subst hp
    exact h.lambda? hl hvs frame
  · have hresult : ∀ (s : Store) (l : Location) (vs : List Value), s.primitive? frame p l vs =
        (p.result? l vs).map fun result => (result, s) := by
      intro s l vs
      unfold Store.primitive?
      split
      · exact absurd rfl hp
      · rfl
    rw [hresult, hresult]
    exact optionRel_map (matches_result? hl hvs p) fun hr => ⟨hr, h⟩

end

end

end MiniLisp
