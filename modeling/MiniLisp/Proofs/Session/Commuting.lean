import Mathlib
import MiniLisp.Proofs.Session.Numbered

/-!
# Definitions of functions commute

A definition of a function leaves two traces in a session: the root binds a name, and an identity is
given out.  The body is not looked at, so it may use what is not defined yet.  If two functions are
defined in one order or the other, the same two names are bound, but the two identities are exchanged.

Identities can be compared, and that is all.  So two sessions whose identities differ by a permutation
cannot be told apart.

* `Correspondence.renaming`: the identities of the second run are those of the first, permuted.
* `replies_eq_of_matches`: sessions that differ in identities have the same answers for ever.
* `Value.DefinesFunction.run_evaluate`: what a definition leaves behind.
* `definitions_commute`: **definitions of functions commute**.
-/

namespace MiniLisp

open Eval

/-! ### Sessions that differ in identities -/

/-- Equal settings are equally strict. -/
theorem strict_of_eq {a b : Settings} (h : a = b) (hb : b.strictArity = true) :
    a.strictArity = true := by
  rw [h]
  exact hb

/-- The identities of the second run are those of the first, permuted, and nothing else differs. -/
def Correspondence.renaming (σ : Equiv.Perm FunctionId) : Correspondence where
  location := Eq
  identity i i' := σ i = i'
  settings := Eq
  identity_iff := by rintro i _ j _ rfl rfl; exact σ.injective.eq_iff.symm
  settings_default := rfl
  strict_of_strict := strict_of_eq

theorem Stop.Matches.eq_of_renaming {σ : Equiv.Perm FunctionId} {s s' : Stop}
    (h : s.Matches (.renaming σ) s') : s = s' := by
  cases h with
  | fault hf =>
    cases hf with
    | same hl _ => cases hl; rfl
    | arguments p got hl hab => cases hl; cases hab; rfl
  | unreadable e => rfl
  | stuck => rfl
  | tooDeep => rfl

/-- What a session answers to lines in turn: the text of each answer and its location, or why there is
no answer. -/
def Session.replies (depth : Nat) (s : Session) : List String → List (Except Stop (String × Location))
  | [] => []
  | line :: lines =>
    let outcome := s.perform (answer depth line)
    outcome.result.map (fun v => (v.text, v.location)) :: outcome.session.replies depth lines

theorem matches_answer {σ : Equiv.Perm FunctionId} (depth : Nat) (line : String) (m m' : Machine)
    (hm : m.store.Matches (.renaming σ) m'.store) :
    Similar Eq (Value.Matches (.renaming σ)) ((answer depth line).run m).1
        ((answer depth line).run m').1 ∧
      ((answer depth line).run m).2.store.Matches (.renaming σ) ((answer depth line).run m').2.store := by
  have htogether := (Request.answer line).matches_attempt (C := .renaming σ) (fun _ => rfl) depth m m' hm
  rw [run_answer, run_answer]
  change Together _ _ ((evaluateFirst depth line).run m) ((evaluateFirst depth line).run m') at htogether
  generalize (evaluateFirst depth line).run m = o, (evaluateFirst depth line).run m' = o' at htogether ⊢
  obtain ⟨r, n⟩ := o
  obtain ⟨r', n'⟩ := o'
  rcases htogether with ⟨hresult, hstore⟩ | ⟨⟨a, b, hab, hne⟩, _⟩
  · refine ⟨?_, hstore⟩
    cases hresult with
    | ok hv => exact .ok hv
    | @error stop _ hstop =>
      cases hstop.eq_of_renaming
      cases stop with
      | failed failure => exact .ok (.nop _ rfl)
      | stuck => exact .error rfl
      | tooDeep => exact .error rfl
  · exact absurd hab hne

/-- **Sessions that differ in identities have the same answers for ever.** -/
theorem replies_eq_of_matches (σ : Equiv.Perm FunctionId) (depth : Nat) (lines : List String) {s s' : Session}
    (hs : s.store.Matches (.renaming σ) s'.store) : s.replies depth lines = s'.replies depth lines := by
  induction lines generalizing s s' with
  | nil => rfl
  | cons line lines ih =>
    obtain ⟨hresult, hstore⟩ := matches_answer depth line ⟨s.store, []⟩ ⟨s'.store, []⟩ hs
    refine congrArg₂ List.cons ?_ (ih hstore)
    show Except.map _ ((answer depth line).run ⟨s.store, []⟩).1 =
      Except.map _ ((answer depth line).run ⟨s'.store, []⟩).1
    generalize Prod.fst _ = r, Prod.fst ((answer depth line).run ⟨s'.store, []⟩) = r' at hresult ⊢
    cases hresult with
    | @ok v v' hv =>
      have htext : v.text = v'.text := congrArg String.ofList hv.spell_eq
      have hlocation : v.location = v'.location := hv.location
      simp only [Except.map, htext, hlocation]
    | error h => rw [h]

/-! ### Binding two names -/

/-- Two names may be bound in either order. -/
theorem Store.Matches.insert_comm {C : Correspondence} {s s' : Store} (h : s.Matches C s')
    (frame : FrameId) {x y : String} (hxy : x ≠ y) {v v' w w' : Value} (hv : v.Matches C v')
    (hw : w.Matches C w') :
    ((s.insert frame x v).insert frame y w).Matches C ((s'.insert frame y w').insert frame x v') := by
  refine ⟨?_, fun i => ?_, h.functions, h.identity⟩
  · simp [Store.insert, h.size]
  · show Option.Rel _ ((s.frames.modify frame _).modify frame _)[i]?
      ((s'.frames.modify frame _).modify frame _)[i]?
    simp only [Array.getElem?_modify]
    split
    · simp only [Option.map_map]
      refine optionRel_map (h.frames i) fun {f f'} hf => ⟨hf.parent, hf.settings, fun z => ?_⟩
      simp only [Function.comp_apply, Bindings.get?_insert]
      by_cases hzx : z = x
      · subst hzx
        rw [if_neg hxy, if_pos rfl, if_pos rfl]
        exact .some hv
      · rw [if_neg hzx, if_neg hzx]
        split
        · exact .some hw
        · exact hf.bindings z
    · exact h.frames i

/-! ### Definitions -/

/-- A datum of the form `(def! name (fn* parameters body))`, wherever it is written. -/
inductive Value.DefinesFunction (name : String) : Value → Prop
  | intro (l₁ l₂ l₃ l₄ l₅ : Location) {parameters body : Value} : parameters.Written → body.Written →
      DefinesFunction name (.list l₁ [.symbol l₂ defineName, .symbol l₃ name,
        .list l₄ [.symbol l₅ Primitive.lambda.name, parameters, body]])

/-- The root binds `fn*` to the primitive that makes closures. -/
def Store.BindsLambda (s : Store) : Prop :=
  ∃ l i, s.binding? rootFrame Primitive.lambda.name = some (.primitive l i .lambda)

/-- The store after a new function has been bound to a name in the root. -/
def Store.addFunction (s : Store) (name : String) (make : FunctionId → Value) : Store :=
  s.newFunction.2.insert rootFrame name (make s.functions)

theorem Store.BindsLambda.addFunction {s : Store} (h : s.BindsLambda) {name : String}
    (hname : name ≠ Primitive.lambda.name) (make : FunctionId → Value) :
    (s.addFunction name make).BindsLambda := by
  obtain ⟨l, i, hl⟩ := h
  refine ⟨l, i, ?_⟩
  rw [Store.addFunction, binding?_insert, if_neg fun h => hname h.2.1.symm]
  exact hl

theorem Value.Written.isNop_eq_false {v : Value} (h : v.Written) : v.isNop = false := by
  cases v with
  | nop l message => exact absurd rfl h.self.2
  | _ => rfl

section

variable {s : Store} {log : List Event} {p body : Value}

theorem run_eval_symbol {frame : FrameId} {x : String} {v : Value}
    (h : s.binding? frame x = some v) (depth : Nat) (l : Location) :
    (eval (depth + 1) frame (.symbol l x)).run ⟨s, log⟩ =
      (.ok (v.moveTo l), ⟨s, .evaluation (.symbol l x) :: log⟩) := by
  show (evalContents (eval depth) frame (.symbol l x)).run _ = _
  rw [evalContents, run_emit_bind, lookup, run_getStore_bind, Store.get]
  simp only [Value.symbol?, Store.find?_of_binding? h]
  rfl

theorem run_callPrimitive_lambda (frame : FrameId) (l : Location) :
    ∃ log', (callPrimitive frame l .lambda [p, body]).run ⟨s, log⟩ =
      match parametersOf l p with
      | .error f => (.error (.failed (.fault f)), ⟨s, log'⟩)
      | .ok parameters =>
        (.ok (.closure l s.functions parameters body frame), ⟨s.newFunction.2, log'⟩) := by
  rw [callPrimitive, if_pos (by rfl), run_emit_bind, run_getStore_bind]
  simp only [Store.primitive?, Store.lambda?]
  cases parametersOf l p with
  | error f => exact ⟨_, rfl⟩
  | ok parameters => exact ⟨_, rfl⟩

variable (hs : s.BindsLambda) (hp : p.Written) (hbody : body.Written)

include hs hp hbody

/-- `fn*` makes a closure if its first operand gives parameters. -/
theorem run_evaluate_lambda (depth : Nat) (l l' : Location) :
    ∃ log', (evaluate (depth + 2) (.list l [.symbol l' Primitive.lambda.name, p, body])).run ⟨s, log⟩ =
      match parametersOf l' p with
      | .error f => (.error (.failed (.fault f)), ⟨s, log'⟩)
      | .ok parameters =>
        (.ok (.closure l' s.functions parameters body Store.rootFrame), ⟨s.newFunction.2, log'⟩) := by
  obtain ⟨l₀, i, hlambda⟩ := hs
  have hdefine : ¬ some Primitive.lambda.name = some defineName := by decide
  have hlet : ¬ some Primitive.lambda.name = some letName := by decide
  have hfind : [p, body].find? Value.isNop = none := by
    simp [hp.isNop_eq_false, hbody.isNop_eq_false]
  rw [evaluate, eval, evalStep, evalForm, run_emit_bind, Value.symbol?, if_neg hdefine, if_neg hlet,
    run_bind, run_eval_symbol hlambda]
  show ∃ log', (apply _ _ (.primitive l' i .lambda) [p, body]).run _ = _
  rw [apply, hfind]
  exact run_callPrimitive_lambda Store.rootFrame l'

/-- A definition binds the closure to the name. -/
theorem run_evaluate_define (log : List Event) (depth : Nat) (name : String) (l₁ l₂ l₃ l₄ l₅ : Location) :
    ∃ log', (evaluate (depth + 3) (.list l₁ [.symbol l₂ defineName, .symbol l₃ name,
        .list l₄ [.symbol l₅ Primitive.lambda.name, p, body]])).run ⟨s, log⟩ =
      match parametersOf l₅ p with
      | .error f => (.error (.failed (.fault f)), ⟨s, log'⟩)
      | .ok parameters =>
        (.ok (.closure l₅ s.functions parameters body Store.rootFrame),
          ⟨s.addFunction name fun i => .closure l₅ i parameters body Store.rootFrame, log'⟩) := by
  rw [evaluate, eval, evalStep, evalForm, run_emit_bind, if_pos (by rfl), run_bind, define]
  simp only [Value.symbol?]
  obtain ⟨log', hlog'⟩ := run_evaluate_lambda hs hp hbody depth l₄ l₅
  rw [evaluate] at hlog'
  rw [run_bind, hlog']
  cases parametersOf l₅ p with
  | error f => exact ⟨_, rfl⟩
  | ok parameters => exact ⟨_, rfl⟩

end

/-- **What a definition leaves behind.**  Whether it succeeds depends on the datum alone, and so does
the function that it makes, but for its identity. -/
theorem Value.DefinesFunction.run_evaluate {s : Store} {name : String} {d v : Value} {depth : Nat}
    {log : List Event} (h : d.DefinesFunction name) (hs : s.BindsLambda)
    (hv : ((evaluate depth d).run ⟨s, log⟩).1 = .ok v) :
    ∃ (l : Location) (parameters : Parameters) (body : Value), body.Written ∧
      ∀ (t : Store) (log : List Event), t.BindsLambda →
        ((evaluate depth d).run ⟨t, log⟩).2.store =
          t.addFunction name fun i => .closure l i parameters body Store.rootFrame := by
  obtain @⟨l₁, l₂, l₃, l₄, l₅, p, body, hp, hbody⟩ := h
  -- A definition takes three levels: its own, that of the list with `fn*` and that of the symbol.
  match depth with
  | 0 => cases hv
  | 1 => cases hv
  | 2 => cases hv
  | depth + 3 =>
    cases hparameters : parametersOf l₅ p with
    | error f =>
      obtain ⟨log', hrun⟩ := run_evaluate_define hs hp hbody log depth name l₁ l₂ l₃ l₄ l₅
      rw [hrun, hparameters] at hv
      cases hv
    | ok parameters =>
      refine ⟨l₅, parameters, body, hbody, fun t log ht => ?_⟩
      obtain ⟨log', hrun⟩ := run_evaluate_define ht hp hbody log depth name l₁ l₂ l₃ l₄ l₅
      rw [hrun, hparameters]

/-- Two new functions may be bound in either order: their identities are exchanged. -/
theorem Store.Numbered.matches_addFunction {s : Store} (hs : s.Numbered) {f g : String} (hfg : f ≠ g)
    {l l' : Location} {p q : Parameters} {b c : Value} (hb : b.Written) (hc : c.Written) :
    let σ := Equiv.swap s.functions (s.functions + 1)
    let make := fun i => Value.closure l i p b rootFrame
    let make' := fun i => Value.closure l' i q c rootFrame
    ((s.addFunction f make).addFunction g make').Matches (.renaming σ)
      ((s.addFunction g make').addFunction f make) := by
  intro σ make make'
  have hmake : ∀ {i j : FunctionId}, σ i = j →
      (make i).Matches (.renaming σ) (make j) ∧ (make' i).Matches (.renaming σ) (make' j) :=
    fun h => ⟨.closure p rootFrame rfl h (hb.matches_self fun _ => rfl),
      .closure q rootFrame rfl h (hc.matches_self fun _ => rfl)⟩
  -- The swap moves no identity that the store has given out before or will give out later.
  have hfixed : ∀ i, i < s.functions ∨ s.functions + 2 ≤ i → σ i = i :=
    fun i hi => Equiv.swap_apply_of_ne_of_ne (by omega) (by omega)
  have hself : Store.Matches (.renaming σ) ⟨s.frames, s.functions + 2⟩ ⟨s.frames, s.functions + 2⟩ := by
    refine matches_self (fun _ => rfl) (fun _ => rfl) (fun hv => ?_) fun i hi => hfixed i (Or.inr hi)
    exact Value.Everywhere.mono (hs.binding hv) fun w hw i hi => hfixed i (Or.inl (hw.2 i hi))
  exact hself.insert_comm rootFrame hfg (hmake (Equiv.swap_apply_left _ _)).1
    (hmake (Equiv.swap_apply_right _ _)).2

/-- **Definitions of functions commute.**  In any session that requests lead to, and whose root still
binds `fn*` to its primitive, take two definitions of functions, under names that are distinct and not
`fn*`, which both succeed.  Evaluate them in one order and in the other.  Whatever lines the two sessions
are asked to answer from then on, the answers have the same texts and the same locations. -/
theorem definitions_commute {settings : Settings} {s : Session} (hs : s.Reached settings)
    (hlambda : s.store.BindsLambda) {f g : String} (hfg : f ≠ g) (hf : f ≠ Primitive.lambda.name)
    (hg : g ≠ Primitive.lambda.name) {d d' : Value} (hd : d.DefinesFunction f)
    (hd' : d'.DefinesFunction g) {n n' : Nat} {v v' : Value}
    (hv : (s.perform (evaluate n d)).result = .ok v)
    (hv' : (s.perform (evaluate n' d')).result = .ok v') (depth : Nat) (lines : List String) :
    ((s.perform (evaluate n d)).session.perform (evaluate n' d')).session.replies depth lines =
      ((s.perform (evaluate n' d')).session.perform (evaluate n d)).session.replies depth lines := by
  obtain ⟨l, p, b, hb, hrun⟩ := hd.run_evaluate hlambda hv
  obtain ⟨l', q, c, hc, hrun'⟩ := hd'.run_evaluate hlambda hv'
  refine replies_eq_of_matches (Equiv.swap s.store.functions (s.store.functions + 1)) depth lines ?_
  show ((evaluate n' d').run ⟨((evaluate n d).run ⟨s.store, []⟩).2.store, []⟩).2.store.Matches _
    ((evaluate n d).run ⟨((evaluate n' d').run ⟨s.store, []⟩).2.store, []⟩).2.store
  rw [hrun _ _ hlambda, hrun' _ _ hlambda, hrun _ _ (hlambda.addFunction hg _),
    hrun' _ _ (hlambda.addFunction hf _)]
  exact hs.numbered.matches_addFunction hfg hb hc

/-- Two functions that call each other may be defined in either order. -/
theorem definitions_commute_mutual :
    let calling := fun name other => Value.list ⟨1, 1⟩ [.symbol ⟨1, 2⟩ "def!", .symbol ⟨1, 7⟩ name,
      .list ⟨1, 9⟩ [.symbol ⟨1, 10⟩ "fn*", .list ⟨1, 14⟩ [], .list ⟨1, 17⟩ [.symbol ⟨1, 18⟩ other]]]
    let f := evaluate 3 (calling "f" "g")
    let g := evaluate 3 (calling "g" "f")
    let s := Session.fresh .default
    ((s.perform f).session.perform g).session.replies 9 ["(= f g)", "(f)", "g"] =
      ((s.perform g).session.perform f).session.replies 9 ["(= f g)", "(f)", "g"] := by
  intro calling f g s
  have hlambda : s.store.BindsLambda := ⟨.builtin, 18, by cbv⟩
  have hempty : (Value.list ⟨1, 14⟩ []).Written := Reader.written_list (by simp)
  have hdefines : ∀ name other, (calling name other).DefinesFunction name := by
    intro name other
    have hother : (Value.symbol ⟨1, 18⟩ other).Written :=
      Reader.written_atom ⟨by simp [Value.tag], by simp [Value.tag]⟩ rfl
    exact .intro _ _ _ _ _ hempty (Reader.written_list (by simpa using hother))
  have hf : (s.perform f).result = .ok (.closure ⟨1, 10⟩ 27 ⟨[], none⟩
      (.list ⟨1, 17⟩ [.symbol ⟨1, 18⟩ "g"]) Store.rootFrame) := by
    unfold f calling
    cbv
  have hg : (s.perform g).result = .ok (.closure ⟨1, 10⟩ 27 ⟨[], none⟩
      (.list ⟨1, 17⟩ [.symbol ⟨1, 18⟩ "f"]) Store.rootFrame) := by
    unfold g calling
    cbv
  have hs : s.Reached .default := .fresh
  exact definitions_commute hs hlambda (by decide) (by decide) (by decide)
    (hdefines "f" "g") (hdefines "g" "f") hf hg 9 _

end MiniLisp
