import MiniLisp.Proofs.Eval.Calls
import MiniLisp.Proofs.Store.Growth
import MiniLisp.Proofs.Value.Everywhere

/-!
# What evaluations yield

An evaluation is described by what it keeps and how it can end: `e.Yields I F Q s` says that `e`,
started on the store `s`, leaves a store that has grown and satisfies `I`, that a value satisfies `Q`,
and that a failure is one of `F`.  There is one rule for each way to put evaluations together.

A `Trait` is a property of values that is asked at every depth.  The primitives keep any trait, since
what they make consists of their operands.

* `Eval.Yields.bind`: one evaluation after the other.
* `Value.everywhere_result?`: what primitives make consists of their operands.
* `result?_error`, `parametersOf_error`: what primitives blame if they fail.
* `Trait.of_result?`: **primitives keep traits**.
* `yields_callPrimitive`: so do calls of them, if the closures that `fn*` makes have the trait.
-/

namespace MiniLisp

open Eval

/-- An outcome that began with a store: the store has grown, and it satisfies `I`; a value satisfies
`Q` in it; and a failure is one of `F`. -/
structure Ends {α : Type} (I : Store → Prop) (F : Failure → Prop) (Q : Store → α → Prop) (s : Store)
    (o : Except Stop α × Machine) : Prop where
  grows : s.Grows o.2.store
  store : I o.2.store
  value : ∀ {a : α}, o.1 = .ok a → Q o.2.store a
  failure : ∀ {f : Failure}, o.1 = .error (.failed f) → F f

/-- An evaluation that ends in a certain way if it is started on a store. -/
def Eval.Yields {α : Type} (I : Store → Prop) (F : Failure → Prop) (Q : Store → α → Prop)
    (e : Eval α) (s : Store) : Prop :=
  ∀ log, Ends I F Q s (e.run ⟨s, log⟩)

section

variable {α β : Type} {I : Store → Prop} {F : Failure → Prop} {Q : Store → α → Prop}
  {R : Store → β → Prop} {s : Store}

theorem Eval.Yields.bind {e : Eval α} {f : α → Eval β} (he : e.Yields I F Q s)
    (hf : ∀ t a, s.Grows t → I t → Q t a → (f a).Yields I F R t) : (e >>= f).Yields I F R s := by
  intro log
  have he := he log
  rw [run_bind]
  generalize e.run ⟨s, log⟩ = o at he ⊢
  obtain ⟨r, t, log'⟩ := o
  cases r with
  | ok a =>
    have hf := hf t a he.grows he.store (he.value rfl) log'
    exact ⟨he.grows.trans hf.grows, hf.store, hf.value, hf.failure⟩
  | error stop =>
    refine ⟨he.grows, he.store, nofun, fun h => ?_⟩
    cases h
    exact he.failure rfl

theorem Eval.Yields.mono {F' : Failure → Prop} {Q' : Store → α → Prop} {e : Eval α}
    (he : e.Yields I F Q s) (hF : ∀ f, F f → F' f) (hQ : ∀ t a, Q t a → Q' t a) :
    e.Yields I F' Q' s := by
  intro log
  have he := he log
  exact ⟨he.grows, he.store, fun h => hQ _ _ (he.value h), fun h => hF _ (he.failure h)⟩

theorem yields_pure {a : α} (hs : I s) (ha : Q s a) : (pure a : Eval α).Yields I F Q s :=
  fun _ => ⟨.refl s, hs, fun h => (by cases h; exact ha), nofun⟩

theorem yields_stop {stop : Stop} (hs : I s) (hstop : ∀ f, stop = .failed f → F f) :
    (Eval.stop stop : Eval α).Yields I F Q s :=
  fun _ => ⟨.refl s, hs, nofun, fun h => (by cases h; exact hstop _ rfl)⟩

theorem yields_fail {cause : Cause} {l : Location} (hs : I s) (hF : F (.fault ⟨cause, l⟩)) :
    (fail cause l : Eval α).Yields I F Q s :=
  yields_stop hs fun _ h => by cases h; exact hF

theorem yields_emit_bind {e : Event} {f : Unit → Eval β} (h : (f ()).Yields I F R s) :
    (emit e >>= f).Yields I F R s :=
  fun log => h (e :: log)

theorem yields_getStore_bind {f : Store → Eval β} (h : (f s).Yields I F R s) :
    (getStore >>= f).Yields I F R s :=
  h

theorem yields_update_bind {g : Store → Store} {f : Unit → Eval β} (hg : s.Grows (g s))
    (h : (f ()).Yields I F R (g s)) : (update g >>= f).Yields I F R s :=
  fun log => { h log with grows := hg.trans (h log).grows }

theorem yields_spawn_bind {parent : FrameId} {f : FrameId → Eval β}
    (h : (f s.frames.size).Yields I F R (s.spawn parent).2) :
    (spawn parent >>= f).Yields I F R s :=
  fun log => { h log with grows := (s.grows_spawn parent).trans (h log).grows }

/-- Where failures are answered, an evaluation fails no more. -/
theorem yields_recover {e : Eval α} {handle : Failure → α} (he : e.Yields I F Q s)
    (hhandle : ∀ t f, F f → Q t (handle f)) :
    (e.recover handle).Yields I (fun _ => False) Q s := by
  intro log
  have he := he log
  show Ends I _ Q s (e.recover handle ⟨s, log⟩)
  rw [recover]
  rw [Eval.run] at he
  generalize e ⟨s, log⟩ = o at he ⊢
  obtain ⟨r, m⟩ := o
  cases r with
  | ok a => exact ⟨he.grows, he.store, he.value, nofun⟩
  | error stop =>
    cases stop with
    | failed f =>
      refine ⟨he.grows, he.store, fun h => ?_, nofun⟩
      cases h
      exact hhandle _ f (he.failure rfl)
    | stuck => exact ⟨he.grows, he.store, nofun, nofun⟩
    | tooDeep => exact ⟨he.grows, he.store, nofun, nofun⟩

theorem yields_lookup {frame : FrameId} {key : Value} {Q : Store → Value → Prop} (hs : I s)
    (hok : ∀ v, s.get frame key = .ok v → Q s v)
    (herror : ∀ f, s.get frame key = .error f → F (.fault f)) :
    (lookup frame key).Yields I F Q s := by
  refine yields_getStore_bind ?_
  cases h : s.get frame key with
  | ok v => exact yields_pure hs (hok v h)
  | error f => exact yields_stop hs fun _ h' => by cases h'; exact herror f h

theorem yields_lift_bind {r : Except Fault α} {f : α → Eval β} (hs : I s)
    (herror : ∀ fault, r = .error fault → F (.fault fault))
    (hok : ∀ a, r = .ok a → (f a).Yields I F R s) : (lift r >>= f).Yields I F R s := by
  cases r with
  | ok a => exact hok a rfl
  | error fault => exact fun log => yields_stop hs (fun _ h => by cases h; exact herror _ rfl) log

end

/-! ### What primitives make -/

/-- The kinds of value that primitives make out of their operands. -/
def Tag.isPlain : Tag → Bool
  | .symbol | .keyword | .function | .nop => false
  | _ => true

namespace Value

variable {p : Value → Prop} {v : Value} {vs : List Value} {l : Location}

/-- **What holds everywhere in the operands of a primitive holds everywhere in its result**, if it holds
of the values of a plain kind at the head of the call. -/
theorem everywhere_result? {code : Primitive}
    (hplain : ∀ {w : Value}, w.tag.isPlain = true → w.location = l → p w)
    (hvs : ∀ w ∈ vs, w.Everywhere p) (h : code.result? l vs = some (.ok v)) : v.Everywhere p := by
  have hatom : ∀ {w : Value}, w.tag.isPlain = true → w.location = l → w.parts = [] →
      w.Everywhere p :=
    fun htag hlocation => .atom (hplain htag hlocation)
  cases code with
  | arithmetic operation =>
    simp only [Primitive.result?] at h
    split at h
    · cases h
    · obtain ⟨r, _, hv⟩ := Option.map_eq_some_iff.mp h
      cases r with
      | ok x => cases hv; exact hatom rfl rfl rfl
      | error f => cases hv
  | compare relation =>
    simp only [Primitive.result?, Option.some.injEq] at h
    cases hxs : numbers relation.name l vs with
    | ok xs => rw [hxs] at h; cases h; exact hatom rfl rfl rfl
    | error f => rw [hxs] at h; cases h
  | equal => cases h; exact hatom rfl rfl rfl
  | list => cases h; exact .intro (hplain rfl rfl) hvs
  | vector => cases h; exact .intro (hplain rfl rfl) hvs
  | last =>
    obtain ⟨w, hw, hv⟩ := Option.map_eq_some_iff.mp h
    cases hv
    exact hvs v (List.mem_of_getLast? hw)
  | lambda => cases h
  | print => cases h; exact hatom rfl rfl rfl
  | ask question =>
    cases vs with
    | nil => cases h
    | cons w ws => cases h; exact hatom rfl rfl rfl
  | isEmpty =>
    cases vs with
    | nil => cases h
    | cons w ws =>
      simp only [Primitive.result?] at h
      split at h
      · cases h; exact hatom rfl rfl rfl
      · cases h
  | count =>
    cases vs with
    | nil => cases h
    | cons w ws => cases h; exact hatom rfl rfl rfl
  | not =>
    cases vs with
    | nil => cases h
    | cons w ws => cases h; exact hatom rfl rfl rfl
  | quote =>
    cases vs with
    | nil => cases h
    | cons w ws => cases h; exact hvs v List.mem_cons_self
  | choose =>
    cases vs with
    | nil => cases h
    | cons test vs =>
      cases vs with
      | nil => cases h
      | cons yes others =>
        cases h
        split
        · exact hvs yes (by simp)
        · cases others with
          | nil => exact hatom rfl rfl rfl
          | cons no rest => exact hvs no (by simp)

end Value

/-! ### Traits -/

/-- What is asked of every value that a store holds, at every depth.  It stays true while the store
grows, it does not depend on the location of the value, and nothing is asked of values of a plain
kind. -/
structure Trait where
  node : Store → Value → Prop
  mono : ∀ {s t : Store} {v : Value}, s.Grows t → node s v → node t v
  moveTo : ∀ {s : Store} {v : Value} (l : Location), node s v → node s (v.moveTo l)
  plain : ∀ (s : Store) {v : Value}, v.tag.isPlain = true → node s v

namespace Trait

/-- A value has a trait at every depth. -/
def Holds (T : Trait) (s : Store) (v : Value) : Prop :=
  v.Everywhere (T.node s)

variable {T : Trait} {s t : Store} {v : Value} {vs : List Value} {l : Location}

theorem Holds.part (h : T.Holds s v) {w : Value} (hw : w ∈ v.parts) : T.Holds s w :=
  Value.Everywhere.part h hw

theorem Holds.grows (h : T.Holds s v) (hst : s.Grows t) : T.Holds t v :=
  Value.Everywhere.mono h fun _ => T.mono hst

theorem Holds.moveTo (h : T.Holds s v) (l : Location) : T.Holds s (v.moveTo l) :=
  Value.Everywhere.moveTo h (T.moveTo l h.self)

theorem holds_plain (hv : v.tag.isPlain = true) (hparts : ∀ w ∈ v.parts, T.Holds s w) :
    T.Holds s v :=
  .intro (T.plain s hv) hparts

theorem holds_list (hvs : ∀ w ∈ vs, T.Holds s w) : T.Holds s (.list l vs) :=
  holds_plain rfl hvs

theorem holds_vector (hvs : ∀ w ∈ vs, T.Holds s w) : T.Holds s (.vector l vs) :=
  holds_plain rfl hvs

theorem holds_map {es : List (Value × Value)} (hes : ∀ e ∈ es, T.Holds s e.1 ∧ T.Holds s e.2) :
    T.Holds s (.map l es) := by
  refine holds_plain rfl fun w hw => ?_
  obtain ⟨e, he, rfl | rfl⟩ := Value.mem_parts_map.mp hw
  · exact (hes e he).1
  · exact (hes e he).2

/-- **Primitives keep traits**: what they make consists of their operands. -/
theorem of_result? {p : Primitive} (hvs : ∀ w ∈ vs, T.Holds s w)
    (h : p.result? l vs = some (.ok v)) : T.Holds s v :=
  Value.everywhere_result? (fun htag _ => T.plain s htag) hvs h

end Trait

/-! ### Faults of primitives -/

/-- Whether a cause has nothing to do with a name that is not bound, or with a nothing. -/
def Cause.isOrdinary : Cause → Bool
  | .nopOperand | .undefinedSymbol _ => false
  | _ => true

/-- All faults with ordinary causes are among some failures. -/
def Permits (F : Failure → Prop) : Prop :=
  ∀ cause l, cause.isOrdinary = true → F (.fault ⟨cause, l⟩)

section

variable {l : Location} {vs : List Value} {f : Fault}

theorem numbers_error {operator : String} (h : numbers operator l vs = .error f) :
    ∃ got, f = ⟨.typeMismatch operator .number got, l⟩ := by
  induction vs with
  | nil => cases h
  | cons v vs ih =>
    rw [numbers] at h
    split at h
    · cases h; exact ⟨v.tag, rfl⟩
    · cases hxs : numbers operator l vs with
      | ok xs => rw [hxs] at h; cases h
      | error f' =>
        rw [hxs] at h
        cases h
        exact ih hxs

/-- A primitive that fails blames the head of its call, and if it names an operator, it names itself. -/
theorem result?_error {code : Primitive} (h : code.result? l vs = some (.error f)) :
    f.location = l ∧ (f.cause = .divideByZero ∨
      ∃ expected got, f.cause = .typeMismatch code.name expected got) := by
  unfold Primitive.result? at h
  split at h
  case h_1 _ operation =>
    split at h
    · next hxs =>
      cases h
      obtain ⟨got, rfl⟩ := numbers_error hxs
      exact ⟨rfl, Or.inr ⟨_, _, rfl⟩⟩
    · next xs _ =>
      obtain ⟨r, hr, hv⟩ := Option.map_eq_some_iff.mp h
      cases r with
      | ok x => cases hv
      | error f' =>
        cases hv
        unfold Arithmetic.result? at hr
        split at hr
        case h_4 =>
          split at hr
          · cases hr; exact ⟨rfl, Or.inl rfl⟩
          · cases hr
        all_goals cases hr
  case h_2 _ relation =>
    cases hxs : numbers relation.name l vs with
    | ok xs => rw [hxs] at h; cases h
    | error f' =>
      rw [hxs] at h
      cases h
      obtain ⟨got, rfl⟩ := numbers_error hxs
      exact ⟨rfl, Or.inr ⟨_, _, rfl⟩⟩
  case h_7 =>
    split at h
    · cases h
    · cases h; exact ⟨rfl, Or.inr ⟨_, _, rfl⟩⟩
  case h_10 =>
    obtain ⟨w, _, hv⟩ := Option.map_eq_some_iff.mp h
    cases hv
  all_goals cases h

theorem ordinary_result? {code : Primitive} (h : code.result? l vs = some (.error f)) :
    f.cause.isOrdinary = true := by
  rcases (result?_error h).2 with hcause | ⟨expected, got, hcause⟩
  · rw [hcause]; rfl
  · rw [hcause]; rfl

theorem parameterNames_error (h : parameterNames vs = .error f) :
    ∃ v ∈ vs, f = ⟨.lambdaParameter v.tag, v.location⟩ := by
  induction vs with
  | nil => cases h
  | cons v vs ih =>
    rw [parameterNames] at h
    split at h
    · cases h; exact ⟨v, List.mem_cons_self, rfl⟩
    · cases hnames : parameterNames vs with
      | ok names => rw [hnames] at h; cases h
      | error f' =>
        rw [hnames] at h
        cases h
        obtain ⟨w, hw, rfl⟩ := ih hnames
        exact ⟨w, List.mem_cons_of_mem v hw, rfl⟩

/-- If `fn*` fails, it blames its first operand, an element of it, or the head of the call. -/
theorem parametersOf_error {v : Value} (h : parametersOf l v = .error f) :
    f = ⟨.lambdaParameters v.tag, v.location⟩ ∨
      (∃ vs, v.elements? = some vs ∧ ∃ w ∈ vs, f = ⟨.lambdaParameter w.tag, w.location⟩) ∨
      ∃ reason, f = ⟨.lambdaNames reason, l⟩ := by
  unfold parametersOf at h
  split at h
  · cases h; exact Or.inl rfl
  · next vs hvs =>
    split at h
    · next hnames =>
      cases h
      exact Or.inr (Or.inl ⟨vs, hvs, parameterNames_error hnames⟩)
    · split at h
      · next reason _ => cases h; exact Or.inr (Or.inr ⟨reason, rfl⟩)
      · cases h

theorem ordinary_parametersOf {v : Value} (h : parametersOf l v = .error f) :
    f.cause.isOrdinary = true := by
  rcases parametersOf_error h with rfl | ⟨vs, _, w, _, rfl⟩ | ⟨reason, rfl⟩
  · rfl
  · rfl
  · rfl

end

/-! ### Calls and sequences -/

section

variable {T : Trait} {I : Store → Prop} {F : Failure → Prop} {s : Store} {frame : FrameId}
  {l : Location} {vs : List Value}

/-- A fault with an ordinary cause. -/
theorem yields_fault {α : Type} {Q : Store → α → Prop} (hF : Permits F) (hs : I s) {cause : Cause}
    (hcause : cause.isOrdinary = true) : (fail cause l : Eval α).Yields I F Q s :=
  yields_fail hs (hF cause l hcause)

/-- A call of a primitive.  What has to be known of the closures that `fn*` makes is `hmake`. -/
theorem yields_callPrimitive (hF : Permits F) (hs : I s) {code : Primitive}
    (hvs : ∀ w ∈ vs, T.Holds s w)
    (hmake : code = .lambda → ∀ v body rest parameters, vs = v :: body :: rest →
      parametersOf l v = .ok parameters → I s.newFunction.2 ∧
        T.Holds s.newFunction.2 (.closure l s.functions parameters body frame)) :
    (callPrimitive frame l code vs).Yields I F T.Holds s := by
  unfold callPrimitive
  split
  · refine yields_emit_bind (yields_getStore_bind ?_)
    by_cases hcode : code = .lambda
    · subst hcode
      rcases vs with _ | ⟨v, _ | ⟨body, rest⟩⟩
      · exact yields_stop hs (by simp)
      · exact yields_stop hs (by simp)
      · simp only [Store.primitive?, Store.lambda?]
        cases hv : parametersOf l v with
        | error f =>
          refine yields_update_bind (.refl s) (yields_emit_bind (yields_stop hs ?_))
          intro _ h
          cases h
          exact hF _ _ (ordinary_parametersOf hv)
        | ok parameters =>
          obtain ⟨hI, hclosure⟩ := hmake rfl v body rest parameters rfl hv
          refine yields_update_bind (Store.Grows.refl s) (yields_emit_bind ?_)
          exact yields_pure hI hclosure
    · have hresult : s.primitive? frame code l vs =
          (code.result? l vs).map fun result => (result, s) := by
        unfold Store.primitive?
        split
        · exact absurd rfl hcode
        · rfl
      rw [hresult]
      cases h : code.result? l vs with
      | none => exact yields_stop hs (by simp)
      | some r =>
        cases r with
        | ok v =>
          refine yields_update_bind (.refl s) (yields_emit_bind (yields_pure hs ?_))
          exact T.of_result? hvs h
        | error f =>
          refine yields_update_bind (.refl s) (yields_emit_bind (yields_stop hs ?_))
          intro _ h'
          cases h'
          exact hF _ _ (ordinary_result? h)
  · exact yields_fault hF hs rfl

/-- What holds everywhere in the operands of a closure holds everywhere in what its call binds, if it
holds of lists at the head of the call. -/
theorem Value.everywhere_bind? {q : Value → Prop} {p : Parameters} {pairs : List (String × Value)}
    (hlist : ∀ ws, q (.list l ws)) (hvs : ∀ w ∈ vs, w.Everywhere q)
    (h : p.bind? l vs = some pairs) : ∀ r ∈ pairs, r.2.Everywhere q := by
  obtain ⟨-, rfl⟩ := Parameters.bind?_eq_some_iff.mp h
  intro r hr
  rcases List.mem_append.mp hr with hr | hr
  · exact hvs _ (List.mem_of_mem_take (List.of_mem_zip hr).2)
  · obtain ⟨rest, -, rfl⟩ := List.mem_map.mp hr
    exact .intro (hlist _) fun w hw => hvs w (List.mem_of_mem_drop hw)

theorem Trait.of_bind? {p : Parameters} {pairs : List (String × Value)}
    (hvs : ∀ w ∈ vs, T.Holds s w) (h : p.bind? l vs = some pairs) :
    ∀ q ∈ pairs, T.Holds s q.2 :=
  Value.everywhere_bind? (fun _ => T.plain s rfl) hvs h

variable {recur : Evaluator}

/-- A call of a closure, if its body can be evaluated where the operands are bound. -/
theorem yields_callClosure (hF : Permits F) (hs : I s) {p : Parameters} {body : Value}
    {captured : FrameId} (hspawn : I (s.spawn captured).2)
    (hbody : ∀ pairs, p.bind? l vs = some pairs → (recur s.frames.size body).Yields I F T.Holds
      ((s.spawn captured).2.insertAll s.frames.size pairs)) :
    (callClosure recur l p body captured vs).Yields I F T.Holds s := by
  refine yields_emit_bind (yields_getStore_bind ?_)
  dsimp only
  split
  · refine yields_spawn_bind ?_
    cases hpairs : p.bind? l vs with
    | none => exact yields_stop hspawn (by simp)
    | some pairs => exact yields_update_bind (Store.grows_insertAll _ _ _) (hbody pairs hpairs)
  · exact yields_fault hF hs rfl

/-- A definition, if its value can be evaluated and bound. -/
theorem yields_define (hF : Permits F) (hs : I s)
    (h : ∀ key v x, vs = [key, v] → key.symbol? = some x → (recur frame v).Yields I F T.Holds s ∧
      ∀ t w, I t → T.Holds t w → I (t.insert frame x w)) :
    (define recur frame l vs).Yields I F T.Holds s := by
  unfold define
  split
  · next key v =>
    split
    · exact yields_fault hF hs rfl
    · next x hx =>
      obtain ⟨hv, hinsert⟩ := h key v x rfl hx
      refine hv.bind fun t w _ ht hw => ?_
      have hgrows := t.grows_insert frame x w
      exact yields_update_bind hgrows (yields_pure (hinsert t w ht hw) (hw.grows hgrows))
  · exact yields_fault hF hs rfl

theorem yields_evalElements (hs : I s) (h : ∀ v ∈ vs, ∀ t, s.Grows t → I t →
      (recur frame v).Yields I F T.Holds t) :
    (evalElements recur frame vs).Yields I F (fun t ws => ∀ w ∈ ws, T.Holds t w) s := by
  induction vs generalizing s with
  | nil => exact yields_pure hs (by simp)
  | cons v vs ih =>
    refine (h v List.mem_cons_self s (.refl s) hs).bind fun t w hst ht hw => ?_
    refine (ih ht ?_).bind fun u ws htu hu hws => yields_pure hu ?_
    · intro v hv u htu hu
      exact h v (List.mem_cons_of_mem _ hv) u (hst.trans htu) hu
    · intro x hx
      rcases List.mem_cons.mp hx with rfl | hx
      · exact hw.grows htu
      · exact hws x hx

theorem yields_evalEntries {es : List (Value × Value)} (hs : I s)
    (hkeys : ∀ e ∈ es, T.Holds s e.1) (h : ∀ e ∈ es, ∀ t, s.Grows t → I t →
      (recur frame e.2).Yields I F T.Holds t) :
    (evalEntries recur frame es).Yields I F
      (fun t es => ∀ e ∈ es, T.Holds t e.1 ∧ T.Holds t e.2) s := by
  induction es generalizing s with
  | nil => exact yields_pure hs (by simp)
  | cons e es ih =>
    obtain ⟨key, v⟩ := e
    refine (h _ List.mem_cons_self s (.refl s) hs).bind fun t w hst ht hw => ?_
    refine (ih ht ?_ ?_).bind fun u ws htu hu hws => yields_pure hu ?_
    · exact fun e he => (hkeys e (List.mem_cons_of_mem _ he)).grows hst
    · intro e he u htu hu
      exact h e (List.mem_cons_of_mem _ he) u (hst.trans htu) hu
    · intro x hx
      rcases List.mem_cons.mp hx with rfl | hx
      · exact ⟨(hkeys _ List.mem_cons_self).grows (hst.trans htu), hw.grows htu⟩
      · exact hws x hx

end

end MiniLisp
