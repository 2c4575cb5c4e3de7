import MiniLisp.Proofs.Eval.Yields

/-!
# Runs that agree

One program is run twice, on two stores that differ in something that the program never comes to see.
Both runs then have the same result: the same value, the same failure, or none at all.

An `Agreement` says in what the stores may differ.  Along with that goes what is asked of the values
that the runs work with, at every depth, and which values may be evaluated in which frame: a frame from
which the difference could be seen admits only code that does not look there.

If the two stores are one, an agreement is an invariant of a single run.

* `Agreement.Agrees`: two evaluations that have the same result and leave stores that agree.
* `Agreement.agrees_eval`: **evaluation keeps runs in agreement**.
-/

namespace MiniLisp

open Eval

namespace Store

/-- A store that has come of another one: it has grown, and no function has been forgotten. -/
structure Extends (s t : Store) : Prop where
  grows : s.Grows t
  functions : s.functions ≤ t.functions

variable {s t u : Store}

namespace Extends

theorem refl (s : Store) : s.Extends s :=
  ⟨.refl s, Nat.le_refl _⟩

theorem trans (h : s.Extends t) (h' : t.Extends u) : s.Extends u :=
  ⟨h.grows.trans h'.grows, Nat.le_trans h.functions h'.functions⟩

theorem lt_size (h : s.Extends t) {frame : FrameId} (hframe : frame < s.frames.size) :
    frame < t.frames.size :=
  h.grows.lt_size hframe

end Extends

theorem extends_insert (s : Store) (frame : FrameId) (x : String) (v : Value) :
    s.Extends (s.insert frame x v) :=
  ⟨s.grows_insert frame x v, Nat.le_refl _⟩

theorem extends_spawn (s : Store) (parent : FrameId) : s.Extends (s.spawn parent).2 :=
  ⟨s.grows_spawn parent, Nat.le_refl _⟩

theorem extends_newFunction (s : Store) : s.Extends s.newFunction.2 :=
  ⟨Grows.refl s, Nat.le_succ _⟩

theorem extends_insertAll (s : Store) (frame : FrameId) (pairs : List (String × Value)) :
    s.Extends (s.insertAll frame pairs) := by
  induction pairs generalizing s with
  | nil => exact .refl s
  | cons p pairs ih => exact (s.extends_insert frame p.1 p.2).trans (ih _)

end Store

/-- In what the stores of two runs may differ, and what makes that invisible. -/
structure Agreement where
  /-- What is asked of every value, at every depth. -/
  node : Store → Value → Prop
  /-- The values that may be evaluated in a frame. -/
  code : Store → FrameId → Value → Prop
  /-- The stores that the two runs may have at one time. -/
  stores : Store → Store → Prop
  node_extends : ∀ {s t : Store} {v : Value}, s.Extends t → node s v → node t v
  node_moveTo : ∀ {s : Store} {v : Value} (l : Location), node s v → node s (v.moveTo l)
  node_plain : ∀ {s : Store} {v : Value}, v.tag.isPlain = true → node s v
  code_extends : ∀ {s t : Store} {frame : FrameId} {v : Value}, s.Extends t →
    frame < s.frames.size → code s frame v → code t frame v
  code_holds : ∀ {s : Store} {frame : FrameId} {v : Value}, code s frame v → v.Everywhere (node s)
  code_part : ∀ {s : Store} {frame : FrameId} {v w : Value}, code s frame v → v.tag ≠ .function →
    w ∈ v.parts → code s frame w
  /-- What may be evaluated in a frame may be evaluated in a new one inside it. -/
  code_spawn : ∀ {s : Store} {frame : FrameId} {v : Value}, frame < s.frames.size →
    code s frame v → code (s.spawn frame).2 s.frames.size v
  /-- The body of a closure may be evaluated in a new frame inside the one it was made in. -/
  code_body : ∀ {s : Store} {l : Location} {i : FunctionId} {p : Parameters} {body : Value}
    {captured : FrameId}, (Value.closure l i p body captured).Everywhere (node s) →
    captured < s.frames.size ∧ code (s.spawn captured).2 s.frames.size body
  /-- A closure with the latest identity may be made of what may be evaluated. -/
  node_closure : ∀ {s : Store} {frame : FrameId} {body : Value} (l : Location) (p : Parameters),
    frame < s.frames.size → code s frame body →
    node s.newFunction.2 (.closure l s.functions p body frame)
  size_eq : ∀ {s s' : Store}, stores s s' → s'.frames.size = s.frames.size
  functions_eq : ∀ {s s' : Store}, stores s s' → s'.functions = s.functions
  settings_eq : ∀ {s s' : Store} (frame : FrameId), stores s s' →
    s'.settings frame = s.settings frame
  /-- A name has the same value in both runs, wherever it may be evaluated. -/
  find?_eq : ∀ {s s' : Store} {frame : FrameId} {l : Location} {x : String}, stores s s' →
    frame < s.frames.size → code s frame (.symbol l x) → s'.find? frame x = s.find? frame x
  holds_find? : ∀ {s s' : Store} {frame : FrameId} {x : String} {v : Value}, stores s s' →
    s.find? frame x = some v → v.Everywhere (node s)
  stores_insert : ∀ {s s' : Store} {v : Value} (frame : FrameId) (x : String), stores s s' →
    v.Everywhere (node s) → stores (s.insert frame x v) (s'.insert frame x v)
  stores_spawn : ∀ {s s' : Store} {frame : FrameId}, stores s s' → frame < s.frames.size →
    stores (s.spawn frame).2 (s'.spawn frame).2
  stores_newFunction : ∀ {s s' : Store}, stores s s' → stores s.newFunction.2 s'.newFunction.2

namespace Agreement

/-- A value has what is asked of it, at every depth. -/
def Holds (A : Agreement) (s : Store) (v : Value) : Prop :=
  v.Everywhere (A.node s)

/-- What is asked of values, if the store does not change any more. -/
def trait (A : Agreement) (s : Store) : Trait where
  node _ v := A.node s v
  mono _ h := h
  moveTo l h := A.node_moveTo l h
  plain _ _ h := A.node_plain h

/-- Two outcomes that began on stores that agree: the results are the same, the stores agree, and a
value satisfies `Q`. -/
structure Ends {α : Type} (A : Agreement) (Q : Store → α → Prop) (s : Store)
    (o o' : Except Stop α × Machine) : Prop where
  result : o'.1 = o.1
  stores : A.stores o.2.store o'.2.store
  extended : s.Extends o.2.store
  value : ∀ {a : α}, o.1 = .ok a → Q o.2.store a

/-- Two evaluations that end alike if they are started on two stores. -/
def Agrees {α : Type} (A : Agreement) (Q : Store → α → Prop) (e e' : Eval α) (s s' : Store) : Prop :=
  ∀ log log', A.Ends Q s (e.run ⟨s, log⟩) (e'.run ⟨s', log'⟩)

section

variable {A : Agreement} {α β : Type} {Q : Store → α → Prop} {R : Store → β → Prop} {s s' : Store}

theorem Holds.extends {t : Store} {v : Value} (h : A.Holds s v) (hst : s.Extends t) : A.Holds t v :=
  Value.Everywhere.mono h fun _ => A.node_extends hst

/-! ### Rules -/

theorem Agrees.bind {e e' : Eval α} {f f' : α → Eval β} (he : A.Agrees Q e e' s s')
    (hf : ∀ t t' a, s.Extends t → A.stores t t' → Q t a → A.Agrees R (f a) (f' a) t t') :
    A.Agrees R (e >>= f) (e' >>= f') s s' := by
  intro log log'
  have he := he log log'
  rw [run_bind, run_bind]
  generalize e.run ⟨s, log⟩ = o, e'.run ⟨s', log'⟩ = o' at he ⊢
  obtain ⟨r, t, log⟩ := o
  obtain ⟨r', t', log'⟩ := o'
  obtain ⟨hresult, hstores, hst, hvalue⟩ := he
  cases hresult
  cases r with
  | ok a =>
    have hf := hf t t' a hst hstores (hvalue rfl) log log'
    exact ⟨hf.result, hf.stores, hst.trans hf.extended, hf.value⟩
  | error stop => exact ⟨rfl, hstores, hst, nofun⟩

theorem agrees_pure {a : α} (hs : A.stores s s') (ha : Q s a) :
    A.Agrees Q (pure a) (pure a) s s' :=
  fun _ _ => ⟨rfl, hs, .refl s, fun h => by cases h; exact ha⟩

theorem agrees_stop (stop : Stop) (hs : A.stores s s') :
    A.Agrees Q (Eval.stop stop) (Eval.stop stop) s s' :=
  fun _ _ => ⟨rfl, hs, .refl s, nofun⟩

theorem agrees_emit_bind {e e' : Event} {f f' : Unit → Eval β} (h : A.Agrees R (f ()) (f' ()) s s') :
    A.Agrees R (emit e >>= f) (emit e' >>= f') s s' :=
  fun log log' => h (e :: log) (e' :: log')

theorem agrees_getStore_bind {f f' : Store → Eval β} (h : A.Agrees R (f s) (f' s') s s') :
    A.Agrees R (getStore >>= f) (getStore >>= f') s s' :=
  h

theorem agrees_update_bind {g g' : Store → Store} {f f' : Unit → Eval β} (hg : s.Extends (g s))
    (h : A.Agrees R (f ()) (f' ()) (g s) (g' s')) :
    A.Agrees R (update g >>= f) (update g' >>= f') s s' :=
  fun log log' => { h log log' with extended := hg.trans (h log log').extended }

theorem agrees_spawn_bind {parent : FrameId} {f f' : FrameId → Eval β} (hs : A.stores s s')
    (h : A.Agrees R (f s.frames.size) (f' s.frames.size) (s.spawn parent).2 (s'.spawn parent).2) :
    A.Agrees R (spawn parent >>= f) (spawn parent >>= f') s s' := by
  intro log log'
  have h := h log log'
  have hrun : (spawn parent >>= f').run ⟨s', log'⟩ =
      (f' s'.frames.size).run ⟨(s'.spawn parent).2, log'⟩ := rfl
  rw [hrun, A.size_eq hs]
  exact { h with extended := (s.extends_spawn parent).trans h.extended }

end

/-! ### Calls -/

section

variable {A : Agreement} {s s' : Store} {frame : FrameId} {l : Location} {vs : List Value}

theorem agrees_lookup {x : String} (hs : A.stores s s') (hframe : frame < s.frames.size)
    (hx : A.code s frame (.symbol l x)) :
    A.Agrees A.Holds (lookup frame (.symbol l x)) (lookup frame (.symbol l x)) s s' := by
  refine agrees_getStore_bind ?_
  simp only [Store.get, Value.symbol?, A.find?_eq hs hframe hx]
  cases hfind : s.find? frame x with
  | none => exact agrees_stop _ hs
  | some v =>
    have hv := A.holds_find? hs hfind
    exact agrees_pure hs (hv.moveTo (A.node_moveTo _ hv.self))

theorem agrees_callPrimitive (code : Primitive) (hs : A.stores s s') (hframe : frame < s.frames.size)
    (hvs : ∀ v ∈ vs, A.Holds s v) (hlambda : code = .lambda → ∀ v ∈ vs, A.code s frame v) :
    A.Agrees A.Holds (callPrimitive frame l code vs) (callPrimitive frame l code vs) s s' := by
  unfold callPrimitive
  split
  · refine agrees_emit_bind (agrees_getStore_bind ?_)
    -- `fn*` alone looks at the store, and it alone keeps its operands as code.
    by_cases hcode : code = .lambda
    · subst hcode
      rcases vs with _ | ⟨v, _ | ⟨body, rest⟩⟩
      · exact agrees_stop _ hs
      · exact agrees_stop _ hs
      · simp only [Store.primitive?, Store.lambda?]
        cases parametersOf l v with
        | error f => exact agrees_update_bind (.refl s) (agrees_emit_bind (agrees_stop _ hs))
        | ok parameters =>
          have hbody := hlambda rfl body (by simp)
          have hnew := s.extends_newFunction
          refine agrees_update_bind hnew (agrees_emit_bind ?_)
          show A.Agrees A.Holds (pure (Value.closure l s.functions parameters body frame))
            (pure (Value.closure l s'.functions parameters body frame)) s.newFunction.2
            s'.newFunction.2
          rw [A.functions_eq hs]
          refine agrees_pure (A.stores_newFunction hs) (.intro ?_ fun w hw => ?_)
          · exact A.node_closure l parameters hframe hbody
          · rw [List.mem_singleton.mp hw]
            exact Holds.extends (A.code_holds hbody) hnew
    · have hresult : ∀ s : Store, s.primitive? frame code l vs =
          (code.result? l vs).map fun result => (result, s) := by
        intro s
        unfold Store.primitive?
        split
        · exact absurd rfl hcode
        · rfl
      rw [hresult, hresult]
      cases h : code.result? l vs with
      | none => exact agrees_stop _ hs
      | some r =>
        cases r with
        | ok v =>
          refine agrees_update_bind (.refl s) (agrees_emit_bind (agrees_pure hs ?_))
          exact (A.trait s).of_result? (s := s) hvs h
        | error f => exact agrees_update_bind (.refl s) (agrees_emit_bind (agrees_stop _ hs))
  · exact agrees_stop _ hs

theorem stores_insertAll {pairs : List (String × Value)} (hs : A.stores s s')
    (hpairs : ∀ q ∈ pairs, A.Holds s q.2) :
    A.stores (s.insertAll frame pairs) (s'.insertAll frame pairs) := by
  induction pairs generalizing s s' with
  | nil => exact hs
  | cons q pairs ih =>
    obtain ⟨hq, hpairs⟩ := List.forall_mem_cons.mp hpairs
    refine ih (A.stores_insert frame q.1 hs hq) fun r hr => ?_
    exact (hpairs r hr).extends (s.extends_insert frame q.1 q.2)

end

section

variable {A : Agreement} {recur : Evaluator}
  (hrecur : ∀ (frame : FrameId) (v : Value) (s s' : Store), A.stores s s' →
    frame < s.frames.size → A.code s frame v →
    A.Agrees A.Holds (recur frame v) (recur frame v) s s')
  {s s' : Store} {frame : FrameId} {l : Location} {vs : List Value}

include hrecur

theorem agrees_callClosure {i : FunctionId} {p : Parameters} {body : Value} {captured : FrameId}
    (hs : A.stores s s') (hclosure : A.Holds s (.closure l i p body captured))
    (hvs : ∀ v ∈ vs, A.Holds s v) :
    A.Agrees A.Holds (callClosure recur l p body captured vs)
      (callClosure recur l p body captured vs) s s' := by
  obtain ⟨hcaptured, hbody⟩ := A.code_body hclosure
  refine agrees_emit_bind (agrees_getStore_bind ?_)
  dsimp only
  rw [A.settings_eq captured hs]
  split
  · refine agrees_spawn_bind hs ?_
    cases hpairs : p.bind? l vs with
    | none => exact agrees_stop _ (A.stores_spawn hs hcaptured)
    | some pairs =>
      have hspawn := s.extends_spawn captured
      have hinsert := (s.spawn captured).2.extends_insertAll s.frames.size pairs
      refine agrees_update_bind hinsert (hrecur _ _ _ _ ?_ ?_ ?_)
      · refine stores_insertAll (A.stores_spawn hs hcaptured) fun q hq => ?_
        exact Holds.extends ((A.trait s).of_bind? (s := s) hvs hpairs q hq) hspawn
      · exact hinsert.lt_size (s.lt_size_spawn captured)
      · exact A.code_extends hinsert (s.lt_size_spawn captured) hbody
  · exact agrees_stop _ hs

theorem agrees_apply {head : Value} (hs : A.stores s s') (hframe : frame < s.frames.size)
    (hhead : A.Holds s head) (hvs : ∀ v ∈ vs, A.Holds s v)
    (hcode : head.passing? = some .unevaluated → ∀ v ∈ vs, A.code s frame v) :
    A.Agrees A.Holds (apply recur frame head vs) (apply recur frame head vs) s s' := by
  unfold apply
  split
  · exact agrees_stop _ hs
  · cases head with
    | primitive l i code =>
      refine agrees_callPrimitive code hs hframe hvs fun hlambda => hcode ?_
      rw [hlambda]
      rfl
    | closure l i p body captured => exact agrees_callClosure hrecur hs hhead hvs
    | _ => exact agrees_stop _ hs

/-! ### One rule after the other -/

theorem agrees_evalElements (hs : A.stores s s') (hframe : frame < s.frames.size)
    (hvs : ∀ v ∈ vs, A.code s frame v) :
    A.Agrees (fun t ws => ∀ w ∈ ws, A.Holds t w) (evalElements recur frame vs)
      (evalElements recur frame vs) s s' := by
  induction vs generalizing s s' with
  | nil => exact agrees_pure hs (by simp)
  | cons v vs ih =>
    obtain ⟨hv, hvs⟩ := List.forall_mem_cons.mp hvs
    refine (hrecur frame v s s' hs hframe hv).bind fun t t' w hst ht hw => ?_
    refine (ih ht (hst.lt_size hframe) ?_).bind fun u u' ws htu hu hws => agrees_pure hu ?_
    · exact fun v hv => A.code_extends hst hframe (hvs v hv)
    · exact List.forall_mem_cons.mpr ⟨hw.extends htu, hws⟩

theorem agrees_evalEntries {es : List (Value × Value)} (hs : A.stores s s')
    (hframe : frame < s.frames.size)
    (hes : ∀ e ∈ es, A.Holds s e.1 ∧ A.code s frame e.2) :
    A.Agrees (fun t es => ∀ e ∈ es, A.Holds t e.1 ∧ A.Holds t e.2) (evalEntries recur frame es)
      (evalEntries recur frame es) s s' := by
  induction es generalizing s s' with
  | nil => exact agrees_pure hs (by simp)
  | cons e es ih =>
    obtain ⟨key, v⟩ := e
    obtain ⟨⟨hkey, hv⟩, hes⟩ := List.forall_mem_cons.mp hes
    refine (hrecur frame v s s' hs hframe hv).bind fun t t' w hst ht hw => ?_
    refine (ih ht (hst.lt_size hframe) ?_).bind fun u u' ws htu hu hws => agrees_pure hu ?_
    · exact fun e he => ⟨(hes e he).1.extends hst, A.code_extends hst hframe (hes e he).2⟩
    · exact List.forall_mem_cons.mpr ⟨⟨hkey.extends (hst.trans htu), hw.extends htu⟩, hws⟩

theorem agrees_evalContents {v : Value} (hs : A.stores s s') (hframe : frame < s.frames.size)
    (hv : A.code s frame v) :
    A.Agrees A.Holds (evalContents recur frame v) (evalContents recur frame v) s s' := by
  refine agrees_emit_bind ?_
  cases v with
  | symbol l x => exact agrees_lookup hs hframe hv
  | list l vs =>
    have hvs : ∀ w ∈ vs, A.code s frame w := fun w hw => A.code_part hv nofun hw
    refine (agrees_evalElements hrecur hs hframe hvs).bind fun t t' ws _ ht hws => ?_
    exact agrees_pure ht (.intro (A.node_plain rfl) hws)
  | vector l vs =>
    have hvs : ∀ w ∈ vs, A.code s frame w := fun w hw => A.code_part hv nofun hw
    refine (agrees_evalElements hrecur hs hframe hvs).bind fun t t' ws _ ht hws => ?_
    exact agrees_pure ht (.intro (A.node_plain rfl) hws)
  | map l es =>
    have hpart : ∀ w ∈ (Value.map l es).parts, A.code s frame w :=
      fun w hw => A.code_part hv nofun hw
    have hes : ∀ e ∈ es, A.Holds s e.1 ∧ A.code s frame e.2 := fun e he =>
      ⟨A.code_holds (hpart _ (Value.mem_parts_map.mpr ⟨e, he, Or.inl rfl⟩)),
        hpart _ (Value.mem_parts_map.mpr ⟨e, he, Or.inr rfl⟩)⟩
    refine (agrees_evalEntries hrecur hs hframe hes).bind fun t t' ws _ ht hws => agrees_pure ht ?_
    exact (A.trait t).holds_map (s := t) hws
  | _ => exact agrees_pure hs (A.code_holds hv)

theorem agrees_define (hs : A.stores s s') (hframe : frame < s.frames.size)
    (hvs : ∀ v ∈ vs, A.code s frame v) :
    A.Agrees A.Holds (define recur frame l vs) (define recur frame l vs) s s' := by
  unfold define
  split
  · next key value =>
    split
    · exact agrees_stop _ hs
    · next x _ =>
      refine (hrecur frame value s s' hs hframe (hvs value (by simp))).bind fun t t' w _ ht hw => ?_
      have hinsert := t.extends_insert frame x w
      refine agrees_update_bind hinsert (agrees_pure (A.stores_insert frame x ht hw) ?_)
      exact hw.extends hinsert
  · exact agrees_stop _ hs

theorem agrees_bindPairs {es : List (Value × Value)} (hs : A.stores s s')
    (hframe : frame < s.frames.size) (hes : ∀ e ∈ es, A.code s frame e.2) :
    A.Agrees (fun _ _ => True) (bindPairs recur frame es) (bindPairs recur frame es) s s' := by
  induction es generalizing s s' with
  | nil => exact agrees_pure hs trivial
  | cons e es ih =>
    obtain ⟨key, value⟩ := e
    obtain ⟨hvalue, hes⟩ := List.forall_mem_cons.mp hes
    unfold bindPairs
    split
    · exact agrees_stop _ hs
    · next x _ =>
      refine (hrecur frame value s s' hs hframe hvalue).bind fun t t' w hst ht hw => ?_
      have hinsert := t.extends_insert frame x w
      have hall := hst.trans hinsert
      refine agrees_update_bind hinsert (ih (A.stores_insert frame x ht hw) ?_ ?_)
      · exact hall.lt_size hframe
      · exact fun e he => A.code_extends hall hframe (hes e he)

theorem agrees_bindLocally (hs : A.stores s s') (hframe : frame < s.frames.size)
    (hvs : ∀ v ∈ vs, A.code s frame v) :
    A.Agrees A.Holds (bindLocally recur frame l vs) (bindLocally recur frame l vs) s s' := by
  unfold bindLocally
  split
  · next bindings body =>
    split
    · exact agrees_stop _ hs
    · next elements helements =>
      split
      · exact agrees_stop _ hs
      · next pairs hpairs =>
        have hinner := s.lt_size_spawn frame
        have helement : ∀ w ∈ elements, A.code s frame w := by
          intro w hw
          have hbindings := hvs bindings (by simp)
          cases bindings with
          | list l vs => cases helements; exact A.code_part hbindings nofun hw
          | vector l vs => cases helements; exact A.code_part hbindings nofun hw
          | _ => cases helements
        have hmem := Value.mem_of_pairs hpairs
        refine agrees_spawn_bind hs ?_
        refine (agrees_bindPairs hrecur (A.stores_spawn hs hframe) hinner fun e he => ?_).bind
          fun t t' _ hst ht _ => ?_
        · exact A.code_spawn hframe (helement e.2 (hmem e he).2)
        · have hbody := A.code_spawn hframe (hvs body (by simp))
          exact hrecur _ body t t' ht (hst.lt_size hinner) (A.code_extends hst hinner hbody)
  · exact agrees_stop _ hs

theorem agrees_evalForm {form head : Value} (hs : A.stores s s') (hframe : frame < s.frames.size)
    (hhead : A.code s frame head) (hvs : ∀ v ∈ vs, A.code s frame v) :
    A.Agrees A.Holds (evalForm recur frame form head vs) (evalForm recur frame form head vs) s s' := by
  refine agrees_emit_bind ?_
  split
  · refine (agrees_define hrecur hs hframe hvs).bind fun t t' v _ ht hv => ?_
    cases vs with
    | nil => exact agrees_stop _ ht
    | cons key vs => exact agrees_emit_bind (agrees_pure ht hv)
  split
  · exact agrees_bindLocally hrecur hs hframe hvs
  refine (hrecur frame head s s' hs hframe hhead).bind fun t t' function hst ht hfunction => ?_
  have hframe' := hst.lt_size hframe
  have hvs' : ∀ v ∈ vs, A.code t frame v := fun v hv => A.code_extends hst hframe (hvs v hv)
  split
  · exact agrees_stop _ ht
  · exact agrees_apply hrecur ht hframe' hfunction (fun v hv => A.code_holds (hvs' v hv))
      fun _ => hvs'
  · next hpassing =>
    -- The values of the operands need not be code: the function does not take them unevaluated.
    refine (agrees_evalElements hrecur ht hframe' hvs').bind fun u u' ws htu hu hws => ?_
    refine agrees_apply hrecur hu (htu.lt_size hframe') (hfunction.extends htu) hws fun h => ?_
    rw [hpassing] at h
    cases h

theorem agrees_evalStep {v : Value} (hs : A.stores s s') (hframe : frame < s.frames.size)
    (hv : A.code s frame v) :
    A.Agrees A.Holds (evalStep recur frame v) (evalStep recur frame v) s s' := by
  unfold evalStep
  split
  · exact agrees_pure hs (A.code_holds hv)
  · have hpart : ∀ w ∈ _, A.code s frame w := fun w hw => A.code_part hv nofun hw
    obtain ⟨hhead, hvs⟩ := List.forall_mem_cons.mp hpart
    exact agrees_evalForm hrecur hs hframe hhead hvs
  · exact agrees_evalContents hrecur hs hframe hv

end

/-- **Evaluation keeps runs in agreement**: the results are the same, and so is whether there is one. -/
theorem agrees_eval {A : Agreement} (depth : Nat) (frame : FrameId) (v : Value) (s s' : Store)
    (hs : A.stores s s') (hframe : frame < s.frames.size) (hv : A.code s frame v) :
    A.Agrees A.Holds (eval depth frame v) (eval depth frame v) s s' := by
  induction depth generalizing frame v s s' with
  | zero => exact agrees_stop _ hs
  | succ depth ih => exact agrees_evalStep ih hs hframe hv

end Agreement

end MiniLisp
