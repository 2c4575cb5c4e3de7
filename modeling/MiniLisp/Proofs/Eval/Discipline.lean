import MiniLisp.Proofs.Eval.Unstuck
import MiniLisp.Proofs.Eval.Yields

/-!
# Evaluation under a discipline

The log of a machine grows event by event, and so evaluation has a history.  A `Discipline` says what
is asked of a machine between two events, what is asked of every value that the machine handles, at
every depth, and what is asked of the machine at the moment when evaluation stops.  In contrast to a
trait, what is asked of a value may depend on the place where the value stands and on what has happened
so far.

The conditions of a discipline go through all that evaluation does: it reports an event, binds a name,
makes a frame, looks a symbol up, calls a primitive, makes a closure, or stops.  A call of a primitive
is one condition, since nothing comes between the events at its beginning and at its end.

* `Fault.Due`: the faults that evaluation can end with, and the values they are blamed on.
* `Discipline.Obeys`: an evaluation that keeps to a discipline.
* `Discipline.obeys_eval`: **evaluation keeps to every discipline**.
-/

namespace MiniLisp

open Eval

/-! ### Events and faults -/

/-- Whether an event is reported by a rule of evaluation: it is neither a datum that was read nor a part
of the call of a primitive. -/
def Event.isRule : Event → Bool
  | .application _ | .evaluation _ | .definition .. | .closureCall .. => true
  | _ => false

/-- The values that an event shows. -/
def Event.values : Event → List Value
  | .read v => [v]
  | .application v => [v]
  | .evaluation v => [v]
  | .definition key v => [key, v]
  | .call _ vs => vs
  | .returned _ v => [v]
  | .failed _ _ => []
  | .closureCall _ vs => vs

/-- Whether a cause holds no text: neither the name of a symbol nor that of an operator. -/
def Cause.isFixed : Cause → Bool
  | .undefinedSymbol _ | .typeMismatch .. => false
  | _ => true

/-- The faults that evaluation can end with, if the values that it handles have a certain property.
Each is blamed on one of these values; a symbol that is not bound is blamed on itself, and an operator
that is named is a primitive. -/
inductive Fault.Due (p : Value → Prop) : Fault → Prop
  | undefinedSymbol {l : Location} {x : String} : p (.symbol l x) → Due p ⟨.undefinedSymbol x, l⟩
  | typeMismatch (code : Primitive) (expected : Expected) (got : Tag) {u : Value} : p u →
      Due p ⟨.typeMismatch code.name expected got, u.location⟩
  | fixed {cause : Cause} {u : Value} : cause.isFixed = true → p u → Due p ⟨cause, u.location⟩

theorem due_get {s : Store} {frame : FrameId} {p : Value → Prop} {l : Location} {x : String}
    {f : Fault} (hx : p (.symbol l x)) (h : s.get frame (.symbol l x) = .error f) : f.Due p := by
  simp only [Store.get, Value.symbol?] at h
  split at h
  · cases h
  · cases h; exact .undefinedSymbol hx

/-- What a primitive blames if it fails: the head of the call, an operand or an element of one. -/
theorem due_primitive? {s t : Store} {frame : FrameId} {code : Primitive} {p : Value → Prop}
    {head : Value} {vs : List Value} {f : Fault} (hhead : p head) (hvs : ∀ v ∈ vs, v.Everywhere p)
    (h : s.primitive? frame code head.location vs = some (.error f, t)) : f.Due p ∧ t = s := by
  unfold Store.primitive? at h
  split at h
  · unfold Store.lambda? at h
    split at h
    · next parameters body rest =>
      split at h
      · next hparameters =>
        cases h
        refine ⟨?_, rfl⟩
        have hoperand := hvs parameters (by simp)
        rcases parametersOf_error hparameters with rfl | ⟨ws, hws, w, hw, rfl⟩ | ⟨reason, rfl⟩
        · exact .fixed rfl hoperand.self
        · exact .fixed rfl (hoperand.elements? hws w hw).self
        · exact .fixed rfl hhead
      · cases h
    · cases h
  · obtain ⟨r, hr, heq⟩ := Option.map_eq_some_iff.mp h
    cases heq
    refine ⟨?_, rfl⟩
    obtain ⟨cause, location⟩ := f
    obtain ⟨rfl, hcause | ⟨expected, got, hcause⟩⟩ := result?_error hr
    · cases hcause; exact .fixed rfl hhead
    · cases hcause; exact .typeMismatch code expected got hhead

/-! ### Disciplines -/

/-- What is asked of evaluation along the way. -/
structure Discipline where
  /-- What is asked of every value, at every depth, after certain events, the latest first. -/
  node : List Event → Value → Prop
  /-- What is asked of the machine. -/
  machine : Machine → Prop
  /-- How evaluation may stop, and what is asked of the machine then. -/
  stop : Machine → Stop → Prop
  node_emit : ∀ {log : List Event} {v : Value} (e : Event), node log v → node (e :: log) v
  /-- Values of a plain kind are made at the place of a value that is at hand. -/
  node_plain : ∀ {log : List Event} {u v : Value}, node log u → v.tag.isPlain = true →
    v.location = u.location → node log v
  /-- A bound value is moved to the symbol that it is found for. -/
  find : ∀ {m : Machine} {frame : FrameId} {l : Location} {x : String} {v : Value}, machine m →
    node m.log (.symbol l x) → m.store.find? frame x = some v →
    (v.moveTo l).Everywhere (node m.log)
  emit : ∀ {s : Store} {log : List Event} {e : Event}, machine ⟨s, log⟩ → e.isRule = true →
    (∀ v ∈ e.values, v.Everywhere (node log)) → machine ⟨s, e :: log⟩
  insert : ∀ {s : Store} {log : List Event} {v : Value} (frame : FrameId) (x : String),
    machine ⟨s, log⟩ → v.Everywhere (node log) → machine ⟨s.insert frame x v, log⟩
  spawn : ∀ {s : Store} {log : List Event} (frame : FrameId), machine ⟨s, log⟩ →
    machine ⟨(s.spawn frame).2, log⟩
  /-- A primitive has a result. -/
  returned : ∀ {s : Store} {log : List Event} {code : Primitive} {vs : List Value} {v : Value},
    code ≠ .lambda → machine ⟨s, log⟩ → (∀ w ∈ vs, w.Everywhere (node log)) →
    v.Everywhere (node log) → machine ⟨s, .returned code v :: .call code vs :: log⟩
  /-- A closure is made. -/
  made : ∀ {s : Store} {log : List Event} {vs : List Value} {head body : Value} (p : Parameters)
    (frame : FrameId), machine ⟨s, log⟩ → node log head → body ∈ vs →
    (∀ w ∈ vs, w.Everywhere (node log)) →
    let c := Value.closure head.location s.functions p body frame
    let log' := .returned .lambda c :: .call .lambda vs :: log
    machine ⟨s.newFunction.2, log'⟩ ∧ node log' c
  /-- A primitive fails. -/
  failed : ∀ {s : Store} {log : List Event} {code : Primitive} {vs : List Value} {f : Fault},
    machine ⟨s, log⟩ → (∀ w ∈ vs, w.Everywhere (node log)) → f.Due (node log) →
    stop ⟨s, .failed code f :: .call code vs :: log⟩ (.failed (.fault f))
  /-- A rule of evaluation fails. -/
  fault : ∀ {m : Machine} {f : Fault}, machine m → f.Due (node m.log) → stop m (.failed (.fault f))
  tooDeep : ∀ {m : Machine}, machine m → stop m .tooDeep

namespace Discipline

variable {D : Discipline}

/-- A value has what is asked of it, at every depth. -/
def Holds (D : Discipline) (log : List Event) (v : Value) : Prop :=
  v.Everywhere (D.node log)

theorem Holds.part {log : List Event} {v w : Value} (h : D.Holds log v) (hw : w ∈ v.parts) :
    D.Holds log w :=
  Value.Everywhere.part h hw

/-- What is asked of a value stays true while more happens. -/
theorem Holds.later {log log' : List Event} {v : Value} (h : D.Holds log v) (hlog : log <:+ log') :
    D.Holds log' v := by
  obtain ⟨events, rfl⟩ := hlog
  induction events with
  | nil => exact h
  | cons e events ih => exact Value.Everywhere.mono ih fun _ => D.node_emit e

/-- An outcome that began on a machine: the events are there and more, a machine that goes on has what
is asked of it and a value satisfies `Q`, and a stop is one that may be. -/
structure Ends {α : Type} (D : Discipline) (Q : List Event → α → Prop) (m : Machine)
    (o : Except Stop α × Machine) : Prop where
  later : m.log <:+ o.2.log
  value : ∀ {a : α}, o.1 = .ok a → D.machine o.2 ∧ Q o.2.log a
  stopped : ∀ {stop : Stop}, o.1 = .error stop → D.stop o.2 stop

/-- An evaluation that keeps to a discipline, if it is started on a machine. -/
def Obeys {α : Type} (D : Discipline) (Q : List Event → α → Prop) (e : Eval α) (m : Machine) : Prop :=
  D.Ends Q m (e.run m)

/-! ### Rules -/

section

variable {α β : Type} {Q : List Event → α → Prop} {R : List Event → β → Prop} {m : Machine}
  {s : Store} {log : List Event}

theorem Obeys.bind {e : Eval α} {f : α → Eval β} (he : D.Obeys Q e m)
    (hf : ∀ n a, m.log <:+ n.log → D.machine n → Q n.log a → D.Obeys R (f a) n) :
    D.Obeys R (e >>= f) m := by
  obtain ⟨hlater, hvalue, hstopped⟩ := he
  rw [Obeys, run_bind]
  generalize e.run m = o at hlater hvalue hstopped ⊢
  obtain ⟨r, n⟩ := o
  cases r with
  | ok a =>
    obtain ⟨hn, ha⟩ := hvalue rfl
    have hf := hf n a hlater hn ha
    exact ⟨hlater.trans hf.later, hf.value, hf.stopped⟩
  | error stop => exact ⟨hlater, nofun, fun h => by cases h; exact hstopped rfl⟩

theorem obeys_pure {a : α} (hm : D.machine m) (ha : Q m.log a) : D.Obeys Q (pure a) m :=
  ⟨List.suffix_rfl, fun h => by cases h; exact ⟨hm, ha⟩, nofun⟩

theorem obeys_stop {stop : Stop} (h : D.stop m stop) : D.Obeys Q (Eval.stop stop) m :=
  ⟨List.suffix_rfl, nofun, fun h' => by cases h'; exact h⟩

theorem obeys_fail {cause : Cause} {u : Value} (hm : D.machine m) (hcause : cause.isFixed = true)
    (hu : D.node m.log u) : D.Obeys Q (fail cause u.location) m :=
  obeys_stop (D.fault hm (.fixed hcause hu))

theorem obeys_report_bind {e : Event} {f : Unit → Eval β} (h : D.Obeys R (f ()) ⟨s, e :: log⟩) :
    D.Obeys R (Eval.emit e >>= f) ⟨s, log⟩ :=
  ⟨(List.suffix_cons e log).trans h.later, h.value, h.stopped⟩

theorem obeys_emit_bind {e : Event} {f : Unit → Eval β} (hs : D.machine ⟨s, log⟩)
    (he : e.isRule = true) (hvalues : ∀ v ∈ e.values, D.Holds log v)
    (h : D.machine ⟨s, e :: log⟩ → D.Obeys R (f ()) ⟨s, e :: log⟩) :
    D.Obeys R (Eval.emit e >>= f) ⟨s, log⟩ :=
  obeys_report_bind (h (D.emit hs he hvalues))

theorem obeys_getStore_bind {f : Store → Eval β} (h : D.Obeys R (f m.store) m) :
    D.Obeys R (getStore >>= f) m :=
  h

theorem obeys_update_bind {g : Store → Store} {f : Unit → Eval β}
    (h : D.Obeys R (f ()) ⟨g s, log⟩) : D.Obeys R (update g >>= f) ⟨s, log⟩ :=
  ⟨h.later, h.value, h.stopped⟩

theorem obeys_spawn_bind {parent : FrameId} {f : FrameId → Eval β} (hs : D.machine ⟨s, log⟩)
    (h : ∀ inner, D.machine ⟨(s.spawn parent).2, log⟩ → D.Obeys R (f inner) ⟨(s.spawn parent).2, log⟩) :
    D.Obeys R (Eval.spawn parent >>= f) ⟨s, log⟩ := by
  have h := h s.frames.size (D.spawn parent hs)
  exact ⟨h.later, h.value, h.stopped⟩

end

/-! ### Calls -/

section

variable {s : Store} {log : List Event} {frame : FrameId} {vs : List Value}

theorem obeys_lookup {l : Location} {x : String} (hs : D.machine ⟨s, log⟩)
    (hx : D.node log (.symbol l x)) : D.Obeys D.Holds (lookup frame (.symbol l x)) ⟨s, log⟩ := by
  refine obeys_getStore_bind ?_
  cases h : s.get frame (.symbol l x) with
  | error f => exact obeys_stop (D.fault hs (due_get hx h))
  | ok v =>
    refine obeys_pure hs ?_
    simp only [Store.get, Value.symbol?] at h
    split at h
    · next w hw => cases h; exact D.find hs hx hw
    · cases h

/-- What a call of a primitive comes to, and what it reports. -/
theorem run_callPrimitive (s : Store) (log : List Event) (frame : FrameId) (l : Location)
    {code : Primitive} (h : code.arity.contains vs.length = true) :
    (∃ v t, s.primitive? frame code l vs = some (.ok v, t) ∧
      (callPrimitive frame l code vs).run ⟨s, log⟩ =
        (.ok v, ⟨t, .returned code v :: .call code vs :: log⟩)) ∨
    ∃ f t, s.primitive? frame code l vs = some (.error f, t) ∧
      (callPrimitive frame l code vs).run ⟨s, log⟩ =
        (.error (.failed (.fault f)), ⟨t, .failed code f :: .call code vs :: log⟩) := by
  obtain ⟨⟨r, t⟩, hr⟩ := Option.isSome_iff_exists.mp (isSome_primitive? (l := l) s frame h)
  cases r with
  | ok v =>
    refine Or.inl ⟨v, t, hr, ?_⟩
    rw [callPrimitive, if_pos h, run_emit_bind, run_getStore_bind, hr]
    rfl
  | error f =>
    refine Or.inr ⟨f, t, hr, ?_⟩
    rw [callPrimitive, if_pos h, run_emit_bind, run_getStore_bind, hr]
    rfl

theorem obeys_callPrimitive (code : Primitive) {head : Value} (hs : D.machine ⟨s, log⟩)
    (hhead : D.node log head) (hvs : ∀ v ∈ vs, D.Holds log v) :
    D.Obeys D.Holds (callPrimitive frame head.location code vs) ⟨s, log⟩ := by
  by_cases harity : code.arity.contains vs.length = true
  · have hlater : ∀ e e' : Event, log <:+ e :: e' :: log := fun e e' => ⟨[e, e'], rfl⟩
    rcases run_callPrimitive s log frame head.location harity with ⟨v, t, hr, hrun⟩ | ⟨f, t, hr, hrun⟩
    · rw [Obeys, hrun]
      refine ⟨hlater _ _, fun h => ?_, nofun⟩
      cases h
      unfold Store.primitive? at hr
      split at hr
      · unfold Store.lambda? at hr
        split at hr
        · next parameters body rest =>
          split at hr
          · cases hr
          · next p _ =>
            cases hr
            have hbody : body ∈ parameters :: body :: rest := by simp
            obtain ⟨hmachine, hnode⟩ := D.made p frame hs hhead hbody hvs
            refine ⟨hmachine, .intro hnode fun w hw => ?_⟩
            rw [List.mem_singleton.mp hw]
            exact Holds.later (hvs body hbody) (hlater _ _)
        · cases hr
      · next hcode =>
        obtain ⟨r, hresult, heq⟩ := Option.map_eq_some_iff.mp hr
        cases heq
        have hv : D.Holds log v := Value.everywhere_result? (D.node_plain hhead) hvs hresult
        exact ⟨D.returned hcode hs hvs hv, hv.later (hlater _ _)⟩
    · rw [Obeys, hrun]
      obtain ⟨hdue, rfl⟩ := due_primitive? hhead hvs hr
      refine ⟨hlater _ _, nofun, fun h => ?_⟩
      cases h
      exact D.failed hs hvs hdue
  · rw [callPrimitive, if_neg harity]
    exact obeys_fail hs rfl hhead

theorem machine_insertAll {pairs : List (String × Value)} (hs : D.machine ⟨s, log⟩)
    (hpairs : ∀ q ∈ pairs, D.Holds log q.2) : D.machine ⟨s.insertAll frame pairs, log⟩ := by
  induction pairs generalizing s with
  | nil => exact hs
  | cons q pairs ih =>
    obtain ⟨hq, hpairs⟩ := List.forall_mem_cons.mp hpairs
    exact ih (D.insert frame q.1 hs hq) hpairs

end

/-! ### One rule after the other -/

section

variable {recur : Evaluator}
  (hrecur : ∀ (frame : FrameId) (v : Value) (m : Machine), D.machine m → D.Holds m.log v →
    D.Obeys D.Holds (recur frame v) m)
  {s : Store} {log : List Event} {frame : FrameId} {vs : List Value}

include hrecur

theorem obeys_callClosure {p : Parameters} {head body : Value} {captured : FrameId}
    (hs : D.machine ⟨s, log⟩) (hhead : D.node log head) (hbody : D.Holds log body)
    (hvs : ∀ v ∈ vs, D.Holds log v) :
    D.Obeys D.Holds (callClosure recur head.location p body captured vs) ⟨s, log⟩ := by
  refine obeys_emit_bind hs rfl hvs fun hs => obeys_getStore_bind ?_
  have hlater := List.suffix_cons (Event.closureCall p vs) log
  have hhead := D.node_emit (.closureCall p vs) hhead
  dsimp only
  split
  · next harity =>
    refine obeys_spawn_bind hs fun inner hs => ?_
    obtain ⟨pairs, hpairs⟩ := Option.isSome_iff_exists.mp (isSome_bind? (l := head.location) harity)
    rw [hpairs]
    refine obeys_update_bind (hrecur inner body _ (machine_insertAll hs ?_) (hbody.later hlater))
    refine Value.everywhere_bind? (fun ws => D.node_plain hhead rfl rfl) ?_ hpairs
    exact fun w hw => (hvs w hw).later hlater
  · exact obeys_fail hs rfl hhead

theorem obeys_apply {head : Value} (hs : D.machine ⟨s, log⟩) (hhead : D.Holds log head)
    (hvs : ∀ v ∈ vs, D.Holds log v) : D.Obeys D.Holds (apply recur frame head vs) ⟨s, log⟩ := by
  unfold apply
  split
  · next nothing hnothing =>
    exact obeys_fail hs rfl (hvs nothing (List.mem_of_find?_eq_some hnothing)).self
  · cases head with
    | primitive l i code => exact obeys_callPrimitive code hs hhead.self hvs
    | closure l i p body captured =>
      exact obeys_callClosure hrecur hs hhead.self (hhead.part List.mem_cons_self) hvs
    | _ => exact obeys_fail hs rfl hhead.self

theorem obeys_evalElements {m : Machine} (hm : D.machine m) (hvs : ∀ v ∈ vs, D.Holds m.log v) :
    D.Obeys (fun log ws => ∀ w ∈ ws, D.Holds log w) (evalElements recur frame vs) m := by
  induction vs generalizing m with
  | nil => exact obeys_pure hm (by simp)
  | cons v vs ih =>
    obtain ⟨hv, hvs⟩ := List.forall_mem_cons.mp hvs
    refine (hrecur frame v m hm hv).bind fun n w hmn hn hw => ?_
    refine (ih hn fun u hu => (hvs u hu).later hmn).bind fun n' ws hnn' hn' hws => obeys_pure hn' ?_
    exact List.forall_mem_cons.mpr ⟨hw.later hnn', hws⟩

theorem obeys_evalEntries {es : List (Value × Value)} {m : Machine} (hm : D.machine m)
    (hes : ∀ e ∈ es, D.Holds m.log e.1 ∧ D.Holds m.log e.2) :
    D.Obeys (fun log es => ∀ e ∈ es, D.Holds log e.1 ∧ D.Holds log e.2) (evalEntries recur frame es)
      m := by
  induction es generalizing m with
  | nil => exact obeys_pure hm (by simp)
  | cons e es ih =>
    obtain ⟨key, v⟩ := e
    obtain ⟨⟨hkey, hv⟩, hes⟩ := List.forall_mem_cons.mp hes
    refine (hrecur frame v m hm hv).bind fun n w hmn hn hw => ?_
    refine (ih hn fun e he => ⟨(hes e he).1.later hmn, (hes e he).2.later hmn⟩).bind ?_
    intro n' ws hnn' hn' hws
    refine obeys_pure hn' (List.forall_mem_cons.mpr ⟨⟨?_, hw.later hnn'⟩, hws⟩)
    exact hkey.later (hmn.trans hnn')

theorem obeys_evalContents {v : Value} (hs : D.machine ⟨s, log⟩) (hv : D.Holds log v) :
    D.Obeys D.Holds (evalContents recur frame v) ⟨s, log⟩ := by
  refine obeys_emit_bind hs rfl (by simpa [Event.values] using hv) fun hs => ?_
  have hv := hv.later (List.suffix_cons (.evaluation v) log)
  -- A sequence is made anew where the old one stands.
  have hself : ∀ {n : Machine}, .evaluation v :: log <:+ n.log → D.node n.log v :=
    fun h => (hv.later h).self
  cases v with
  | symbol l x => exact obeys_lookup hs hv.self
  | list l vs =>
    refine (obeys_evalElements hrecur hs fun w hw => hv.part hw).bind fun n ws hmn hn hws => ?_
    exact obeys_pure hn (.intro (D.node_plain (hself hmn) rfl rfl) hws)
  | vector l vs =>
    refine (obeys_evalElements hrecur hs fun w hw => hv.part hw).bind fun n ws hmn hn hws => ?_
    exact obeys_pure hn (.intro (D.node_plain (hself hmn) rfl rfl) hws)
  | map l es =>
    refine (obeys_evalEntries hrecur hs fun e he => ?_).bind fun n ws hmn hn hws => ?_
    · exact ⟨hv.part (Value.mem_parts_map.mpr ⟨e, he, Or.inl rfl⟩),
        hv.part (Value.mem_parts_map.mpr ⟨e, he, Or.inr rfl⟩)⟩
    · refine obeys_pure hn (.intro (D.node_plain (hself hmn) rfl rfl) fun w hw => ?_)
      obtain ⟨e, he, rfl | rfl⟩ := Value.mem_parts_map.mp hw
      · exact (hws e he).1
      · exact (hws e he).2
  | _ => exact obeys_pure hs hv

theorem obeys_define {head : Value} (hs : D.machine ⟨s, log⟩) (hhead : D.node log head)
    (hvs : ∀ v ∈ vs, D.Holds log v) :
    D.Obeys D.Holds (define recur frame head.location vs) ⟨s, log⟩ := by
  unfold define
  split
  · next key v =>
    split
    · exact obeys_fail hs rfl (hvs key (by simp)).self
    · next x _ =>
      refine (hrecur frame v _ hs (hvs v (by simp))).bind fun n w _ hn hw => ?_
      exact obeys_update_bind (obeys_pure (D.insert frame x hn hw) hw)
  · exact obeys_fail hs rfl hhead

theorem obeys_bindPairs {es : List (Value × Value)} {m : Machine} (hm : D.machine m)
    (hes : ∀ e ∈ es, D.Holds m.log e.1 ∧ D.Holds m.log e.2) :
    D.Obeys (fun _ _ => True) (bindPairs recur frame es) m := by
  induction es generalizing m with
  | nil => exact obeys_pure hm trivial
  | cons e es ih =>
    obtain ⟨key, v⟩ := e
    obtain ⟨⟨hkey, hv⟩, hes⟩ := List.forall_mem_cons.mp hes
    unfold bindPairs
    split
    · exact obeys_fail hm rfl hkey.self
    · next x _ =>
      refine (hrecur frame v m hm hv).bind fun n w hmn hn hw => ?_
      refine obeys_update_bind (ih (D.insert frame x hn hw) fun e he => ?_)
      exact ⟨(hes e he).1.later hmn, (hes e he).2.later hmn⟩

theorem obeys_bindLocally {head : Value} (hs : D.machine ⟨s, log⟩) (hhead : D.node log head)
    (hvs : ∀ v ∈ vs, D.Holds log v) :
    D.Obeys D.Holds (bindLocally recur frame head.location vs) ⟨s, log⟩ := by
  unfold bindLocally
  split
  · next bindings body =>
    have hbindings := hvs bindings (by simp)
    split
    · exact obeys_fail hs rfl hbindings.self
    · next elements helements =>
      split
      · exact obeys_fail hs rfl hbindings.self
      · next pairs hpairs =>
        have hall := Value.everywhere_pairs hpairs (hbindings.elements? helements)
        refine obeys_spawn_bind hs fun inner hs => (obeys_bindPairs hrecur hs hall).bind ?_
        exact fun n _ hmn hn _ => hrecur inner body n hn ((hvs body (by simp)).later hmn)
  · exact obeys_fail hs rfl hhead

theorem obeys_evalForm {form head : Value} (hs : D.machine ⟨s, log⟩) (hform : D.Holds log form)
    (hhead : D.Holds log head) (hvs : ∀ v ∈ vs, D.Holds log v) :
    D.Obeys D.Holds (evalForm recur frame form head vs) ⟨s, log⟩ := by
  refine obeys_emit_bind hs rfl (by simpa [Event.values] using hform) fun hs => ?_
  have hlater := List.suffix_cons (Event.application form) log
  have hhead := hhead.later hlater
  have hvs := fun v hv => (hvs v hv).later hlater
  split
  · cases vs with
    | nil => exact obeys_fail hs rfl hhead.self -- There is no key to report, but the definition fails.
    | cons key vs =>
      refine (obeys_define hrecur hs hhead.self hvs).bind fun n w hmn hn hw => ?_
      have hkey := (hvs key List.mem_cons_self).later hmn
      refine obeys_emit_bind hn rfl (by simpa [Event.values] using ⟨hkey, hw⟩) fun hn => ?_
      exact obeys_pure hn (hw.later (List.suffix_cons _ _))
  · split
    · exact obeys_bindLocally hrecur hs hhead.self hvs
    · refine (hrecur frame head _ hs hhead).bind fun n function hmn hn hfunction => ?_
      have hvs := fun v hv => (hvs v hv).later hmn
      split
      · exact obeys_fail hn rfl hfunction.self
      · exact obeys_apply hrecur hn hfunction hvs
      · refine (obeys_evalElements hrecur hn hvs).bind fun n' ws hnn' hn' hws => ?_
        exact obeys_apply hrecur hn' (hfunction.later hnn') hws

theorem obeys_evalStep {v : Value} (hs : D.machine ⟨s, log⟩) (hv : D.Holds log v) :
    D.Obeys D.Holds (evalStep recur frame v) ⟨s, log⟩ := by
  cases v with
  | list l vs =>
    cases vs with
    | nil => exact obeys_pure hs hv
    | cons head vs =>
      refine obeys_evalForm hrecur hs hv (hv.part List.mem_cons_self) ?_
      exact fun w hw => hv.part (List.mem_cons_of_mem _ hw)
  | _ =>
    show D.Obeys D.Holds (evalContents recur frame _) ⟨s, log⟩
    exact obeys_evalContents hrecur hs hv

end

/-- **Evaluation keeps to every discipline.** -/
theorem obeys_eval (depth : Nat) : ∀ (frame : FrameId) (v : Value) (m : Machine), D.machine m →
    D.Holds m.log v → D.Obeys D.Holds (eval depth frame v) m := by
  induction depth with
  | zero => exact fun _ _ _ hm _ => obeys_stop (D.tooDeep hm)
  | succ depth ih => exact fun _ _ _ hm hv => obeys_evalStep ih hm hv

end Discipline

end MiniLisp
