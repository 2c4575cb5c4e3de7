import MiniLisp.Proofs.Builtin.Answers
import MiniLisp.Proofs.Session.History
import MiniLisp.Proofs.Store.Growth

/-!
# Functions are known by where they come from

A function comes into being in one of two ways: a fresh session has the primitives, and `fn*` makes a
closure.  The report that a call of `fn*` has a result is therefore the report that a function is made, and
the history of a session tells of all functions that ever were (`origins`).  Afterwards a function is only
handed on, and at most moved to another place.

* `Value.StemsFrom`: a function is a copy of one that was made, possibly moved.
* `Identified`: every function in a store and in the events so far stems from one that was made, and the
  identities are the numbers in the order of their making.
* `Identified.equal_iff`: **functions are equal just if they stem from the same origin**.
* `Identified.fresh`: `fn*` makes a function that is equal to none before.
* `Identified.eval`: evaluation keeps that, however it ends.
* `function_identity_sound`: all this in a session, and what hands functions on.
-/

namespace MiniLisp

open Eval

/-! ### Origins -/

/-- The function that is made when an event is reported. -/
def Event.made? : Event → Option Value
  | .returned .lambda c => some c
  | _ => none

/-- The functions that were made, in the order of their making: the primitives of a fresh session, and
then what the evaluations of `fn*` came to. -/
def origins (history : List Event) : List Value :=
  (Primitive.all.zipIdx.map fun p => .primitive .builtin p.2 p.1) ++ history.filterMap Event.made?

theorem origins_append (history history' : List Event) :
    origins (history ++ history') = origins history ++ history'.filterMap Event.made? := by
  simp [origins]

/-- Most events make no function. -/
theorem origins_concat {e : Event} (he : e.made? = none) (history : List Event) :
    origins (history ++ [e]) = origins history := by
  rw [origins_append, List.filterMap_cons_none he, List.filterMap_nil, List.append_nil]

namespace Value

/-- A value stems from the function with a certain number: it is that function, possibly moved. -/
def StemsFrom (functions : List Value) (k : Nat) (v : Value) : Prop :=
  ∃ c, functions[k]? = some c ∧ v = c.moveTo v.location

/-- If a value is a function, it stems from one that was made. -/
def Stems (functions : List Value) (v : Value) : Prop :=
  v.tag = .function → ∃ k, v.StemsFrom functions k

variable {functions functions' : List Value} {k : Nat} {u v : Value}

@[simp] theorem moveTo_moveTo (v : Value) (l l' : Location) : (v.moveTo l).moveTo l' = v.moveTo l' := by
  cases v <;> rfl

@[simp] theorem moveTo_location (v : Value) : v.moveTo v.location = v := by
  cases v <;> rfl

@[simp] theorem identity?_moveTo (v : Value) (l : Location) : (v.moveTo l).identity? = v.identity? := by
  cases v <;> rfl

/-- **Two functions are equal just if they have one identity.** -/
theorem equal_iff_identity? (hu : u.tag = .function) (hv : v.tag = .function) :
    u.equal v = true ↔ u.identity? = v.identity? := by
  cases u <;> cases hu <;> cases v <;> cases hv <;> simp [equal, identity?]

theorem StemsFrom.moveTo (h : v.StemsFrom functions k) (l : Location) :
    (v.moveTo l).StemsFrom functions k := by
  obtain ⟨c, hc, hv⟩ := h
  refine ⟨c, hc, ?_⟩
  rw [location_moveTo, hv, moveTo_moveTo]

theorem StemsFrom.append (h : v.StemsFrom functions k) (functions' : List Value) :
    v.StemsFrom (functions ++ functions') k := by
  obtain ⟨c, hc, hv⟩ := h
  exact ⟨c, by rw [List.getElem?_append_left (List.getElem?_eq_some_iff.mp hc).1, hc], hv⟩

theorem Stems.moveTo (h : v.Stems functions) (l : Location) : (v.moveTo l).Stems functions := by
  intro htag
  rw [tag_moveTo] at htag
  obtain ⟨k, hk⟩ := h htag
  exact ⟨k, hk.moveTo l⟩

theorem Stems.append (h : v.Stems functions) (functions' : List Value) :
    v.Stems (functions ++ functions') := by
  intro htag
  obtain ⟨k, hk⟩ := h htag
  exact ⟨k, hk.append functions'⟩

theorem stems_of_ne_function (h : v.tag ≠ .function) : v.Stems functions :=
  fun htag => absurd htag h

theorem stems_nop (functions : List Value) (l : Location) : (nop l "").Everywhere (Stems functions) :=
  .atom (stems_of_ne_function (by simp [tag])) rfl

end Value

/-! ### Stores whose functions are known -/

/-- Every function in a store and in the events so far stems from one that was made, and the identity of
a function is its number in the order of their making. -/
structure Identified (history : List Event) (s : Store) : Prop where
  count : s.functions = (origins history).length
  identity : ∀ {k : Nat} {c : Value}, (origins history)[k]? = some c →
    c.tag = .function ∧ c.identity? = some k
  binds : s.Binds fun _ _ v => v.Everywhere (Value.Stems (origins history))
  /-- What an event shows stems from what was made up to the event. -/
  shown : ∀ {before after : List Event} {e : Event}, history = before ++ e :: after → ∀ v ∈ e.values,
    v.Everywhere (Value.Stems (origins (before ++ [e])))

/-- A function occurs in a store or in the events so far: a frame binds it, or an event shows it, at any
depth. -/
def Occurs (history : List Event) (s : Store) (u : Value) : Prop :=
  u.tag = .function ∧
    ((∃ frame x v, s.binding? frame x = some v ∧ v.Contains u) ∨
      ∃ e ∈ history, ∃ v ∈ e.values, v.Contains u)

namespace Identified

variable {history : List Event} {s : Store}

/-! #### Equality -/

section

variable {u v : Value} {k j : Nat}

theorem of_stemsFrom (h : Identified history s) (hu : u.StemsFrom (origins history) k) :
    u.tag = .function ∧ u.identity? = some k := by
  obtain ⟨c, hc, hu⟩ := hu
  rw [hu, Value.tag_moveTo, Value.identity?_moveTo]
  exact h.identity hc

/-- **Functions are equal just if they stem from the same origin.** -/
theorem equal_iff (h : Identified history s) (hu : u.StemsFrom (origins history) k)
    (hv : v.StemsFrom (origins history) j) : u.equal v = true ↔ k = j := by
  obtain ⟨hutag, huid⟩ := h.of_stemsFrom hu
  obtain ⟨hvtag, hvid⟩ := h.of_stemsFrom hv
  rw [Value.equal_iff_identity? hutag hvtag, huid, hvid, Option.some.injEq]

/-- Functions of one origin differ only in their places. -/
theorem eq_moveTo (hu : u.StemsFrom (origins history) k) (hv : v.StemsFrom (origins history) k) :
    v = u.moveTo v.location := by
  obtain ⟨c, hc, hu⟩ := hu
  obtain ⟨d, hd, hv⟩ := hv
  cases hc.symm.trans hd
  rw [hu, Value.moveTo_moveTo]
  exact hv

theorem unique (h : Identified history s) (hu : u.StemsFrom (origins history) k)
    (hu' : u.StemsFrom (origins history) j) : k = j := by
  have hk := (h.of_stemsFrom hu).2
  have hj := (h.of_stemsFrom hu').2
  exact Option.some.inj (hk.symm.trans hj)

end

/-- **`fn*` makes a function that is equal to none before.** -/
theorem fresh (h : Identified history s) {frame : FrameId} {l : Location} {vs : List Value} {c : Value}
    {t : Store} (hc : s.primitive? frame .lambda l vs = some (.ok c, t)) {u : Value} {k : Nat}
    (hu : u.StemsFrom (origins history) k) : u.equal c = false := by
  have hlambda : c.tag = .function ∧ c.identity? = some s.functions := by
    simp only [Store.primitive?, Store.lambda?] at hc
    split at hc
    · split at hc
      · cases hc
      · cases hc; exact ⟨rfl, rfl⟩
    · cases hc
  obtain ⟨hutag, huid⟩ := h.of_stemsFrom hu
  obtain ⟨d, hd, _⟩ := hu
  have hk : k < s.functions := by rw [h.count]; exact (List.getElem?_eq_some_iff.mp hd).1
  rw [Bool.eq_false_iff, Ne, Value.equal_iff_identity? hutag hlambda.1, huid, hlambda.2,
    Option.some.injEq]
  omega

/-- What `fn*` came to stems from that evaluation, and what was made before is not equal to it. -/
theorem made {before after : List Event} {c : Value}
    (h : Identified (before ++ .returned .lambda c :: after) s) :
    c.StemsFrom (origins (before ++ .returned .lambda c :: after)) (origins before).length ∧
      ∀ {u : Value} {k : Nat}, u.StemsFrom (origins before) k → u.equal c = false := by
  have horigins : origins (before ++ .returned .lambda c :: after) =
      origins before ++ c :: after.filterMap Event.made? :=
    origins_append before _
  have hc : c.StemsFrom (origins (before ++ .returned .lambda c :: after)) (origins before).length := by
    refine ⟨c, ?_, (Value.moveTo_location c).symm⟩
    rw [horigins, List.getElem?_append_right (Nat.le_refl _), Nat.sub_self]
    rfl
  refine ⟨hc, fun {u k} hu => ?_⟩
  have hk : k < (origins before).length := by
    obtain ⟨d, hd, _⟩ := hu
    exact (List.getElem?_eq_some_iff.mp hd).1
  have hu : u.StemsFrom (origins (before ++ .returned .lambda c :: after)) k := by
    rw [horigins]
    exact hu.append _
  rw [Bool.eq_false_iff, Ne, h.equal_iff hu hc]
  omega

/-! #### What happens to a store -/

theorem later {v : Value} (hv : v.Everywhere (Value.Stems (origins history))) (history' : List Event) :
    v.Everywhere (Value.Stems (origins (history ++ history'))) := by
  rw [origins_append]
  exact hv.mono fun w hw => hw.append _

/-- One event more is shown, which shows only what is known. -/
theorem shown_concat (h : Identified history s) {e : Event}
    (he : ∀ v ∈ e.values, v.Everywhere (Value.Stems (origins (history ++ [e])))) :
    ∀ {before after : List Event} {e' : Event}, history ++ [e] = before ++ e' :: after →
      ∀ v ∈ e'.values, v.Everywhere (Value.Stems (origins (before ++ [e']))) := by
  intro before after e' heq
  rcases List.eq_nil_or_concat after with rfl | ⟨after, last, rfl⟩
  · obtain ⟨rfl, hlast⟩ := List.append_inj' heq rfl
    cases hlast
    exact he
  · rw [List.concat_eq_append, ← List.cons_append, ← List.append_assoc] at heq
    exact h.shown (List.append_inj' heq rfl).1

theorem report (h : Identified history s) {e : Event} (he : e.made? = none)
    (hvalues : ∀ v ∈ e.values, v.Everywhere (Value.Stems (origins history))) :
    Identified (history ++ [e]) s := by
  refine ⟨?_, ?_, ?_, h.shown_concat ?_⟩ <;> rw [origins_concat he]
  · exact h.count
  · exact h.identity
  · exact h.binds
  · exact hvalues

theorem insert (h : Identified history s) {v : Value}
    (hv : v.Everywhere (Value.Stems (origins history))) (frame : FrameId) (x : String) :
    Identified history (s.insert frame x v) :=
  ⟨h.count, h.identity, h.binds.insert hv, h.shown⟩

theorem spawn (h : Identified history s) (parent : FrameId) :
    Identified history (s.spawn parent).2 :=
  ⟨h.count, h.identity, h.binds.spawn parent, h.shown⟩

/-- A closure is made.  Its number is the next one. -/
theorem make (h : Identified history s) (l : Location) (p : Parameters) {body : Value}
    (frame : FrameId) (hbody : body.Everywhere (Value.Stems (origins history))) :
    let c := Value.closure l s.functions p body frame
    c.Everywhere (Value.Stems (origins (history ++ [.returned .lambda c]))) ∧
      Identified (history ++ [.returned .lambda c]) s.newFunction.2 := by
  intro c
  have horigins : origins (history ++ [.returned .lambda c]) = origins history ++ [c] :=
    origins_append history _
  have hstems : c.StemsFrom (origins (history ++ [.returned .lambda c])) s.functions := by
    refine ⟨c, ?_, rfl⟩
    rw [horigins, h.count, List.getElem?_concat_length]
  have hc : c.Everywhere (Value.Stems (origins (history ++ [.returned .lambda c]))) := by
    refine .intro (fun _ => ⟨_, hstems⟩) fun w hw => ?_
    rw [List.mem_singleton.mp hw]
    exact later hbody _
  refine ⟨hc, ?_, ?_, h.binds.mono fun _ _ _ hv => later hv _, h.shown_concat ?_⟩
  · rw [horigins, List.length_append, ← h.count]
    rfl
  · intro k d hd
    rw [horigins] at hd
    rcases Nat.lt_trichotomy k (origins history).length with hk | rfl | hk
    · rw [List.getElem?_append_left hk] at hd
      exact h.identity hd
    · rw [List.getElem?_concat_length] at hd
      cases hd
      exact ⟨rfl, by rw [← h.count]; rfl⟩
    · rw [List.getElem?_eq_none (by simpa using hk)] at hd
      cases hd
  · simpa [Event.values] using hc

theorem stemsFrom_of_occurs (h : Identified history s) {u : Value} (hu : Occurs history s u) :
    ∃ k, u.StemsFrom (origins history) k := by
  obtain ⟨htag, ⟨frame, x, v, hv, hcontains⟩ | ⟨e, he, v, hv, hcontains⟩⟩ := hu
  · exact Value.everywhere_iff.mp (h.binds frame x v hv) u hcontains htag
  · obtain ⟨before, after, rfl⟩ := List.append_of_mem he
    have hshown := later (h.shown rfl v hv) after
    rw [List.append_assoc, List.singleton_append] at hshown
    exact Value.everywhere_iff.mp hshown u hcontains htag

end Identified

/-- In a fresh session there are the primitives, each with an identity of its own. -/
theorem identified_fresh (settings : Settings) : Identified [] (.fresh settings) := by
  have horigin : ∀ {k : Nat} {c : Value}, (origins [])[k]? = some c ↔
      ∃ p, Primitive.all[k]? = some p ∧ c = .primitive .builtin k p := by
    intro k c
    simp [origins, List.getElem?_zipIdx, eq_comm]
  refine ⟨by simp [origins, Store.fresh], fun {k c} hc => ?_, fun frame x v hv => ?_, ?_⟩
  · obtain ⟨p, _, rfl⟩ := horigin.mp hc
    exact ⟨rfl, rfl⟩
  · obtain ⟨_, j, p, rfl, _, hp⟩ := Store.primitive_of_binding?_fresh hv
    exact .atom (fun _ => ⟨j, _, horigin.mpr ⟨p, hp, rfl⟩, rfl⟩) rfl
  · intro before after e h
    simp at h

/-! ### Evaluation -/

/-- The latest event of a log is the last one of the history. -/
theorem history_cons (past log : List Event) (e : Event) :
    past ++ (e :: log).reverse = past ++ log.reverse ++ [e] := by
  rw [List.reverse_cons, List.append_assoc]

theorem Identified.cons {past log : List Event} {s : Store} (h : Identified (past ++ log.reverse) s)
    (e : Event) (he : e.made? = none)
    (hvalues : ∀ v ∈ e.values, v.Everywhere (Value.Stems (origins (past ++ log.reverse)))) :
    Identified (past ++ (e :: log).reverse) s := by
  rw [history_cons]
  exact h.report he hvalues

/-- Whatever evaluation handles, its functions are known. -/
def Discipline.identity (past : List Event) : Discipline where
  node log v := v.Stems (origins (past ++ log.reverse))
  machine m := Identified (past ++ m.log.reverse) m.store
  stop m _ := Identified (past ++ m.log.reverse) m.store
  node_emit e h := by
    rw [history_cons, origins_append]
    exact h.append _
  node_plain _ htag _ := Value.stems_of_ne_function fun h => by rw [h] at htag; cases htag
  find h _ hv := by
    obtain ⟨_, hv⟩ := h.binds.find? hv
    exact hv.moveTo (hv.self.moveTo _)
  emit {_ _ e} h he hvalues := by
    refine h.cons e ?_ hvalues
    cases e with
    | returned => cases he
    | _ => rfl
  insert frame x h hv := h.insert hv frame x
  spawn frame h := h.spawn frame
  returned {_ _ code vs v} hcode h hvs hv := by
    refine (h.cons (.call code vs) rfl hvs).cons (.returned code v) ?_ ?_
    · cases code with
      | lambda => exact absurd rfl hcode
      | _ => rfl
    · rw [history_cons]
      exact List.forall_mem_singleton.mpr (Identified.later hv _)
  made {_ _ vs _ _} p frame h _ hbody hvs := by
    have hcall := h.report (e := .call .lambda vs) rfl hvs
    obtain ⟨hc, hmade⟩ := hcall.make _ p frame (Identified.later (hvs _ hbody) _)
    simp only [history_cons]
    exact ⟨hmade, hc.self⟩
  failed {_ _ code vs f} h hvs _ := (h.cons (.call code vs) rfl hvs).cons (.failed code f) rfl nofun
  fault h _ := h
  tooDeep h := h

theorem Discipline.admits_identity (past : List Event) (r : Request) :
    (Discipline.identity past).Admits r where
  datum {s log v} hv h := by
    -- A datum holds no function.
    have hwritten : ∀ functions, v.Everywhere (Value.Stems functions) := fun functions =>
      Value.Everywhere.mono (written_data r.text v hv) fun w hw => Value.stems_of_ne_function hw.1
    exact ⟨Identified.cons h _ rfl (List.forall_mem_singleton.mpr (hwritten _)), hwritten _⟩
  ending l h := Identified.cons h _ rfl (List.forall_mem_singleton.mpr (Value.stems_nop _ l))
  nothing l h := Identified.cons h _ rfl (List.forall_mem_singleton.mpr (Value.stems_nop _ l))
  unreadable _ h := h

/-- **Evaluation keeps functions known**, in whatever frame it is started and however it ends. -/
theorem Identified.eval {history : List Event} {s : Store} (h : Identified history s) (depth : Nat)
    (frame : FrameId) {v : Value} (hv : v.Everywhere (Value.Stems (origins history))) :
    let o := (eval depth frame v).run ⟨s, []⟩
    Identified (history ++ o.2.log.reverse) o.2.store ∧ ∀ w, o.1 = .ok w →
      w.Everywhere (Value.Stems (origins (history ++ o.2.log.reverse))) := by
  intro o
  have hends := Discipline.obeys_eval (D := .identity history) depth frame v ⟨s, []⟩
    (by simpa [Discipline.identity] using h) (by simpa [Discipline.Holds, Discipline.identity] using hv)
  refine ⟨?_, fun w hw => (hends.value hw).2⟩
  cases hresult : o.1 with
  | ok w => exact (hends.value hresult).1
  | error stop => exact hends.stopped hresult

/-! ### What hands functions on -/

/-- The rules that hand values on as they are, at most moved, when evaluation has come to a machine. -/
structure HandsOn (recur : Evaluator) (m : Machine) : Prop where
  /-- A symbol has the value that it is bound to, moved to the symbol.  A function stays equal. -/
  lookup : ∀ {frame : FrameId} {l : Location} {x : String} {v : Value},
    m.store.find? frame x = some v → (lookup frame (.symbol l x)).run m = (.ok (v.moveTo l), m) ∧
      (v.tag = .function → (v.moveTo l).equal v = true)
  /-- A definition binds the value it is given and comes to the same value. -/
  define : ∀ {frame : FrameId} {head l : Location} {x : String} {value v : Value} {n : Machine},
    (recur frame value).run m = (.ok v, n) →
    (define recur frame head [.symbol l x, value]).run m = (.ok v, ⟨n.store.insert frame x v, n.log⟩)
  /-- A local binding binds the value it is given, and the next one is made after it. -/
  bindPairs : ∀ {frame : FrameId} {l : Location} {x : String} {value v : Value} {n : Machine}
    (pairs : List (Value × Value)), (recur frame value).run m = (.ok v, n) →
    (bindPairs recur frame ((.symbol l x, value) :: pairs)).run m =
      (bindPairs recur frame pairs).run ⟨n.store.insert frame x v, n.log⟩
  /-- The body of a closure is evaluated in a new frame, which binds the parameters to the operands and
  the name for the rest to the list of the operands behind. -/
  callClosure : ∀ {p : Parameters} {head : Location} {body : Value} {captured : FrameId}
    {vs : List Value}, (p.arity (m.store.settings captured).strictArity).contains vs.length = true →
    let count := p.positional.length
    let pairs := p.positional.zip (vs.take count) ++
      p.rest.toList.map fun rest => (rest, .list head (vs.drop count))
    (callClosure recur head p body captured vs).run m =
      (recur m.store.frames.size body).run
        ⟨(m.store.spawn captured).2.insertAll m.store.frames.size pairs, .closureCall p vs :: m.log⟩
  /-- `list` and `vector` make a sequence of their operands. -/
  list : ∀ {frame : FrameId} {head : Location} {vs : List Value},
    ((callPrimitive frame head .list vs).run m).1 = .ok (.list head vs)
  vector : ∀ {frame : FrameId} {head : Location} {vs : List Value},
    ((callPrimitive frame head .vector vs).run m).1 = .ok (.vector head vs)
  /-- `if` comes to the operand that its test chooses. -/
  choose : ∀ {frame : FrameId} {head : Location} {test yes : Value} {others : List Value},
    others.length ≤ 1 → ((callPrimitive frame head .choose (test :: yes :: others)).run m).1 =
      .ok (if test.truthy then yes else others.head?.getD (.nil head))
  /-- `do` comes to its last operand. -/
  last : ∀ {frame : FrameId} {head : Location} (vs : List Value) {v : Value},
    ((callPrimitive frame head .last (vs ++ [v])).run m).1 = .ok v

theorem run_callPrimitive_ok (m : Machine) (frame : FrameId) {head : Location} {code : Primitive}
    {vs : List Value} {v : Value} (harity : code.arity.contains vs.length = true)
    (hcode : code ≠ .lambda) (hresult : code.result? head vs = some (.ok v)) :
    ((callPrimitive frame head code vs).run m).1 = .ok v := by
  obtain ⟨log', hrun⟩ := run_callPrimitive_of_result? m.store m.log frame hcode harity hresult
  exact congrArg Prod.fst hrun

theorem handsOn (recur : Evaluator) (m : Machine) : HandsOn recur m where
  lookup {frame l x v} h := by
    refine ⟨?_, fun hv => ?_⟩
    · show (lift (m.store.get frame (.symbol l x))).run m = _
      simp only [Store.get, Value.symbol?, h]
      rfl
    · rw [Value.equal_iff_identity? (by simpa using hv) hv, Value.identity?_moveTo]
  define h := by
    rw [define]
    simp only [Value.symbol?]
    rw [run_bind, h]
    rfl
  bindPairs pairs h := by
    rw [MiniLisp.bindPairs]
    simp only [Value.symbol?]
    rw [run_bind, h]
    rfl
  callClosure {p head body captured vs} harity := by
    exact run_callClosure harity
      (Parameters.bind?_eq_some_iff.mpr ⟨Parameters.length_le_of_contains harity, rfl⟩)
  list := run_callPrimitive_ok m _ (by simp [Primitive.arity]) (by decide) rfl
  vector := run_callPrimitive_ok m _ (by simp [Primitive.arity]) (by decide) rfl
  choose h := run_callPrimitive_ok m _ (by simp [Primitive.arity, Arity.contains]; omega) (by decide) rfl
  last vs := run_callPrimitive_ok m _ (by simp [Primitive.arity]) (by decide) (by simp [Primitive.result?])

/-! ### Sessions -/

section

variable {settings : Settings} {requests : List Request} {past : List Event} {s : Session}

/-- **The functions of a session are known.** -/
theorem Session.Past.identified (h : s.Past settings requests past) : Identified past s.store := by
  induction h with
  | fresh => exact identified_fresh settings
  | @request requests past s depth r _ ih =>
    have hmachine := Discipline.machine_perform (Discipline.admits_identity past r) depth
      (fun hstop => hstop) (s := s) (by simpa [Discipline.identity] using ih)
    simpa [Discipline.identity] using hmachine

/-- **Functions are known by where they come from.**  In a session that has gone through any requests, the
functions are identified, and so they are in what a request comes to.  What that means, for every store
and every history in which functions are identified:

* a function that is bound or was shown, at any depth, stems from just one that was made;
* functions are equal just if they stem from the same one, and then only their places differ;
* a function that `fn*` makes is equal to none that stems from one made before;
* so it was whenever `fn*` made one in the past;
* evaluation, wherever it is started and however it ends, keeps functions identified, and those in its
  value are so too.

And functions are handed on as they are, except that a lookup moves them. -/
theorem function_identity_sound (hs : s.Past settings requests past) :
    Identified past s.store ∧
    (∀ (depth : Nat) (r : Request) (v : Value),
      let o := s.perform (r.attempt depth)
      o.result = .ok v → v.Everywhere (Value.Stems (origins (past ++ o.log)))) ∧
    (∀ (history : List Event) (store : Store), Identified history store →
      (∀ u : Value, Occurs history store u → ∃! k, u.StemsFrom (origins history) k) ∧
      (∀ (u v : Value) (k j : Nat), u.StemsFrom (origins history) k →
        v.StemsFrom (origins history) j →
        (u.equal v = true ↔ k = j) ∧ (u.equal v = true → v = u.moveTo v.location)) ∧
      (∀ (frame : FrameId) (l : Location) (vs : List Value) (c : Value) (store' : Store),
        store.primitive? frame .lambda l vs = some (.ok c, store') →
        ∀ (u : Value) (k : Nat), u.StemsFrom (origins history) k → u.equal c = false) ∧
      (∀ (before after : List Event) (c : Value), history = before ++ .returned .lambda c :: after →
        c.StemsFrom (origins history) (origins before).length ∧
        ∀ (u : Value) (k : Nat), u.StemsFrom (origins before) k → u.equal c = false) ∧
      ∀ (depth : Nat) (frame : FrameId) (v : Value), v.Everywhere (Value.Stems (origins history)) →
        let o := (eval depth frame v).run ⟨store, []⟩
        Identified (history ++ o.2.log.reverse) o.2.store ∧
        ∀ w, o.1 = .ok w → w.Everywhere (Value.Stems (origins (history ++ o.2.log.reverse)))) ∧
    ∀ (recur : Evaluator) (m : Machine), HandsOn recur m := by
  refine ⟨hs.identified, fun depth r v hv => ?_, fun history store h => ⟨fun u hu => ?_,
    fun u v k j hu hv => ?_, fun frame l vs c store' hc u k hu => h.fresh hc hu, ?_,
    fun depth frame v hv => h.eval depth frame hv⟩, handsOn⟩
  · have hends := Discipline.obeys_attempt (Discipline.admits_identity past r) depth
      (m := ⟨s.store, []⟩) (by simpa [Discipline.identity] using hs.identified)
    rcases (hends.value hv).2 with hv | ⟨_, l, rfl⟩
    · exact hv
    · exact Value.stems_nop _ l
  · obtain ⟨k, hk⟩ := h.stemsFrom_of_occurs hu
    exact ⟨k, hk, fun j hj => h.unique hj hk⟩
  · refine ⟨h.equal_iff hu hv, fun hequal => ?_⟩
    obtain rfl := (h.equal_iff hu hv).mp hequal
    exact Identified.eq_moveTo hu hv
  · rintro before after c rfl
    exact ⟨h.made.1, fun u k => h.made.2⟩

end

/-- Two closures with the same text, and one of them under a second name.  The two names of one closure
lead to one origin, and the other closure has another one. -/
theorem function_identity_sound_twins :
    ∃ (s : Session) (past : List Event) (f g h : Value) (k j : Nat),
      s.Past .default [.run "(def! f (fn* (a) a)) (def! g (fn* (a) a)) (def! h f)"] past ∧
      s.store.binding? 0 "f" = some f ∧ s.store.binding? 0 "g" = some g ∧
      s.store.binding? 0 "h" = some h ∧ f.StemsFrom (origins past) k ∧
      h.StemsFrom (origins past) k ∧ g.StemsFrom (origins past) j ∧ k ≠ j := by
  have hs : Session.Past .default _ _ _ :=
    .request 4 (.run "(def! f (fn* (a) a)) (def! g (fn* (a) a)) (def! h f)") .fresh
  have hf : ((Session.fresh .default).perform ((Request.run
      "(def! f (fn* (a) a)) (def! g (fn* (a) a)) (def! h f)").evaluation 4)).session.store.binding? 0 "f" =
      some (.closure ⟨1, 10⟩ 27 ⟨["a"], none⟩ (.symbol ⟨1, 18⟩ "a") 0) := by cbv
  have hg : ((Session.fresh .default).perform ((Request.run
      "(def! f (fn* (a) a)) (def! g (fn* (a) a)) (def! h f)").evaluation 4)).session.store.binding? 0 "g" =
      some (.closure ⟨1, 31⟩ 28 ⟨["a"], none⟩ (.symbol ⟨1, 39⟩ "a") 0) := by cbv
  have hh : ((Session.fresh .default).perform ((Request.run
      "(def! f (fn* (a) a)) (def! g (fn* (a) a)) (def! h f)").evaluation 4)).session.store.binding? 0 "h" =
      some (.closure ⟨1, 51⟩ 27 ⟨["a"], none⟩ (.symbol ⟨1, 18⟩ "a") 0) := by cbv
  generalize (Session.fresh .default).perform _ = o at hs hf hg hh
  obtain ⟨hidentified, -, hall, -⟩ := function_identity_sound hs
  obtain ⟨hstems, hequal, -⟩ := hall _ _ hidentified
  obtain ⟨k, hk, -⟩ := hstems _ ⟨rfl, Or.inl ⟨0, "f", _, hf, .refl _⟩⟩
  obtain ⟨j, hj, -⟩ := hstems _ ⟨rfl, Or.inl ⟨0, "g", _, hg, .refl _⟩⟩
  obtain ⟨i, hi, -⟩ := hstems _ ⟨rfl, Or.inl ⟨0, "h", _, hh, .refl _⟩⟩
  obtain rfl := (hequal _ _ k i hk hi).1.mp rfl
  refine ⟨o.session, _, _, _, _, k, j, hs, hf, hg, hh, hk, hi, hj, fun heq => ?_⟩
  cases (hequal _ _ k j hk hj).1.mpr heq

end MiniLisp
