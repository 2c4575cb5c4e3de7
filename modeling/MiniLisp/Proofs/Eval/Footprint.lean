import MiniLisp.Proofs.Eval.Moves
import Mathlib

/-!
# The footprint of evaluation

Evaluation works in one frame.  It may bind names there, namely those that the value defines, and in
the frames that it makes itself.  Every other frame stays as it is.

Each rule of evaluation makes nested changes, and so does evaluation as a whole.

* `eval_moves`: the changes of an evaluation are nested, and they lead to the frames after it.
* `session_moves`: so are those of a session.
* `eval_footprint`: **evaluation changes no frame but the one it works in**.
-/

namespace MiniLisp

open Eval

/-! ### The changes of evaluation are nested -/

/-- An evaluation that leaves all frames as they are. -/
def Eval.Quiet {α : Type} (e : Eval α) : Prop :=
  ∀ m, (e.run m).2.store.frames = m.store.frames

/-- An evaluation makes certain changes, nested, while working in a frame. -/
def Eval.Makes {α : Type} (e : Eval α) (frame : Nat) (names : String → Prop)
    (trace : Machine → List Change) : Prop :=
  ∀ m, Moves frame names m.store.frames (trace m) (e.run m).2.store.frames

section

variable {α β : Type} {e : Eval α} {f : α → Eval β} {frame : Nat} {names : String → Prop}
  {trace : Machine → List Change}

theorem Eval.Quiet.makes (h : e.Quiet) : e.Makes frame names fun _ => [] := by
  intro m
  rw [h m]
  exact .quiet _ _ _

theorem Eval.Quiet.bind (he : e.Quiet) (hf : ∀ a, (f a).Quiet) : (e >>= f).Quiet := by
  intro m
  have he := he m
  rw [run_bind]
  cases hrun : e.run m with
  | mk result m' =>
    rw [hrun] at he
    cases result with
    | ok a => exact (hf a m').trans he
    | error s => exact he

namespace Eval.Makes

theorem mono {names' : String → Prop} (he : e.Makes frame names trace)
    (h : ∀ x, names x → names' x) : e.Makes frame names' trace :=
  fun m => (he m).mono h

/-- The changes of two evaluations in turn. -/
theorem bind {rest : α → Machine → List Change} (he : e.Makes frame names trace)
    (hf : ∀ a, (f a).Makes frame names (rest a)) :
    (e >>= f).Makes frame names fun m => trace m ++ e.onward rest m := by
  intro m
  have he := he m
  show Moves frame names _ (trace m ++ e.onward rest m) _
  rw [run_bind, onward]
  cases hrun : e.run m with
  | mk result m' =>
    rw [hrun] at he
    cases result with
    | ok a => exact he.append (hf a m')
    | error s => rw [List.append_nil]; exact he

theorem after_quiet {rest : α → Machine → List Change} (he : e.Quiet)
    (hf : ∀ a, (f a).Makes frame names (rest a)) :
    (e >>= f).Makes frame names (e.onward rest) :=
  fun m => he.makes.bind hf m

theorem then_quiet (he : e.Makes frame names trace) (hf : ∀ a, (f a).Quiet) :
    (e >>= f).Makes frame names trace := by
  intro m
  have h : Moves frame names _ (trace m ++ e.onward (fun _ _ => []) m) _ :=
    he.bind (fun a => (hf a).makes) m
  have honward : e.onward (fun _ _ => []) m = [] := by
    rw [onward]
    cases e.run m with
    | mk result m' => cases result <;> rfl
  rw [honward, List.append_nil] at h
  exact h

end Eval.Makes

end

section

variable {α : Type}

theorem quiet_pure (a : α) : (pure a : Eval α).Quiet := fun _ => rfl

theorem quiet_stop (s : Stop) : (stop s : Eval α).Quiet := fun _ => rfl

theorem quiet_fail (cause : Cause) (l : Location) : (fail cause l : Eval α).Quiet := fun _ => rfl

theorem quiet_emit (e : Event) : (emit e).Quiet := fun _ => rfl

theorem quiet_lookup (frame : FrameId) (key : Value) : (lookup frame key).Quiet := by
  intro m
  rw [lookup, run_bind]
  show (((lift (m.store.get frame key)).run m).2.store.frames) = _
  cases m.store.get frame key <;> rfl

theorem frames_primitive? {s s' : Store} {frame : FrameId} {code : Primitive} {head : Location}
    {operands : List Value} {result : Except Fault Value}
    (h : s.primitive? frame code head operands = some (result, s')) : s'.frames = s.frames := by
  unfold Store.primitive? at h
  split at h
  · unfold Store.lambda? at h
    split at h
    · split at h
      · cases h; rfl
      · cases h; rfl
    · cases h
  · obtain ⟨r, _, hr⟩ := Option.map_eq_some_iff.mp h
    cases hr
    rfl

theorem quiet_callPrimitive (frame : FrameId) (head : Location) (code : Primitive)
    (operands : List Value) : (callPrimitive frame head code operands).Quiet := by
  unfold callPrimitive
  split
  · refine (quiet_emit _).bind fun _ m => ?_
    have hget : getStore.run m = (.ok m.store, m) := rfl
    rw [run_bind, hget]
    dsimp only
    cases hp : m.store.primitive? frame code head operands with
    | none => rfl
    | some outcome =>
      obtain ⟨result, store⟩ := outcome
      have hframes := frames_primitive? hp
      cases result with
      | ok v => exact hframes
      | error f => exact hframes
  · exact quiet_fail _ _

end

/-! ### One rule after the other -/

theorem makes_insert {frame : Nat} {names : String → Prop} {x : String} (v : Value) (hx : names x) :
    (update fun s => s.insert frame x v).Makes frame names fun _ => [.bound frame x v] :=
  fun m => .bound m.store.frames v hx

theorem makes_insertAll {frame : Nat} {pairs : List (String × Value)} :
    (update fun s => s.insertAll frame pairs).Makes frame (fun _ => True)
      fun _ => pairs.map fun p => .bound frame p.1 p.2 := by
  intro m
  show Moves frame _ m.store.frames _ (m.store.insertAll frame pairs).frames
  generalize m.store = s
  induction pairs generalizing s with
  | nil => exact .quiet _ _ _
  | cons p pairs ih =>
    exact Moves.append (.bound s.frames p.2 trivial) (ih (s.insert frame p.1 p.2))

/-- What is done in a new frame touches no other one. -/
theorem makes_spawn {α : Type} {frame parent : Nat} {names : String → Prop} {body : FrameId → Eval α}
    {trace : FrameId → Machine → List Change}
    (h : ∀ inner, (body inner).Makes inner (fun _ => True) (trace inner)) :
    (spawn parent >>= body).Makes frame names (scopeChanges parent trace) :=
  fun m => .scope (h m.store.frames.size ((spawn parent).run m).2)

theorem mem_definedNames_list {x : String} {l : Location} {head : Value} {operands : List Value} :
    x ∈ (Value.list l (head :: operands)).definedNames ↔
      head.symbol? ≠ some letName ∧ (definedName? (head :: operands) = some x ∨
        x ∈ head.definedNames ∨ x ∈ Value.elementNames operands) := by
  rw [Value.definedNames, List.head?_cons, Option.bind_some]
  by_cases hlet : head.symbol? = some letName
  · simp [hlet]
  · simp [hlet, Value.elementNames]

section

variable {recur : Evaluator} {trace : Tracer}
  (hrecur : ∀ frame v, (recur frame v).Makes frame (· ∈ v.definedNames) (trace frame v))

include hrecur

theorem makes_evalElements (frame : FrameId) : ∀ vs : List Value,
    (evalElements recur frame vs).Makes frame (· ∈ Value.elementNames vs)
      (elementChanges recur trace frame vs) := by
  intro vs
  induction vs with
  | nil => exact (quiet_pure []).makes
  | cons v vs ih =>
    refine ((hrecur frame v).mono fun x hx => ?_).bind fun w => Makes.then_quiet (ih.mono ?_) ?_
    · exact List.mem_append_left _ hx
    · exact fun x hx => List.mem_append_right _ hx
    · exact fun ws => quiet_pure _

theorem makes_evalEntries (frame : FrameId) : ∀ es : List (Value × Value),
    (evalEntries recur frame es).Makes frame (· ∈ Value.entryNames es)
      (elementChanges recur trace frame (es.map Prod.snd)) := by
  intro es
  induction es with
  | nil => exact (quiet_pure []).makes
  | cons e es ih =>
    obtain ⟨key, v⟩ := e
    refine ((hrecur frame v).mono fun x hx => ?_).bind fun w => Makes.then_quiet (ih.mono ?_) ?_
    · exact List.mem_append_left _ hx
    · exact fun x hx => List.mem_append_right _ hx
    · exact fun ws => quiet_pure _

theorem makes_define (frame : FrameId) (head : Location) (operands : List Value) :
    (define recur frame head operands).Makes frame
      (fun x => ∃ key value, operands = [key, value] ∧
        (key.symbol? = some x ∨ x ∈ value.definedNames))
      (definitionChanges recur trace frame operands) := by
  match operands with
  | [key, value] =>
    intro m
    simp only [define, definitionChanges]
    cases hkey : key.symbol? with
    | none => exact (quiet_fail _ _).makes m
    | some name =>
      refine Makes.bind ((hrecur frame value).mono ?_) (fun v => ?_) m
      · exact fun x hx => ⟨key, value, rfl, Or.inr hx⟩
      · refine (makes_insert v ?_).then_quiet fun _ => quiet_pure v
        exact ⟨key, value, rfl, Or.inl hkey⟩
  | [] => exact (quiet_fail _ _).makes
  | [_] => exact (quiet_fail _ _).makes
  | _ :: _ :: _ :: _ => exact (quiet_fail _ _).makes

theorem makes_bindPairs (frame : FrameId) : ∀ pairs : List (Value × Value),
    (bindPairs recur frame pairs).Makes frame (fun _ => True)
      (pairChanges recur trace frame pairs) := by
  intro pairs
  induction pairs with
  | nil => exact (quiet_pure ()).makes
  | cons p pairs ih =>
    obtain ⟨key, value⟩ := p
    intro m
    simp only [bindPairs, pairChanges]
    cases hkey : key.symbol? with
    | none => exact (quiet_fail _ _).makes m
    | some name =>
      refine Makes.bind ((hrecur frame value).mono fun _ _ => trivial) (fun v => ?_) m
      exact (makes_insert v trivial).bind fun _ => ih

theorem makes_bindLocally (frame i : Nat) (names : String → Prop) (head : Location)
    (operands : List Value) :
    (bindLocally recur frame head operands).Makes i names
      (localChanges recur trace frame operands) := by
  match operands with
  | [bindings, body] =>
    intro m
    simp only [bindLocally, localChanges]
    cases bindings.elements? with
    | none => exact (quiet_fail _ _).makes m
    | some elements =>
      dsimp only
      cases Value.pairs elements with
      | error key => exact (quiet_fail _ _).makes m
      | ok pairs =>
        refine makes_spawn (fun inner => ?_) m
        refine (makes_bindPairs hrecur inner pairs).bind fun _ => ?_
        exact (hrecur inner body).mono fun _ _ => trivial
  | [] => exact (quiet_fail _ _).makes
  | [_] => exact (quiet_fail _ _).makes
  | _ :: _ :: _ :: _ => exact (quiet_fail _ _).makes

theorem makes_callClosure (i : Nat) (names : String → Prop) (head : Location)
    (parameters : Parameters) (body : Value) (captured : FrameId) (operands : List Value) :
    (callClosure recur head parameters body captured operands).Makes i names
      (callChanges trace head parameters body captured operands) := by
  refine Makes.after_quiet (quiet_emit _) fun _ m => ?_
  show Moves i names _ _ (Eval.run (if _ then _ else _) m).2.store.frames
  split
  · refine makes_spawn (fun inner => ?_) m
    cases parameters.bind? head operands with
    | none => exact (quiet_stop _).makes
    | some pairs =>
      refine makes_insertAll.bind fun _ => ?_
      exact (hrecur inner body).mono fun _ _ => trivial
  · exact (quiet_fail _ _).makes m

theorem makes_apply (frame i : Nat) (names : String → Prop) (head : Value) (operands : List Value) :
    (apply recur frame head operands).Makes i names (applyChanges trace head operands) := by
  intro m
  simp only [apply, applyChanges]
  cases operands.find? Value.isNop with
  | some nothing => exact (quiet_fail _ _).makes m
  | none =>
    cases head with
    | closure location identity parameters body captured =>
      exact makes_callClosure hrecur i names location parameters body captured operands m
    | primitive location identity code =>
      exact (quiet_callPrimitive frame location code operands).makes m
    | _ => exact (quiet_fail _ _).makes m

theorem makes_evalContents (frame : FrameId) (v : Value) (hv : ∀ l vs, v ≠ .list l vs) :
    (evalContents recur frame v).Makes frame (· ∈ v.definedNames)
      (contentChanges recur trace frame v) := by
  refine Makes.after_quiet (quiet_emit _) fun _ => ?_
  cases v with
  | list l vs => exact absurd rfl (hv l vs)
  | vector l vs => exact (makes_evalElements hrecur frame vs).then_quiet fun _ => quiet_pure _
  | map l es => exact (makes_evalEntries hrecur frame es).then_quiet fun _ => quiet_pure _
  | symbol l name => exact (quiet_lookup frame _).makes
  | _ => exact (quiet_pure _).makes

theorem makes_evalForm (frame : FrameId) (l : Location) (head : Value) (operands : List Value) :
    (evalForm recur frame (.list l (head :: operands)) head operands).Makes frame
      (· ∈ (Value.list l (head :: operands)).definedNames)
      (formChanges recur trace frame (.list l (head :: operands)) head operands) := by
  refine Makes.after_quiet (quiet_emit _) fun _ m => ?_
  by_cases hdefine : head.symbol? = some defineName
  · rw [if_pos hdefine, if_pos hdefine]
    refine Makes.then_quiet ((makes_define hrecur frame head.location operands).mono ?_) ?_ m
    · rintro x ⟨key, value, rfl, hx⟩
      rw [mem_definedNames_list]
      refine ⟨by rw [hdefine]; decide, ?_⟩
      rcases hx with hx | hx
      · exact Or.inl ((if_pos hdefine).trans hx)
      · exact Or.inr (Or.inr (by simp [Value.elementNames, hx]))
    · intro v
      cases operands with
      | nil => exact quiet_stop _
      | cons key operands => exact (quiet_emit _).bind fun _ => quiet_pure v
  · rw [if_neg hdefine, if_neg hdefine]
    by_cases hlet : head.symbol? = some letName
    · rw [if_pos hlet, if_pos hlet]
      exact makes_bindLocally hrecur frame frame _ head.location operands m
    · rw [if_neg hlet, if_neg hlet]
      refine Makes.bind ((hrecur frame head).mono fun x hx => ?_) (fun function => ?_) m
      · exact mem_definedNames_list.mpr ⟨hlet, Or.inr (Or.inl hx)⟩
      · cases function.passing? with
        | none => exact (quiet_fail _ _).makes
        | some passing =>
          cases passing with
          | unevaluated => exact makes_apply hrecur frame frame _ function operands
          | evaluated =>
            refine Makes.bind ((makes_evalElements hrecur frame operands).mono fun x hx => ?_)
              (fun vs => makes_apply hrecur frame frame _ function vs)
            exact mem_definedNames_list.mpr ⟨hlet, Or.inr (Or.inr hx)⟩

theorem makes_evalStep (frame : FrameId) (v : Value) :
    (evalStep recur frame v).Makes frame (· ∈ v.definedNames)
      (stepChanges recur trace frame v) := by
  cases v with
  | list l vs =>
    cases vs with
    | nil => exact (quiet_pure _).makes
    | cons head operands => exact makes_evalForm hrecur frame l head operands
  | _ => exact makes_evalContents hrecur frame _ (by simp)

end

/-- **The changes of an evaluation are nested, and they lead to the frames after it.** -/
theorem eval_moves : ∀ (depth : Nat) (frame : FrameId) (v : Value),
    (eval depth frame v).Makes frame (· ∈ v.definedNames) (changes depth frame v) := by
  intro depth
  induction depth with
  | zero => exact fun frame v => (quiet_stop _).makes
  | succ depth ih => exact makes_evalStep ih

/-! ### Sessions -/

theorem makes_runData (depth : Nat) (ending : Except ReadError Location) :
    ∀ (vs : List Value) (last : Value), (runData depth ending last vs).Makes Store.rootFrame
      (fun _ => True) (dataChanges depth vs) := by
  intro vs
  induction vs with
  | nil =>
    intro last
    cases ending with
    | ok l => exact ((quiet_emit _).bind fun _ => quiet_pure last).makes
    | error e => exact (quiet_stop _).makes
  | cons v vs ih =>
    intro last
    refine Makes.after_quiet (quiet_emit _) fun _ => ?_
    exact ((eval_moves depth Store.rootFrame v).mono fun _ _ => trivial).bind fun w => ih w

theorem makes_request (depth : Nat) (r : Request) :
    (r.evaluation depth).Makes Store.rootFrame (fun _ => True) (r.changes depth) := by
  cases r with
  | run text => exact makes_runData depth _ _ _
  | answer line =>
    have hread : (readDatum line).Quiet := by
      unfold readDatum
      cases readFirst line with
      | ok v => exact (quiet_emit _).bind fun _ => quiet_pure v
      | error e => exact quiet_stop _
    have hfirst : (evaluateFirst depth line).Makes Store.rootFrame (fun _ => True)
        ((Request.answer line).changes depth) :=
      Makes.after_quiet hread fun v => (eval_moves depth Store.rootFrame v).mono fun _ _ => trivial
    intro m
    have hrecover : (((evaluateFirst depth line).recover Failure.toNop).run m).2 =
        ((evaluateFirst depth line).run m).2 := by
      show ((evaluateFirst depth line).recover Failure.toNop m).2 = (evaluateFirst depth line m).2
      rw [recover]
      cases evaluateFirst depth line m with
      | mk result m' =>
        cases result with
        | ok v => rfl
        | error stop => cases stop <;> rfl
    show Moves _ _ _ _ (((evaluateFirst depth line).recover Failure.toNop).run m).2.store.frames
    rw [hrecover]
    exact hfirst m

/-- The changes of a session are nested, and they lead to its frames. -/
theorem session_moves (depth : Nat) : ∀ (requests : List Request) (s : Session),
    Moves Store.rootFrame (fun _ => True) s.store.frames (s.changes depth requests)
      (s.after depth requests).store.frames := by
  intro requests
  induction requests with
  | nil => intro s; exact .quiet _ _ _
  | cons r rs ih =>
    intro s
    exact (makes_request depth r ⟨s.store, []⟩).append (ih (s.perform (r.evaluation depth)).session)

/-! ### The footprint -/

/-- **Evaluation changes no frame but the one it works in**, and binds there only the names that the
value defines.  Local bindings and calls change no frame at all that was there before.  The frames
that a session makes for them are left, and from then on they stay as they are. -/
theorem eval_footprint (depth : Nat) :
    (∀ (frame : FrameId) (v : Value) (m : Machine),
      m.store.KeepsBut frame v.definedNames ((eval depth frame v).run m).2.store) ∧
    (∀ (frame : FrameId) (head : Location) (operands : List Value) (m : Machine),
      m.store.Keeps ((bindLocally (eval depth) frame head operands).run m).2.store) ∧
    (∀ (head : Location) (parameters : Parameters) (body : Value) (captured : FrameId)
      (operands : List Value) (m : Machine), m.store.Keeps
        ((callClosure (eval depth) head parameters body captured operands).run m).2.store) ∧
    (∀ (frame : FrameId) (head : Value) (operands : List Value) (m : Machine),
      m.store.Keeps ((apply (eval depth) frame head operands).run m).2.store) ∧
    ∀ (settings : Settings) (requests : List Request),
      Settles (Session.fresh settings).store.frames
        ((Session.fresh settings).changes depth requests)
        ((Session.fresh settings).after depth requests).store.frames := by
  have hrecur := eval_moves depth
  refine ⟨fun frame v m => (hrecur frame v m).keepsBut, ?_, ?_, ?_, ?_⟩
  · intro frame head operands m
    exact (makes_bindLocally hrecur frame _ (fun _ => True) head operands m).keeps (Nat.le_refl _)
  · intro head parameters body captured operands m
    exact (makes_callClosure hrecur _ (fun _ => True) head parameters body captured operands
      m).keeps (Nat.le_refl _)
  · intro frame head operands m
    exact (makes_apply hrecur frame _ (fun _ => True) head operands m).keeps (Nat.le_refl _)
  · intro settings requests
    exact (session_moves depth requests (Session.fresh settings)).settles Nat.zero_lt_one

/-- A session that binds a name locally, fails there, and binds another name for good. -/
theorem eval_footprint_local :
    Settles (Session.fresh .default).store.frames
      [.opened 0, .bound 1 "x" (.keyword ⟨1, 10⟩ "a"), .left 1,
        .bound 0 "y" (.keyword ⟨1, 9⟩ "b")]
      ((Session.fresh .default).after 3
        [.run "(let* (x :a) (def! x))", .answer "(def! y :b)"]).store.frames := by
  have hchanges : (Session.fresh .default).changes 3
      [.run "(let* (x :a) (def! x))", .answer "(def! y :b)"] =
      [.opened 0, .bound 1 "x" (.keyword ⟨1, 10⟩ "a"), .left 1,
        .bound 0 "y" (.keyword ⟨1, 9⟩ "b")] := by cbv
  rw [← hchanges]
  exact (eval_footprint 3).2.2.2.2 .default _

end MiniLisp
