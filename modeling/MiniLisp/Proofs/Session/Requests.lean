import MiniLisp.Proofs.Eval.Changes
import MiniLisp.Proofs.Eval.Matching
import MiniLisp.Proofs.Eval.Yields
import MiniLisp.Proofs.Reader.Written

/-!
# Requests

A request reads a text and evaluates its data in the root frame.  So what evaluation does with every
datum, the request does with all of them.

* `runData_append`: data behind others are evaluated behind them.
* `matches_evaluateData`: matching data keep two runs together.
* `Request.matches_attempt`: **requests keep two sessions together**.
* `session_perform_evaluation`: how the failure of a request is reported does not matter to the session.
* `yields_evaluateFirst`, `yields_runData`: if evaluation yields something of every datum, wherever it
  is started, then so does the request.
-/

namespace MiniLisp

open Eval

/-! ### One datum after the other -/

/-- Evaluates data in order.  The result is the last value; `last` is the value so far. -/
def evaluateData (depth : Nat) (last : Value) (vs : List Value) : Eval Value :=
  vs.foldlM (fun _ v => do emit (.read v); evaluate depth v) last

/-- **Data behind others are evaluated behind them.** -/
theorem runData_append (depth : Nat) (ending : Except ReadError Location) (last : Value)
    (vs ws : List Value) :
    runData depth ending last (vs ++ ws) =
      evaluateData depth last vs >>= fun last => runData depth ending last ws := by
  induction vs generalizing last with
  | nil => rfl
  | cons v vs ih =>
    rw [evaluateData, List.foldlM_cons, bind_assoc, bind_assoc, List.cons_append, runData]
    simp only [ih]
    rfl

/-- The data of a text are evaluated in order, and then the end of the text tells. -/
theorem runData_eq_evaluateData (depth : Nat) (ending : Except ReadError Location) (last : Value)
    (vs : List Value) :
    runData depth ending last vs =
      evaluateData depth last vs >>= fun last => runData depth ending last [] := by
  rw [← runData_append, List.append_nil]

/-- Matching data keep two runs together.  What the values so far have to do with each other matters
only if there are no data. -/
theorem matches_evaluateData {C : Correspondence} {R : Value → Value → Prop} (depth : Nat)
    (hR : ∀ {w w' : Value}, w.Matches C w' → R w w') {vs vs' : List Value}
    (hvs : List.Forall₂ (Value.Matches C) vs vs') {last last' : Value}
    (hlast : vs = [] → R last last') :
    (evaluateData depth last vs).Matches C R (evaluateData depth last' vs') := by
  induction hvs generalizing last last' with
  | nil => exact matches_pure (hlast rfl)
  | cons hv _ ih =>
    rw [evaluateData, evaluateData, List.foldlM_cons, List.foldlM_cons, bind_assoc, bind_assoc]
    refine (matches_emit _ _).bind fun _ => (eval_matches depth Store.rootFrame hv).bind fun hw => ?_
    exact ih fun _ => hR hw

/-! ### Two sessions -/

section

variable {C : Correspondence} (hl : ∀ l, C.location l l)

include hl

/-- What a text denotes holds no function, so it matches itself. -/
theorem Value.Written.matches_self {v : Value} (h : v.Written) : v.Matches C v := by
  refine Value.matches_self hl (Everywhere.mono h fun w hw i hi => ?_)
  cases w with
  | primitive l j code => exact absurd rfl hw.1
  | closure l j parameters body frame => exact absurd rfl hw.1
  | _ => cases hi

omit hl in
theorem matches_runData (depth : Nat) (ending : Except ReadError Location) {vs : List Value}
    (hvs : ∀ v ∈ vs, v.Matches C v) {last last' : Value} (hlast : last.Matches C last') :
    (runData depth ending last vs).Matches C (Value.Matches C) (runData depth ending last' vs) := by
  rw [runData_eq_evaluateData, runData_eq_evaluateData]
  refine (matches_evaluateData depth id (List.forall₂_same.mpr hvs) fun _ => hlast).bind fun hw => ?_
  cases ending with
  | ok l => exact (matches_emit _ _).bind fun _ => matches_pure hw
  | error e => exact matches_stop (.unreadable e)

/-- **Requests keep two sessions together.** -/
theorem Request.matches_attempt (depth : Nat) (r : Request) :
    (r.attempt depth).Matches C (Value.Matches C) (r.attempt depth) := by
  cases r with
  | run text =>
    have hdata : ∀ v ∈ (Reading.ofText text).data, v.Matches C v :=
      fun v hv => (written_data text v hv).matches_self hl
    exact matches_runData depth _ hdata (.nop "" (hl _))
  | answer line =>
    have hread : (readDatum line).Matches C (Value.Matches C) (readDatum line) := by
      unfold readDatum
      cases hread : readFirst line with
      | ok v =>
        refine (matches_emit _ _).bind fun _ => matches_pure ?_
        rcases written_readFirst hread with ⟨hv, _⟩ | ⟨⟨l, rfl⟩, _⟩
        · exact hv.matches_self hl
        · exact .nop "" (hl l)
      | error e => exact matches_stop (.unreadable e)
    exact hread.bind fun hv => eval_matches depth Store.rootFrame hv

end

/-! ### Answers -/

/-- A line that cannot be read stops at once, and a datum that is read is evaluated. -/
theorem run_evaluateFirst (depth : Nat) (line : String) (m : Machine) :
    (evaluateFirst depth line).run m =
      match readFirst line with
      | .error e => (.error (.failed (.unreadable e)), m)
      | .ok v => (evaluate depth v).run ⟨m.store, .read v :: m.log⟩ := by
  rw [evaluateFirst, readDatum]
  cases readFirst line <;> rfl

/-- An answer is what comes of reading and evaluating, with a nothing in place of a failure. -/
theorem run_answer (depth : Nat) (line : String) (m : Machine) :
    (answer depth line).run m =
      (match ((evaluateFirst depth line).run m).1 with
      | .error (.failed failure) => .ok failure.toNop
      | result => result, ((evaluateFirst depth line).run m).2) := by
  show (evaluateFirst depth line).recover Failure.toNop m = _
  rw [recover, Eval.run]
  cases evaluateFirst depth line m with
  | mk result m =>
    cases result with
    | ok v => rfl
    | error stop => cases stop <;> rfl

/-- The session after a request does not depend on how its failure is reported. -/
theorem session_perform_evaluation (depth : Nat) (s : Session) (r : Request) :
    (s.perform (r.evaluation depth)).session = (s.perform (r.attempt depth)).session := by
  cases r with
  | run text => rfl
  | answer line =>
    show Session.mk ((answer depth line).run ⟨s.store, []⟩).2.store = _
    rw [run_answer]
    rfl

/-! ### What requests yield -/

section

variable {I : Store → Prop} {F : Failure → Prop} {Q : Store → Value → Prop} {s : Store}

theorem yields_evaluateFirst {depth : Nat} {line : String} (hF : ∀ e, F (.unreadable e)) (hs : I s)
    (heval : ∀ v, readFirst line = .ok v → (evaluate depth v).Yields I F Q s) :
    (evaluateFirst depth line).Yields I F Q s := by
  show (readDatum line >>= evaluate depth).Yields I F Q s
  unfold readDatum
  cases hread : readFirst line with
  | error e => exact fun log => yields_stop hs (fun _ h => by cases h; exact hF e) log
  | ok v =>
    show (emit (.read v) >>= fun _ => evaluate depth v).Yields I F Q s
    exact yields_emit_bind (heval v hread)

theorem yields_runData {depth : Nat} {ending : Except ReadError Location}
    (hF : ∀ e, F (.unreadable e)) {vs : List Value} {last : Value} (hs : I s) (hlast : Q s last)
    (heval : ∀ v ∈ vs, ∀ t, s.Grows t → I t → (evaluate depth v).Yields I F Q t) :
    (runData depth ending last vs).Yields I F Q s := by
  induction vs generalizing last s with
  | nil =>
    cases ending with
    | ok l => exact yields_emit_bind (yields_pure hs hlast)
    | error e => exact yields_stop hs fun _ h => by cases h; exact hF e
  | cons v vs ih =>
    refine yields_emit_bind ((heval v List.mem_cons_self s (.refl s) hs).bind ?_)
    intro t w hst ht hw
    refine ih ht hw fun u hu t' htt' ht' => ?_
    exact heval u (List.mem_cons_of_mem v hu) t' (hst.trans htt') ht'

end

end MiniLisp
