import MiniLisp.Proofs.Eval.Discipline
import MiniLisp.Proofs.Session.Requests

/-!
# The history of a session

A session is asked for one thing after the other, and every request adds its events to what has happened
before.  `Session.Past` keeps both: what the session was given, and all events since it was fresh.  A
discipline that admits the data of a request is kept by the whole request, and so what it asks of the
machine holds again when the next request begins.

* `readFirst_eq_first`: the first datum of a text is the first of its data.
* `Discipline.obeys_evaluateData`: one datum after the other keeps to a discipline.
* `Discipline.obeys_attempt`: **a request keeps to every discipline that admits it**.
* `Discipline.machine_perform`: what holds of the machine when the request has come to its end.
-/

namespace MiniLisp

open Eval

/-! ### What a request is about -/

/-- The first datum of a reading.  If there is none, the end of the text tells. -/
def Reading.first (r : Reading) : Except ReadError Value :=
  match r.data, r.ending with
  | v :: _, _ => .ok v
  | [], .ok l => .ok (.nop l "")
  | [], .error e => .error e

/-- **The first datum of a text is the first of its data.** -/
theorem readFirst_eq_first (text : String) : readFirst text = (Reading.ofText text).first := by
  rw [readFirst_eq_halt, Reading.ofText, Reader.scan_eq_halt]
  cases Reader.State.initial.halt .start text.toList with
  | ended s l =>
    rw [Reader.Halt.answer, Reader.Halt.reading]
    cases s.atEnd? <;> rfl
  | datum v c => rfl
  | failed e c => rfl

namespace Request

/-- The text that a session is given. -/
def text : Request → String
  | .answer line => line
  | .run text => text

/-- What the text denotes. -/
def reading (r : Request) : Reading :=
  .ofText r.text

end Request

/-- An outcome consists of what the evaluation came to and of the machine it left. -/
theorem Session.perform_eq {α : Type} (s : Session) (e : Eval α) :
    s.perform e =
      ⟨(e.run ⟨s.store, []⟩).1, (e.run ⟨s.store, []⟩).2.log.reverse, ⟨(e.run ⟨s.store, []⟩).2.store⟩⟩ :=
  rfl

/-- The events of a request do not depend on how its failure is reported. -/
theorem log_perform_evaluation (depth : Nat) (s : Session) (r : Request) :
    (s.perform (r.evaluation depth)).log = (s.perform (r.attempt depth)).log := by
  cases r with
  | run text => rfl
  | answer line =>
    rw [Session.perform_eq, Request.evaluation, run_answer]
    rfl

/-- What a session has gone through since it was fresh: the requests, and the events in order. -/
inductive Session.Past (settings : Settings) : List Request → List Event → Session → Prop
  | fresh : Past settings [] [] (.fresh settings)
  | request {requests : List Request} {past : List Event} {s : Session} (depth : Nat) (r : Request) :
      Past settings requests past s →
      Past settings (requests ++ [r]) (past ++ (s.perform (r.evaluation depth)).log)
        (s.perform (r.evaluation depth)).session

/-! ### Requests under a discipline -/

namespace Discipline

variable {D : Discipline} {r : Request}

/-- A request whose data a discipline accepts, and whose text may end as it does. -/
structure Admits (D : Discipline) (r : Request) : Prop where
  datum : ∀ {s : Store} {log : List Event} {v : Value}, v ∈ r.reading.data → D.machine ⟨s, log⟩ →
    D.machine ⟨s, .read v :: log⟩ ∧ D.Holds (.read v :: log) v
  ending : ∀ {s : Store} {log : List Event} (l : Location), D.machine ⟨s, log⟩ →
    D.machine ⟨s, .read (.nop l "") :: log⟩
  /-- A line without a datum is answered with the nothing at its end. -/
  nothing : ∀ {s : Store} {log : List Event} (l : Location), D.machine ⟨s, log⟩ →
    D.machine ⟨s, .evaluation (.nop l "") :: log⟩
  unreadable : ∀ {m : Machine} {e : ReadError}, r.reading.ending = .error e → D.machine m →
    D.stop m (.failed (.unreadable e))

/-- What may come of a request: a value that has what is asked of it, or the nothing of a text without
data. -/
def Answers (D : Discipline) (r : Request) (log : List Event) (v : Value) : Prop :=
  D.Holds log v ∨ r.reading.data = [] ∧ ∃ l, v = .nop l ""

variable (h : D.Admits r) (depth : Nat)

include h

/-- **One datum after the other keeps to a discipline.**  What the value so far is matters only if there
are no data. -/
theorem obeys_evaluateData {Q : List Event → Value → Prop} (hQ : ∀ log v, D.Holds log v → Q log v)
    {vs : List Value} (hvs : vs ⊆ r.reading.data) (last : Value) {m : Machine} (hm : D.machine m)
    (hlast : vs = [] → Q m.log last) : D.Obeys Q (evaluateData depth last vs) m := by
  induction vs generalizing last m with
  | nil => exact obeys_pure hm (hlast rfl)
  | cons v vs ih =>
    obtain ⟨hv, hvs⟩ := List.cons_subset.mp hvs
    obtain ⟨hread, hholds⟩ := h.datum hv hm
    rw [evaluateData, List.foldlM_cons, bind_assoc]
    refine obeys_report_bind ((obeys_eval depth Store.rootFrame v _ hread hholds).bind ?_)
    exact fun n w _ hn hw => ih hvs w hn fun _ => hQ _ _ hw

/-- The nothing at the end of a text stands for itself. -/
theorem obeys_evaluate_nop {l : Location} {Q : List Event → Value → Prop} {s : Store}
    {log : List Event} (hs : D.machine ⟨s, log⟩) (hQ : ∀ log, Q log (.nop l "")) :
    D.Obeys Q (evaluate depth (.nop l "")) ⟨s, log⟩ := by
  cases depth with
  | zero => exact obeys_stop (D.tooDeep hs)
  | succ depth => exact obeys_report_bind (obeys_pure (h.nothing l hs) (hQ _))

/-- **A request keeps to every discipline that admits it.** -/
theorem obeys_attempt {m : Machine} (hm : D.machine m) :
    D.Obeys (D.Answers r) (r.attempt depth) m := by
  cases r with
  | run text =>
    show D.Obeys _ (runData depth (Reading.ofText text).ending _ (Reading.ofText text).data) m
    rw [runData_eq_evaluateData]
    refine (obeys_evaluateData h depth (Q := D.Answers (.run text)) (fun _ _ => Or.inl)
      (List.Subset.refl _) _ hm fun hnil => Or.inr ⟨hnil, .start, rfl⟩).bind fun n v _ hn hv => ?_
    cases hending : (Reading.ofText text).ending with
    | ok l =>
      refine obeys_report_bind (obeys_pure (h.ending l hn) ?_)
      exact hv.imp_left fun hv => hv.later (List.suffix_cons _ _)
    | error e => exact obeys_stop (h.unreadable hending hn)
  | answer line =>
    show D.Obeys _ (readDatum line >>= evaluate depth) m
    have hreading : readFirst line = (Request.answer line).reading.first := readFirst_eq_first line
    rw [readDatum, hreading, Reading.first]
    cases hdata : (Request.answer line).reading.data with
    | cons v vs =>
      obtain ⟨hread, hholds⟩ := h.datum (by rw [hdata]; exact List.mem_cons_self) hm
      have heval := obeys_eval depth Store.rootFrame v _ hread hholds
      show D.Obeys _ (Eval.emit (.read v) >>= fun _ => evaluate depth v) m
      exact obeys_report_bind ⟨heval.later, fun hv => (heval.value hv).imp_right Or.inl, heval.stopped⟩
    | nil =>
      cases hending : (Request.answer line).reading.ending with
      | ok l =>
        show D.Obeys _ (Eval.emit (.read (.nop l "")) >>= fun _ => evaluate depth (.nop l "")) m
        refine obeys_report_bind (obeys_evaluate_nop h depth (h.ending l hm) fun _ => ?_)
        exact Or.inr ⟨hdata, l, rfl⟩
      | error e => exact obeys_stop (h.unreadable hending hm)

/-- What a discipline asks of the machine holds when the request has come to its end, if it asks for
that also at a stop. -/
theorem machine_perform (hstop : ∀ {m : Machine} {stop : Stop}, D.stop m stop → D.machine m)
    {s : Session} (hs : D.machine ⟨s.store, []⟩) :
    D.machine ⟨(s.perform (r.evaluation depth)).session.store,
      (s.perform (r.evaluation depth)).log.reverse⟩ := by
  have hends := obeys_attempt h depth hs
  rw [session_perform_evaluation, log_perform_evaluation, Session.perform_eq, List.reverse_reverse]
  cases hresult : ((r.attempt depth).run ⟨s.store, []⟩).1 with
  | ok v => exact (hends.value hresult).1
  | error stop => exact hstop (hends.stopped hresult)

end Discipline

end MiniLisp
