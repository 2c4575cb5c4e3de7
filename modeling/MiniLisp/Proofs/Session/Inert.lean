import Mathlib
import MiniLisp.Proofs.Reader.Image
import MiniLisp.Proofs.Session.Requests

/-!
# Inert data

Some values stand for themselves: whatever is no symbol and no list with a head, vectors of such values,
and hash-maps with such values under any keys.  Evaluation takes a vector or a hash-map apart and puts it
together again, and nothing changes on the way, not even a location.

If such a value also has a notation, its text is read as the same value elsewhere, which is inert too.  So
a session answers the text of a value with the value.

* `Value.Inert`: the values that stand for themselves.
* `leavesAlone_vector`, `leavesAlone_map`: one level of evaluation.
* `eventually_leavesAlone`: **inert data stand for themselves**.
* `Value.Inert.reread`: what is found in the text of inert data is inert.
* `inert_data`: **inert data are answered with themselves**.
-/

namespace MiniLisp

open Eval

/-- The values that stand for themselves. -/
inductive Value.Inert : Value → Prop
  | number {l : Location} {x : Float} : Inert (.number l x)
  | string {l : Location} {text : String} : Inert (.string l text)
  | keyword {l : Location} {name : String} : Inert (.keyword l name)
  | bool {l : Location} {b : Bool} : Inert (.bool l b)
  | nil {l : Location} : Inert (.nil l)
  | primitive {l : Location} {i : FunctionId} {code : Primitive} : Inert (.primitive l i code)
  | closure {l : Location} {i : FunctionId} {p : Parameters} {body : Value} {frame : FrameId} :
      Inert (.closure l i p body frame)
  | nop {l : Location} {message : String} : Inert (.nop l message)
  | empty {l : Location} : Inert (.list l [])
  | vector {l : Location} {vs : List Value} : (∀ v ∈ vs, Inert v) → Inert (.vector l vs)
  | map {l : Location} {es : List (Value × Value)} : (∀ e ∈ es, Inert e.2) → Inert (.map l es)

/-! ### One level of evaluation -/

/-- An evaluator comes to the value itself, in any frame, and leaves the store as it is. -/
def LeavesAlone (recur : Evaluator) (v : Value) : Prop :=
  ∀ (frame : FrameId) (s : Store) (log : List Event),
    ∃ log', (recur frame v).run ⟨s, log⟩ = (.ok v, ⟨s, log'⟩)

section

variable {recur : Evaluator}

theorem run_evalElements_of_leavesAlone {vs : List Value} (h : ∀ v ∈ vs, LeavesAlone recur v)
    (frame : FrameId) (s : Store) (log : List Event) :
    ∃ log', (evalElements recur frame vs).run ⟨s, log⟩ = (.ok vs, ⟨s, log'⟩) := by
  induction vs generalizing log with
  | nil => exact ⟨log, rfl⟩
  | cons v vs ih =>
    obtain ⟨log₁, hv⟩ := h v List.mem_cons_self frame s log
    obtain ⟨log₂, hvs⟩ := ih (fun w hw => h w (List.mem_cons_of_mem v hw)) log₁
    refine ⟨log₂, ?_⟩
    rw [evalElements, run_bind, hv]
    dsimp only
    rw [run_bind, hvs]
    rfl

theorem run_evalEntries_of_leavesAlone {es : List (Value × Value)}
    (h : ∀ e ∈ es, LeavesAlone recur e.2) (frame : FrameId) (s : Store) (log : List Event) :
    ∃ log', (evalEntries recur frame es).run ⟨s, log⟩ = (.ok es, ⟨s, log'⟩) := by
  induction es generalizing log with
  | nil => exact ⟨log, rfl⟩
  | cons e es ih =>
    obtain ⟨key, v⟩ := e
    obtain ⟨log₁, hv⟩ := h (key, v) List.mem_cons_self frame s log
    obtain ⟨log₂, hes⟩ := ih (fun e he => h e (List.mem_cons_of_mem _ he)) log₁
    refine ⟨log₂, ?_⟩
    rw [evalEntries, run_bind, hv]
    dsimp only
    rw [run_bind, hes]
    rfl

/-- A vector is put together again from its elements. -/
theorem leavesAlone_vector {l : Location} {vs : List Value} (h : ∀ v ∈ vs, LeavesAlone recur v) :
    LeavesAlone (evalStep recur) (.vector l vs) := by
  intro frame s log
  obtain ⟨log', hvs⟩ := run_evalElements_of_leavesAlone h frame s (.evaluation (.vector l vs) :: log)
  refine ⟨log', ?_⟩
  show (evalContents recur frame (.vector l vs)).run ⟨s, log⟩ = _
  rw [evalContents, run_emit_bind, run_bind, hvs]
  rfl

/-- A hash-map is put together again from its keys, which are not evaluated, and its values. -/
theorem leavesAlone_map {l : Location} {es : List (Value × Value)}
    (h : ∀ e ∈ es, LeavesAlone recur e.2) : LeavesAlone (evalStep recur) (.map l es) := by
  intro frame s log
  obtain ⟨log', hes⟩ := run_evalEntries_of_leavesAlone h frame s (.evaluation (.map l es) :: log)
  refine ⟨log', ?_⟩
  show (evalContents recur frame (.map l es)).run ⟨s, log⟩ = _
  rw [evalContents, run_emit_bind, run_bind, hes]
  rfl

end

/-! ### Evaluation -/

theorem eventually_leavesAlone_of_step {v : Value}
    (h : ∀ᶠ depth in Filter.atTop, LeavesAlone (evalStep (eval depth)) v) :
    ∀ᶠ depth in Filter.atTop, LeavesAlone (eval depth) v := by
  rw [← Filter.map_add_atTop_eq_nat 1, Filter.eventually_map]
  exact h

/-- **Inert data stand for themselves**, if evaluation may go as deep as they are nested. -/
theorem eventually_leavesAlone {v : Value} (hv : v.Inert) :
    ∀ᶠ depth in Filter.atTop, LeavesAlone (eval depth) v := by
  induction hv with
  | @vector l vs _ ih =>
    have hvs := (Filter.eventually_all_finite (List.finite_toSet vs)).mpr ih
    exact eventually_leavesAlone_of_step (hvs.mono fun depth h => leavesAlone_vector h)
  | @map l es _ ih =>
    have hes := (Filter.eventually_all_finite (List.finite_toSet es)).mpr ih
    exact eventually_leavesAlone_of_step (hes.mono fun depth h => leavesAlone_map h)
  | _ => exact eventually_leavesAlone_of_step (.of_forall fun depth _ _ _ => ⟨_, rfl⟩)

/-! ### Texts -/

namespace Value

theorem mem_rereadElements {vs : List Value} {l : Location} {w : Value}
    (h : w ∈ rereadElements l vs) : ∃ v ∈ vs, ∃ l', w = v.reread l' := by
  induction vs generalizing l with
  | nil => cases h
  | cons v vs ih =>
    rw [rereadElements] at h
    rcases List.mem_cons.mp h with rfl | h
    · exact ⟨v, List.mem_cons_self, l, rfl⟩
    · obtain ⟨u, hu, hw⟩ := ih h
      exact ⟨u, List.mem_cons_of_mem v hu, hw⟩

theorem mem_rereadEntries {es : List (Value × Value)} {l : Location} {f : Value × Value}
    (h : f ∈ rereadEntries l es) : ∃ e ∈ es, ∃ l', f.2 = e.2.reread l' := by
  induction es generalizing l with
  | nil => cases h
  | cons e es ih =>
    rw [rereadEntries] at h
    rcases List.mem_cons.mp h with rfl | h
    · exact ⟨e, List.mem_cons_self, _, rfl⟩
    · obtain ⟨d, hd, hf⟩ := ih h
      exact ⟨d, List.mem_cons_of_mem e hd, hf⟩

/-- **What is found in the text of inert data is inert**, if the numbers are finite. -/
theorem Inert.reread {v : Value} (h : v.Inert) (hv : v.Readable) (l : Location) :
    (v.reread l).Inert := by
  induction h generalizing l with
  | number =>
    cases hv with
    | number hx =>
      rw [Value.reread, if_pos hx]
      exact .number
  | empty => exact .empty
  | vector _ ih =>
    cases hv with
    | vector hvs =>
      refine .vector fun w hw => ?_
      obtain ⟨v, hv, l', rfl⟩ := mem_rereadElements hw
      exact ih v hv (hvs v hv) l'
  | map _ ih =>
    cases hv with
    | map _ hvs =>
      refine .map fun f hf => ?_
      obtain ⟨e, he, l', hl'⟩ := mem_rereadEntries hf
      rw [hl']
      exact ih e he (hvs e he) l'
  | string => exact .string
  | keyword => exact .keyword
  | bool => exact .bool
  | nil => exact .nil
  | primitive => cases hv
  | closure => cases hv
  | nop => cases hv

end Value

/-! ### Answers -/

/-- A session answers a line with the datum in it, if evaluation leaves that alone. -/
theorem perform_answer_of_leavesAlone {depth : Nat} {line : String} {v : Value}
    (hread : readFirst line = .ok v) (hv : LeavesAlone (eval depth) v) (s : Session) :
    ∃ log, s.perform (answer depth line) = ⟨.ok v, log, s⟩ := by
  obtain ⟨log, hrun⟩ := hv Store.rootFrame s.store [.read v]
  have hfirst : (evaluateFirst depth line).run ⟨s.store, []⟩ = (.ok v, ⟨s.store, log⟩) := by
    rw [run_evaluateFirst, hread]
    exact hrun
  refine ⟨log.reverse, ?_⟩
  rw [Session.perform, run_answer, hfirst]

/-- **Inert data are answered with themselves.**  Evaluating inert data comes to the same value, with the
same locations at every depth, and leaves the store as it is, in any frame of any store and at every depth
that is deep enough.  If inert data have a notation, which functions and nothings have not, then any
session answers their text with a value equal to them, and stays as it is. -/
theorem inert_data {v : Value} (hv : v.Inert) :
    (∃ n, ∀ depth, n ≤ depth → ∀ (frame : FrameId) (s : Store) (log : List Event),
      ∃ log', (eval depth frame v).run ⟨s, log⟩ = (.ok v, ⟨s, log'⟩)) ∧
    (v.Readable → ∃ n, ∀ depth, n ≤ depth → ∀ s : Session, ∃ v' log,
      s.perform (answer depth v.text) = ⟨.ok v', log, s⟩ ∧ (v' == v) = true) := by
  refine ⟨Filter.eventually_atTop.mp (eventually_leavesAlone hv), fun hreadable => ?_⟩
  have hfound := eventually_leavesAlone (hv.reread hreadable .start)
  obtain ⟨n, hn⟩ := Filter.eventually_atTop.mp hfound
  refine ⟨n, fun depth hdepth s => ?_⟩
  obtain ⟨log, hanswer⟩ :=
    perform_answer_of_leavesAlone (readFirst_text hreadable) (hn depth hdepth) s
  exact ⟨_, log, hanswer, Value.equal_reread hreadable .start⟩

/-- A vector of a hash-map whose key would be a call, and of an empty list. -/
theorem inert_data_nested :
    let l := Location.builtin
    let data := Value.vector l [.map l [(.list l [.symbol l "f"], .string l "a\"")], .list l []]
    data.text = "[\x7b(f) \"a\\\"\"\x7d ()]" ∧ ∃ n, ∀ depth, n ≤ depth → ∀ s : Session, ∃ v' log,
      s.perform (answer depth data.text) = ⟨.ok v', log, s⟩ ∧ (v' == data) = true := by
  intro l data
  have hinert : data.Inert := by
    refine .vector (List.forall_mem_cons.mpr ⟨?_, List.forall_mem_singleton.mpr .empty⟩)
    exact .map (List.forall_mem_singleton.mpr .string)
  have hkey : Value.Readable (.list l [.symbol l "f"]) :=
    .list (List.forall_mem_singleton.mpr (.symbol (by decide)))
  have hreadable : data.Readable := by
    refine .vector (List.forall_mem_cons.mpr ⟨?_, List.forall_mem_singleton.mpr (.list nofun)⟩)
    exact .map (List.forall_mem_singleton.mpr hkey) (List.forall_mem_singleton.mpr .string)
  exact ⟨by decide +kernel, (inert_data hinert).2 hreadable⟩

end MiniLisp
