import MiniLisp.Proofs.Reader.Concatenation
import MiniLisp.Proofs.Session.Requests
import MiniLisp.Proofs.Value.Equality

/-!
# Running a text in pieces

A text may be run whole, or a part of it first and the rest later in the same session.  The second part
then stands further up than it does in the whole text, and that is all that differs: the reader finds
the same data in it, and what a program computes does not depend on where it is written.

* `runData_append_of_fault`, `runData_append_of_ok`: what the data in front come to.
* `similar_runData_relocate`: a text that stands elsewhere is run alike.
* `run_append_newline`: **running a text in pieces is running it whole**.
-/

namespace MiniLisp

open Eval

/-- Two reasons to end without a value that are the same, but for the location of a fault or of an
error of reading. -/
inductive Stop.SameReason : Stop → Stop → Prop
  | fault (cause : Cause) (l l' : Location) :
      SameReason (.failed (.fault ⟨cause, l⟩)) (.failed (.fault ⟨cause, l'⟩))
  | unreadable (cause : ReadCause) (l l' : Location) :
      SameReason (.failed (.unreadable ⟨cause, l⟩)) (.failed (.unreadable ⟨cause, l'⟩))
  | stuck : SameReason .stuck .stuck
  | tooDeep : SameReason .tooDeep .tooDeep

theorem Stop.SameCause.sameReason {s s' : Stop} (h : s.SameCause s') : s.SameReason s' := by
  cases h with
  | fault cause l l' => exact .fault cause l l'
  | unreadable e => exact .unreadable e.cause e.location e.location
  | stuck => exact .stuck
  | tooDeep => exact .tooDeep

/-! ### Data in front -/

section

variable {depth : Nat} {ending : Except ReadError Location} {last : Value} {vs : List Value}
  {m : Machine}

/-- A fault in the data in front is the fault of all. -/
theorem runData_append_of_fault {f : Fault}
    (h : ((runData depth ending last vs).run m).1 = .error (.failed (.fault f)))
    (ending' : Except ReadError Location) (ws : List Value) :
    (runData depth ending' last (vs ++ ws)).run m = (runData depth ending last vs).run m := by
  rw [runData_eq_evaluateData, run_bind] at h
  rw [runData_append, runData_eq_evaluateData depth ending, run_bind, run_bind]
  generalize (evaluateData depth last vs).run m = o at h ⊢
  obtain ⟨r, n⟩ := o
  cases r with
  | error s => rfl
  | ok v =>
    -- The end of a text is an error of reading at worst.
    cases ending with
    | ok l => cases h
    | error e => cases h

/-- Behind data with a last value, others are evaluated on the store that the data in front left. -/
theorem runData_append_of_ok {v : Value} (h : ((runData depth ending last vs).run m).1 = .ok v) :
    (∃ l, ending = .ok l) ∧
    ∃ log, ∀ (ending' : Except ReadError Location) (ws : List Value),
      (runData depth ending' last (vs ++ ws)).run m =
        (runData depth ending' v ws).run ⟨((runData depth ending last vs).run m).2.store, log⟩ := by
  rw [runData_eq_evaluateData, run_bind] at h ⊢
  simp only [runData_append, run_bind]
  generalize (evaluateData depth last vs).run m = o at h ⊢
  obtain ⟨r, store, log⟩ := o
  cases r with
  | error s => cases h
  | ok w =>
    cases ending with
    | error e => cases h
    | ok l =>
      cases h
      exact ⟨⟨l, rfl⟩, log, fun _ _ => rfl⟩

end

/-! ### Data that stand elsewhere -/

/-- A text that stands elsewhere is run alike.  The value so far may be another one, if there are
data or if the text cannot be read. -/
theorem similar_runData_relocate (depth : Nat) (f : Location → Location) (r : Reading)
    (last last' : Value) (m m' : Machine) (hm : m.store.Matches .places m'.store) :
    ((∀ l, r.data = [] → r.ending ≠ .ok l) →
      Similar Stop.SameReason (Value.Matches .places)
        ((runData depth (r.relocate f).ending last (r.relocate f).data).run m).1
        ((runData depth r.ending last' r.data).run m').1) ∧
    ((runData depth (r.relocate f).ending last (r.relocate f).data).run m).2.store.Matches .places
      ((runData depth r.ending last' r.data).run m').2.store := by
  obtain ⟨data, ending⟩ := r
  have hdata : List.Forall₂ (Value.Matches .places) (data.map (Value.relocate f)) data :=
    List.forall₂_map_left_iff.mpr (List.forall₂_same.mpr fun v _ => v.matches_relocate f)
  have hlast : data.map (Value.relocate f) = [] → data = [] ∨ last.Matches .places last' :=
    fun h => Or.inl (List.map_eq_nil_iff.mp h)
  have htogether := matches_evaluateData (R := fun w w' => data = [] ∨ w.Matches .places w') depth
    Or.inr hdata hlast m m' hm
  rw [runData_eq_evaluateData, runData_eq_evaluateData depth ending, run_bind, run_bind]
  dsimp only [Reading.relocate]
  generalize (evaluateData depth last (data.map (Value.relocate f))).run m = o,
    (evaluateData depth last' data).run m' = o' at htogether ⊢
  obtain ⟨result, n⟩ := o
  obtain ⟨result', n'⟩ := o'
  rcases htogether with ⟨hresult, hn⟩ | ⟨⟨a, b, hab, hne⟩, _⟩
  · cases hresult with
    | error hs => exact ⟨fun _ => .error hs.sameCause.sameReason, hn⟩
    | ok hw =>
      cases ending with
      | error e => exact ⟨fun _ => .error (.unreadable e.cause _ _), hn⟩
      | ok l =>
        refine ⟨fun hne => ?_, hn⟩
        rcases hw with hnil | hw
        · exact absurd rfl (hne l hnil)
        · exact .ok hw
  · exact absurd hab hne

/-! ### Texts -/

section

variable {depth : Nat} {s : String} {m : Machine}

/-- If a text fails with a fault, more text behind it makes no difference. -/
theorem runText_append_of_fault {f : Fault}
    (h : ((runText depth s).run m).1 = .error (.failed (.fault f))) (t : String) :
    (runText depth (s ++ "\n" ++ t)).run m = (runText depth s).run m := by
  obtain ⟨ws, hdata⟩ := Reading.exists_data_append_newline s t
  rw [runText, hdata]
  exact runData_append_of_fault h _ ws

/-- If a text has a value, a second text behind it is run on the store that the first one left, as it
stands there. -/
theorem runText_append_of_ok {v : Value} (h : ((runText depth s).run m).1 = .ok v) (t : String)
    {r : Reading} (hr : r = (Reading.ofText t).relocate (Location.down (1 + s.toList.count '\n'))) :
    ∃ log, (runText depth (s ++ "\n" ++ t)).run m =
      (runData depth r.ending v r.data).run ⟨((runText depth s).run m).2.store, log⟩ := by
  obtain ⟨⟨l, hl⟩, log, happend⟩ := runData_append_of_ok h
  rw [runText, Reading.ofText_append_newline hl t, ← hr]
  exact ⟨log, happend r.ending r.data⟩

end

/-- **Running a text in pieces is running it whole.**  A text, a line feed and a second text are run
whole, or one after the other.  If the first text fails with a fault, the whole fails with the same
fault and leaves the same session.  If it has a value, then the whole and the second text end alike, but
for locations, and leave sessions that are the same but for locations; only if all of the second text is
read and it has no datum, the value of the whole is that of the first text. -/
theorem run_append_newline (depth : Nat) (session : Session) (s t : String) :
    let first := session.perform (runText depth s)
    let second := first.session.perform (runText depth t)
    let whole := session.perform (runText depth (s ++ "\n" ++ t))
    (∀ f, first.result = .error (.failed (.fault f)) →
      whole.result = .error (.failed (.fault f)) ∧ whole.session = first.session) ∧
    ∀ v, first.result = .ok v →
      whole.session.store.Matches .places second.session.store ∧
      (readAll t = .ok [] → whole.result = .ok v) ∧
      (readAll t ≠ .ok [] →
        Similar Stop.SameReason (Value.Matches .places) whole.result second.result) := by
  intro first second whole
  constructor
  · intro f hf
    have hwhole := runText_append_of_fault hf t
    exact ⟨(congrArg Prod.fst hwhole).trans hf, congrArg (fun o => Session.mk o.2.store) hwhole⟩
  · intro v hv
    obtain ⟨log, hwhole⟩ := runText_append_of_ok hv t rfl
    have hrefl : first.session.store.Matches .places first.session.store :=
      Store.matches_refl (fun _ => trivial) (fun _ => rfl) (fun _ => rfl) _
    obtain ⟨hresult, hstore⟩ := similar_runData_relocate depth
      (Location.down (1 + s.toList.count '\n')) (Reading.ofText t) v (.nop .start "")
      ⟨first.session.store, log⟩ ⟨first.session.store, []⟩ hrefl
    refine ⟨?_, fun ht => ?_, fun ht => ?_⟩
    · show ((runText depth _).run _).2.store.Matches .places _
      rw [hwhole]
      exact hstore
    · obtain ⟨hdata, l, hl⟩ := readAll_eq_ok_iff.mp ht
      show ((runText depth _).run _).1 = _
      rw [hwhole, Reading.relocate, hdata, hl]
      rfl
    · show Similar _ _ ((runText depth _).run _).1 _
      rw [hwhole]
      exact hresult fun l hdata hl => ht (readAll_eq_ok_iff.mpr ⟨hdata, l, hl⟩)

/-- A text whose last datum is a fault, with an unfinished text behind it; and a text that defines a
function, with one behind it that calls the function and then cannot be read, and with one behind it
that has no datum. -/
theorem run_append_newline_samples :
    ((Session.fresh .default).perform (runText 4 ("(def! a :k)\n(a)" ++ "\n" ++ "(def! a"))).result =
      .error (.failed (.fault ⟨.notAFunction .keyword, ⟨2, 2⟩⟩)) ∧
    (∃ l, ((Session.fresh .default).perform
        (runText 4 ("(def! f (fn* [a] (def! b a)))" ++ "\n" ++ "(f :k) ]"))).result =
      .error (.failed (.unreadable ⟨.unexpectedCloser ']', l⟩))) ∧
    ((Session.fresh .default).perform
        (runText 4 ("(def! f (fn* [a] (def! b a)))" ++ "\n" ++ " ; f"))).result =
      .ok (.closure ⟨1, 10⟩ 27 ⟨["a"], none⟩
        (.list ⟨1, 18⟩ [.symbol ⟨1, 19⟩ "def!", .symbol ⟨1, 24⟩ "b", .symbol ⟨1, 26⟩ "a"]) 0) := by
  have hdefine : ((Session.fresh .default).perform
        (runText 4 "(def! f (fn* [a] (def! b a)))")).result =
      .ok (.closure ⟨1, 10⟩ 27 ⟨["a"], none⟩
        (.list ⟨1, 18⟩ [.symbol ⟨1, 19⟩ "def!", .symbol ⟨1, 24⟩ "b", .symbol ⟨1, 26⟩ "a"]) 0) := by
    cbv
  refine ⟨?_, ?_, ?_⟩
  · exact ((run_append_newline 4 (.fresh .default) "(def! a :k)\n(a)" "(def! a").1 _ (by cbv)).1
  · have hread : readAll "(f :k) ]" = .error ⟨.unexpectedCloser ']', ⟨1, 8⟩⟩ := rfl
    have hsecond : (((Session.fresh .default).perform
        (runText 4 "(def! f (fn* [a] (def! b a)))")).session.perform (runText 4 "(f :k) ]")).result =
        .error (.failed (.unreadable ⟨.unexpectedCloser ']', ⟨1, 8⟩⟩)) := by cbv
    have hwhole := ((run_append_newline 4 (.fresh .default) "(def! f (fn* [a] (def! b a)))"
      "(f :k) ]").2 _ hdefine).2.2 (by rw [hread]; simp)
    rw [hsecond] at hwhole
    generalize Outcome.result _ = r at hwhole ⊢
    cases hwhole with
    | error hs =>
      cases hs with
      | unreadable _ l _ => exact ⟨l, rfl⟩
  · exact ((run_append_newline 4 (.fresh .default) "(def! f (fn* [a] (def! b a)))" " ; f").2 _
      hdefine).2.1 rfl

end MiniLisp
