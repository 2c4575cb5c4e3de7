import MiniLisp.Proofs.Session.History

/-!
# No fault is swallowed

Every call of a primitive is reported twice: when it begins, and when it has come to a result or to a
fault.  Nothing comes between the two reports, because no primitive evaluates anything itself.  And where
a fault is reported, all evaluation around it stops at once, so that nothing is reported any more.

* `Paired`: each call is followed by the report of how it came out.
* `Discipline.accounted`: a log without faults goes on, and a fault ends it.
* `run_accounted`: **no fault is swallowed**.
-/

namespace MiniLisp

namespace Event

/-- The primitive whose call begins with an event. -/
def begins? : Event → Option Primitive
  | .call code _ => some code
  | _ => none

/-- The primitive whose call ends with an event. -/
def ends? : Event → Option Primitive
  | .returned code _ => some code
  | .failed code _ => some code
  | _ => none

end Event

/-! ### Calls and how they come out -/

/-- A log in which the call of a primitive ends right where it begins, and nowhere else. -/
structure Paired (log : List Event) : Prop where
  next : ∀ (i : Nat) (code : Primitive),
    log[i]?.bind Event.begins? = some code ↔ log[i + 1]?.bind Event.ends? = some code
  head : log[0]?.bind Event.ends? = none

theorem paired_nil : Paired [] :=
  ⟨by simp, rfl⟩

theorem paired_singleton {e : Event} (hbegins : e.begins? = none) (hends : e.ends? = none) :
    Paired [e] := by
  refine ⟨fun i code => ?_, hends⟩
  cases i with
  | zero => simp [hbegins]
  | succ i => simp

theorem paired_call {code : Primitive} {e : Event} (vs : List Value) (he : e.ends? = some code) :
    Paired [.call code vs, e] := by
  have hbegins : e.begins? = none := by
    cases e with
    | call => cases he
    | _ => rfl
  refine ⟨fun i code' => ?_, rfl⟩
  match i with
  | 0 => simp [he, Event.begins?]
  | 1 => simp [hbegins]
  | i + 2 => simp

/-- The last event of such a log begins no call, so another one may follow. -/
theorem Paired.append {log log' : List Event} (h : Paired log) (h' : Paired log') :
    Paired (log ++ log') := by
  refine ⟨fun i code => ?_, ?_⟩
  · rcases Nat.lt_trichotomy (i + 1) log.length with hi | hi | hi
    · rw [List.getElem?_append_left (by omega), List.getElem?_append_left hi]
      exact h.next i code
    · have hlast : log[i]?.bind Event.begins? ≠ some code := fun hcall => by
        have hend := (h.next i code).mp hcall
        rw [List.getElem?_eq_none (by omega)] at hend
        cases hend
      rw [List.getElem?_append_left (by omega), List.getElem?_append_right (by omega), hi,
        Nat.sub_self, h'.head]
      exact iff_of_false hlast nofun
    · rw [List.getElem?_append_right (by omega), List.getElem?_append_right (by omega),
        Nat.sub_add_comm (by omega)]
      exact h'.next _ code
  · cases log with
    | nil => exact h'.head
    | cons e log => exact h.head

/-! ### Logs that go on and logs that end -/

/-- The events of an evaluation that has met no failing call, the latest first. -/
structure Unfailed (log : List Event) : Prop where
  paired : Paired log.reverse
  calm : ∀ (code : Primitive) (f : Fault), .failed code f ∉ log

theorem Unfailed.report {log : List Event} {e : Event} (h : Unfailed log) (hbegins : e.begins? = none)
    (hends : e.ends? = none) : Unfailed (e :: log) := by
  refine ⟨?_, fun code f hmem => ?_⟩
  · rw [List.reverse_cons]
    exact h.paired.append (paired_singleton hbegins hends)
  · rcases List.mem_cons.mp hmem with rfl | hmem
    · cases hends
    · exact h.calm code f hmem

theorem Unfailed.paired_call {log : List Event} {code : Primitive} {e : Event} (h : Unfailed log)
    (vs : List Value) (he : e.ends? = some code) : Paired (e :: .call code vs :: log).reverse := by
  have happend := h.paired.append (MiniLisp.paired_call vs he)
  simpa using happend

theorem Unfailed.returned {log : List Event} (h : Unfailed log) (code : Primitive) (vs : List Value)
    (v : Value) : Unfailed (.returned code v :: .call code vs :: log) := by
  refine ⟨h.paired_call vs rfl, fun code' f hmem => h.calm code' f ?_⟩
  simpa using hmem

/-- A log without failures goes on, and a failure ends it. -/
def Discipline.accounted : Discipline where
  node _ _ := True
  machine m := Unfailed m.log
  stop m stop := Unfailed m.log ∨ ∃ code vs f log, m.log = .failed code f :: .call code vs :: log ∧
    Unfailed log ∧ stop = .failed (.fault f)
  node_emit _ _ := trivial
  node_plain _ _ _ := trivial
  find _ _ _ := .of_forall (fun _ => trivial) _
  emit {_ _ e} h he _ := by
    cases e with
    | call | returned | failed | read => cases he
    | _ => exact h.report rfl rfl
  insert _ _ h _ := h
  spawn _ h := h
  returned {_ _ code vs v} _ h _ _ := h.returned code vs v
  made {_ _ vs _ _} _ _ h _ _ _ := ⟨h.returned .lambda vs _, trivial⟩
  failed h _ _ := Or.inr ⟨_, _, _, _, rfl, h, rfl⟩
  fault h _ := Or.inl h
  tooDeep h := Or.inl h

theorem Discipline.admits_accounted (r : Request) : Discipline.accounted.Admits r where
  datum _ h := ⟨Unfailed.report h rfl rfl, .of_forall (fun _ => trivial) _⟩
  ending _ h := Unfailed.report h rfl rfl
  nothing _ h := Unfailed.report h rfl rfl
  unreadable _ h := Or.inl h

/-! ### Outcomes -/

/-- An outcome that accounts for every call: each is followed by the report of how it came out, and the
report of a failure is the last event and tells how the evaluation came out. -/
structure Outcome.Accounted {α : Type} (o : Outcome α) : Prop where
  paired : Paired o.log
  last : ∀ {i : Nat} {code : Primitive} {f : Fault}, o.log[i]? = some (.failed code f) →
    i + 1 = o.log.length ∧ o.result = .error (.failed (.fault f))

theorem Unfailed.not_failed {log : List Event} (h : Unfailed log) {i : Nat} {code : Primitive}
    {f : Fault} : log.reverse[i]? ≠ some (.failed code f) := by
  intro hi
  exact h.calm code f (List.mem_reverse.mp (List.mem_of_getElem? hi))

theorem Unfailed.accounted {α : Type} {log : List Event} (h : Unfailed log) (result : Except Stop α)
    (s : Session) : (Outcome.mk result log.reverse s).Accounted :=
  ⟨h.paired, fun hi => absurd hi h.not_failed⟩

theorem Unfailed.accounted_failed {α : Type} {log : List Event} (h : Unfailed log) (code : Primitive)
    (vs : List Value) (f : Fault) (s : Session) :
    (Outcome.mk (.error (.failed (.fault f)) : Except Stop α)
      (.failed code f :: .call code vs :: log).reverse s).Accounted := by
  refine ⟨h.paired_call vs rfl, fun {i code' f'} hi => ?_⟩
  have hi : (log.reverse ++ [.call code vs, .failed code f])[i]? = some (.failed code' f') := by
    simpa using hi
  rcases Nat.lt_or_ge i log.length with hlt | hle
  · rw [List.getElem?_append_left (by simpa using hlt)] at hi
    exact absurd hi h.not_failed
  · rw [List.getElem?_append_right (by simpa using hle), List.length_reverse] at hi
    obtain ⟨k, rfl⟩ := Nat.exists_eq_add_of_le hle
    match k with
    | 0 => simp at hi
    | 1 => simp at hi; simp [hi]
    | k + 2 => simp at hi

/-- **A request accounts for every call.** -/
theorem Request.accounted_attempt (depth : Nat) (s : Session) (r : Request) :
    (s.perform (r.attempt depth)).Accounted := by
  have hends := Discipline.obeys_attempt (Discipline.admits_accounted r) depth
    (m := ⟨s.store, []⟩) ⟨paired_nil, by simp⟩
  rw [Session.perform_eq]
  unfold Discipline.Obeys at hends
  generalize (r.attempt depth).run ⟨s.store, []⟩ = o at hends ⊢
  obtain ⟨result, m⟩ := o
  cases result with
  | ok v => exact Unfailed.accounted (hends.value rfl).1 _ _
  | error stop =>
    rcases hends.stopped rfl with h | ⟨code, vs, f, log, hlog, h, rfl⟩
    · exact Unfailed.accounted h _ _
    · dsimp only at hlog ⊢
      rw [hlog]
      exact h.accounted_failed code vs f _

/-- **No fault is swallowed.**  In the log of a run, whatever the text, the settings and the session, the
report that a primitive is called is followed right away by the report of its result or of its failure,
and these reports occur nowhere else.  The report of a failure is the last one, and what it says of the
failure is what the run ends with.  So there is at most one such report, and none if the run has a
value. -/
theorem run_accounted (depth : Nat) (s : Session) (text : String) :
    let o := s.perform (runText depth text)
    (∀ (i : Nat) (code : Primitive), o.log[i]?.bind Event.begins? = some code ↔
      o.log[i + 1]?.bind Event.ends? = some code) ∧
    o.log[0]?.bind Event.ends? = none ∧
    (∀ (i : Nat) (code : Primitive) (f : Fault), o.log[i]? = some (.failed code f) →
      i + 1 = o.log.length ∧ ∃ failure, o.result = .error (.failed failure) ∧ failure = .fault f ∧
        (Event.failed code f).message = "Call to " ++ code.name ++ " failed: " ++ failure.message) ∧
    (∀ (i j : Nat) (code code' : Primitive) (f f' : Fault), o.log[i]? = some (.failed code f) →
      o.log[j]? = some (.failed code' f') → i = j) ∧
    ∀ v, o.result = .ok v → ∀ (code : Primitive) (f : Fault), .failed code f ∉ o.log := by
  have h := Request.accounted_attempt depth s (.run text)
  refine ⟨h.paired.next, h.paired.head, fun i code f hi => ?_, fun i j code code' f f' hi hj => ?_,
    fun v hv code f hmem => ?_⟩
  · obtain ⟨hlast, hresult⟩ := h.last hi
    exact ⟨hlast, .fault f, hresult, rfl, rfl⟩
  · have hi := (h.last hi).1
    have hj := (h.last hj).1
    omega
  · obtain ⟨i, hi⟩ := List.mem_iff_getElem?.mp hmem
    have hresult := hv.symm.trans (h.last hi).2
    cases hresult

/-- A call that fails inside a vector.  The call before it has a result, and the datum behind is not
read. -/
theorem run_accounted_nested :
    let o := (Session.fresh .default).perform (runText 5 "(not nil) [(empty? :a)] (list)")
    let f : Fault := ⟨.typeMismatch "empty?" .collection .keyword, ⟨1, 13⟩⟩
    o.log[12]? = some (.failed .isEmpty f) ∧ 13 = o.log.length ∧
      o.result = .error (.failed (.fault f)) := by
  have hfailed : ((Session.fresh .default).perform
      (runText 5 "(not nil) [(empty? :a)] (list)")).log[12]? =
      some (.failed .isEmpty ⟨.typeMismatch "empty?" .collection .keyword, ⟨1, 13⟩⟩) := by cbv
  obtain ⟨hlast, failure, hresult, rfl, -⟩ := (run_accounted 5 (.fresh .default)
    "(not nil) [(empty? :a)] (list)").2.2.1 12 .isEmpty _ hfailed
  exact ⟨hfailed, hlast, hresult⟩

end MiniLisp
