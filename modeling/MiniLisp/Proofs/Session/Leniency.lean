import Mathlib
import MiniLisp.Proofs.Eval.Changes
import MiniLisp.Proofs.Eval.Matching
import MiniLisp.Proofs.Session.Requests

/-!
# Strict and lenient sessions

A strict session refuses surplus arguments of a closure, and a lenient one drops them.  Run on both, a
program goes the same way until the strict session refuses such arguments.  So strictness only adds
faults: a program without faults in a strict session has the same results in a lenient one.

* `eval_lenient`: **strict arity only adds faults**.
-/

namespace MiniLisp

open Eval

/-- The settings may differ, but the second run is lenient. -/
def Correspondence.leniency : Correspondence where
  location := Eq
  identity := Eq
  settings _ b := b = ⟨false⟩
  identity_iff := eq_iff_of_eq
  settings_default := rfl
  strict_of_strict := by rintro a b rfl h; cases h

/-! ### What two runs have in common -/

theorem Value.matches_leniency_iff {v v' : Value} : v.Matches .leniency v' ↔ v = v' := by
  constructor
  · exact Value.eq_of_matches id id
  · rintro rfl
    exact Value.matches_refl (fun _ => rfl) (fun _ => rfl) v

/-- A cause that a lenient run has in common with another one. -/
theorem Fault.Matches.of_leniency {f f' : Fault} (h : f.Matches .leniency f') :
    ((∀ expected got, f.cause ≠ .argumentCount .closure expected got) → f' = f) ∧
      ∀ count got, f.cause = .argumentCount .closure (.exactly count) got →
        f' = ⟨.argumentCount .closure (.atLeast count) got, f.location⟩ := by
  cases h with
  | same hl hcause =>
    cases hl
    exact ⟨fun _ => rfl, fun count got h => absurd h (hcause _ _)⟩
  | @arguments _ _ p a b n hl hab =>
    cases hl
    cases hab
    refine ⟨fun h => absurd rfl (h _ _), fun count got h => ?_⟩
    obtain ⟨positional, rest⟩ := p
    obtain ⟨_, harity, rfl⟩ := Cause.argumentCount.inj h
    cases rest with
    | some rest => cases harity
    | none =>
      obtain ⟨strict⟩ := a
      cases strict with
      | false => cases harity
      | true => cases harity; rfl

section

variable {o o' : Except Stop Value × Machine} (h : Together .leniency (Value.Matches .leniency) o o')

include h

/-- Two runs end alike, unless a closure is called with a wrong number of arguments. -/
theorem Together.eq_of_leniency
    (hcount : ∀ expected got l,
      o.1 ≠ .error (.failed (.fault ⟨.argumentCount .closure expected got, l⟩))) :
    o'.1 = o.1 ∧ o.2.store.Matches .leniency o'.2.store := by
  obtain ⟨r, m⟩ := o
  obtain ⟨r', m'⟩ := o'
  rcases h with ⟨hresult, hstore⟩ | ⟨_, count, got, l, _, hr⟩
  · refine ⟨?_, hstore⟩
    cases hresult with
    | ok hv => rw [Value.matches_leniency_iff.mp hv]
    | error hs =>
      cases hs with
      | @fault f f' hf =>
        rw [hf.of_leniency.1 fun expected got h => ?_]
        obtain ⟨cause, l⟩ := f
        exact hcount expected got l (by rw [show cause = _ from h])
      | unreadable e => rfl
      | stuck => rfl
      | tooDeep => rfl
  · exact absurd hr (hcount _ _ _)

/-- Too few arguments are too few for both runs. -/
theorem Together.argumentCount_of_leniency {count got : Nat} {l : Location}
    (hr : o.1 = .error (.failed (.fault ⟨.argumentCount .closure (.exactly count) got, l⟩)))
    (hlt : got < count) :
    o'.1 = .error (.failed (.fault ⟨.argumentCount .closure (.atLeast count) got, l⟩)) := by
  obtain ⟨r, m⟩ := o
  obtain ⟨r', m'⟩ := o'
  cases hr
  rcases h with ⟨hresult, _⟩ | ⟨_, count', got', l', hlt', hr'⟩
  · cases hresult with
    | error hs =>
      cases hs with
      | fault hf => rw [hf.of_leniency.2 count got rfl]
  · cases hr'
    omega

end

/-! ### Sessions -/

section

variable {C : Correspondence} (hl : ∀ l, C.location l l) (hi : ∀ i, C.identity i i)

include hl hi

theorem Store.matches_fresh {a b : Settings} (h : C.settings a b) :
    (Store.fresh a).Matches C (Store.fresh b) := by
  refine ⟨rfl, fun i => ?_, rfl, fun i _ => hi i⟩
  cases i with
  | succ i => exact .none
  | zero =>
    refine .some ⟨rfl, h, fun name => ?_⟩
    show Option.Rel _ (Store.primitives.get? name) (Store.primitives.get? name)
    cases Store.primitives.get? name with
    | none => exact .none
    | some v => exact .some (Value.matches_refl hl hi v)

end

/-- Requests that succeed in one session succeed in a lenient one, with the same results. -/
theorem attempts_lenient (depth : Nat) : ∀ (requests : List Request) {s s' : Session},
    s.store.Matches .leniency s'.store →
    (∀ r ∈ s.attempts depth requests, ∃ v, r = .ok v) →
    s'.attempts depth requests = s.attempts depth requests := by
  intro requests
  induction requests with
  | nil => intro s s' _ _; rfl
  | cons request requests ih =>
    intro s s' hs hok
    rw [Session.attempts, List.forall_mem_cons] at hok
    obtain ⟨⟨v, hv⟩, hok⟩ := hok
    have hv : ((request.attempt depth).run ⟨s.store, []⟩).1 = .ok v := hv
    have htogether := request.matches_attempt (C := .leniency) (fun _ => rfl) depth ⟨s.store, []⟩
      ⟨s'.store, []⟩ hs
    obtain ⟨hresult, hstore⟩ := htogether.eq_of_leniency fun expected got l h => by
      rw [hv] at h
      cases h
    rw [Session.attempts, Session.attempts]
    exact congrArg₂ List.cons hresult (ih hstore hok)

/-- **Strict arity only adds faults.**  Let a second store be the same as a first one, but lenient.
Unless the first evaluation ends with a wrong number of arguments of a closure, the second one ends in
the same way, and the stores that they leave are again the same but for the settings.  Too few
arguments are too few for both.  So requests that succeed in a strict session have the same results in
a lenient one. -/
theorem eval_lenient (depth : Nat) :
    (∀ (frame : FrameId) (v : Value) (s s' : Store) (log log' : List Event),
      s.Matches .leniency s' →
      ((∀ expected got l, ((eval depth frame v).run ⟨s, log⟩).1 ≠
          .error (.failed (.fault ⟨.argumentCount .closure expected got, l⟩))) →
        ((eval depth frame v).run ⟨s', log'⟩).1 = ((eval depth frame v).run ⟨s, log⟩).1 ∧
          ((eval depth frame v).run ⟨s, log⟩).2.store.Matches .leniency
            ((eval depth frame v).run ⟨s', log'⟩).2.store) ∧
      ∀ count got l, ((eval depth frame v).run ⟨s, log⟩).1 =
          .error (.failed (.fault ⟨.argumentCount .closure (.exactly count) got, l⟩)) →
        got < count → ((eval depth frame v).run ⟨s', log'⟩).1 =
          .error (.failed (.fault ⟨.argumentCount .closure (.atLeast count) got, l⟩))) ∧
    ∀ requests : List Request,
      (∀ r ∈ (Session.fresh ⟨true⟩).attempts depth requests, ∃ v, r = .ok v) →
      (Session.fresh ⟨false⟩).attempts depth requests =
        (Session.fresh ⟨true⟩).attempts depth requests := by
  refine ⟨fun frame v s s' log log' hs => ?_, fun requests => attempts_lenient depth requests ?_⟩
  · have htogether := eval_matches depth frame
      (Value.matches_refl (C := .leniency) (fun _ => rfl) (fun _ => rfl) v) ⟨s, log⟩ ⟨s', log'⟩ hs
    exact ⟨htogether.eq_of_leniency, fun _ _ _ => htogether.argumentCount_of_leniency⟩
  · exact Store.matches_fresh (fun _ => rfl) (fun _ => rfl) rfl

/-- A call with too few arguments, which fails in a lenient store as it does in a strict one, and a
program that succeeds. -/
theorem eval_lenient_samples :
    ((eval 3 0 (.list ⟨1, 1⟩ [.list ⟨1, 2⟩ [.symbol ⟨1, 3⟩ "fn*", .vector ⟨1, 7⟩
        [.symbol ⟨1, 8⟩ "a"], .symbol ⟨1, 11⟩ "a"]])).run ⟨.fresh ⟨false⟩, []⟩).1 =
      .error (.failed (.fault ⟨.argumentCount .closure (.atLeast 1) 0, ⟨1, 3⟩⟩)) ∧
    (Session.fresh ⟨false⟩).attempts 4 [.run "(def! f (fn* [& r] r))", .answer "(f :a)"] =
      [.ok (.closure ⟨1, 10⟩ 27 ⟨[], some "r"⟩ (.symbol ⟨1, 20⟩ "r") 0),
        .ok (.list ⟨1, 20⟩ [.keyword ⟨1, 4⟩ "a"])] := by
  constructor
  · have hstrict : ((eval 3 0 (.list ⟨1, 1⟩ [.list ⟨1, 2⟩ [.symbol ⟨1, 3⟩ "fn*", .vector ⟨1, 7⟩
        [.symbol ⟨1, 8⟩ "a"], .symbol ⟨1, 11⟩ "a"]])).run ⟨.fresh ⟨true⟩, []⟩).1 =
      .error (.failed (.fault ⟨.argumentCount .closure (.exactly 1) 0, ⟨1, 3⟩⟩)) := by cbv
    have hfresh : (Store.fresh ⟨true⟩).Matches .leniency (.fresh ⟨false⟩) :=
      Store.matches_fresh (fun _ => rfl) (fun _ => rfl) rfl
    exact ((eval_lenient 3).1 0 _ _ _ [] [] hfresh).2 1 0 ⟨1, 3⟩ hstrict Nat.zero_lt_one
  · have hstrict : (Session.fresh ⟨true⟩).attempts 4
        [.run "(def! f (fn* [& r] r))", .answer "(f :a)"] =
      [.ok (.closure ⟨1, 10⟩ 27 ⟨[], some "r"⟩ (.symbol ⟨1, 20⟩ "r") 0),
        .ok (.list ⟨1, 20⟩ [.keyword ⟨1, 4⟩ "a"])] := by cbv
    rw [← hstrict]
    refine (eval_lenient 4).2 _ ?_
    rw [hstrict]
    simp

end MiniLisp
