import Mathlib
import MiniLisp.Eval
import MiniLisp.Proofs.Store.Matching

/-!
# Two runs of one program

A program is run twice, on matching stores.  Every rule of evaluation leads from matching values and
stores to matching ones, so the two runs go the same way: they end with matching values, or with
matching faults, or neither of them ends.

They part only where the first run is stricter than the second and refuses surplus arguments of a
closure.  What the second run does from there on cannot be said.

* `eval_matches`: **evaluation keeps two runs together**.
* `eval_matches_places`: what a program computes does not depend on where it is written.
-/

namespace MiniLisp

open Eval

/-! ### Outcomes -/

/-- Two reasons to end without a value that match. -/
inductive Stop.Matches (C : Correspondence) : Stop → Stop → Prop
  | fault {f f' : Fault} : f.Matches C f' → Matches C (.failed (.fault f)) (.failed (.fault f'))
  | unreadable (e : ReadError) : Matches C (.failed (.unreadable e)) (.failed (.unreadable e))
  | stuck : Matches C .stuck .stuck
  | tooDeep : Matches C .tooDeep .tooDeep

/-- Whether the second of two runs may be less strict than the first. -/
def Correspondence.Lenient (C : Correspondence) : Prop :=
  ∃ a b, C.settings a b ∧ a ≠ b

/-- Surplus arguments of a closure were refused. -/
def Refused {α : Type} (r : Except Stop α) : Prop :=
  ∃ count got l, count < got ∧
    r = .error (.failed (.fault ⟨.argumentCount .closure (.exactly count) got, l⟩))

/-- Two outcomes on stores that match, unless the first run refused surplus arguments. -/
def Together {α : Type} (C : Correspondence) (R : α → α → Prop)
    (o o' : Except Stop α × Machine) : Prop :=
  Similar (Stop.Matches C) R o.1 o'.1 ∧ o.2.store.Matches C o'.2.store ∨ C.Lenient ∧ Refused o.1

/-- Two evaluations that stay together if they are started on matching stores. -/
def Eval.Matches {α : Type} (C : Correspondence) (R : α → α → Prop) (e e' : Eval α) : Prop :=
  ∀ m m' : Machine, m.store.Matches C m'.store → Together C R (e.run m) (e'.run m')

section

variable {C : Correspondence} {α β : Type} {R : α → α → Prop} {S : β → β → Prop}

theorem Eval.Matches.bind {e e' : Eval α} {f f' : α → Eval β} (he : e.Matches C R e')
    (hf : ∀ {a a' : α}, R a a' → (f a).Matches C S (f' a')) :
    (e >>= f).Matches C S (e' >>= f') := by
  intro m m' hm
  have he := he m m' hm
  rw [run_bind, run_bind]
  generalize e.run m = o, e'.run m' = o' at he ⊢
  obtain ⟨r, n⟩ := o
  obtain ⟨r', n'⟩ := o'
  rcases he with ⟨hr, hn⟩ | ⟨hC, count, got, l, hlt, rfl⟩
  · cases hr with
    | ok ha => exact hf ha n n' hn
    | error hs => exact Or.inl ⟨.error hs, hn⟩
  · exact Or.inr ⟨hC, count, got, l, hlt, rfl⟩

theorem matches_pure {a a' : α} (h : R a a') : (pure a : Eval α).Matches C R (pure a') :=
  fun _ _ hm => Or.inl ⟨.ok h, hm⟩

theorem matches_stop {s s' : Stop} (h : s.Matches C s') : (stop s : Eval α).Matches C R (stop s') :=
  fun _ _ hm => Or.inl ⟨.error h, hm⟩

theorem matches_fail {cause : Cause} {l l' : Location} (hl : C.location l l')
    (h : ∀ expected got, cause ≠ .argumentCount .closure expected got) :
    (fail cause l : Eval α).Matches C R (fail cause l') :=
  matches_stop (.fault (.same hl h))

theorem matches_lift {r r' : Except Fault α} (h : Similar (Fault.Matches C) R r r') :
    (lift r).Matches C R (lift r') := by
  cases h with
  | ok ha => exact matches_pure ha
  | error hf => exact matches_stop (.fault hf)

theorem matches_emit (e e' : Event) : (emit e).Matches C Eq (emit e') :=
  fun _ _ hm => Or.inl ⟨.ok rfl, hm⟩

theorem matches_getStore : getStore.Matches C (Store.Matches C) getStore :=
  fun _ _ hm => Or.inl ⟨.ok hm, hm⟩

theorem matches_update {f f' : Store → Store}
    (h : ∀ {s s' : Store}, s.Matches C s' → (f s).Matches C (f' s')) :
    (update f).Matches C Eq (update f') :=
  fun _ _ hm => Or.inl ⟨.ok rfl, h hm⟩

theorem matches_spawn (parent : FrameId) : (spawn parent).Matches C Eq (spawn parent) :=
  fun _ _ hm => Or.inl ⟨.ok (hm.spawn parent).1, (hm.spawn parent).2⟩

theorem matches_lookup (frame : FrameId) {v v' : Value} (hv : v.Matches C v') :
    (lookup frame v).Matches C (Value.Matches C) (lookup frame v') :=
  matches_getStore.bind fun hs => matches_lift (hs.get frame hv)

end

/-! ### Calls -/

section

variable {C : Correspondence} {l l' : Location} {vs vs' : List Value}

theorem matches_callPrimitive (frame : FrameId) (code : Primitive) (hl : C.location l l')
    (hvs : List.Forall₂ (Value.Matches C) vs vs') :
    (callPrimitive frame l code vs).Matches C (Value.Matches C) (callPrimitive frame l' code vs') := by
  unfold callPrimitive
  rw [hvs.length_eq]
  split
  · refine (matches_emit _ _).bind fun _ => matches_getStore.bind fun {s s'} hs => ?_
    have hanswer := hs.primitive? hl hvs frame code
    generalize s.primitive? frame code l vs = o, s'.primitive? frame code l' vs' = o' at hanswer ⊢
    cases hanswer with
    | none => exact matches_stop .stuck
    | @some answer answer' h =>
      obtain ⟨r, t⟩ := answer
      obtain ⟨r', t'⟩ := answer'
      obtain ⟨hr, ht⟩ := h
      cases hr with
      | ok hv =>
        refine (matches_update fun _ => ht).bind fun _ => (matches_emit _ _).bind fun _ => ?_
        exact matches_pure hv
      | error hf =>
        refine (matches_update fun _ => ht).bind fun _ => (matches_emit _ _).bind fun _ => ?_
        exact matches_stop (.fault hf)
  · exact matches_fail hl (by simp)

theorem forall₂_zip (names : List String) (hvs : List.Forall₂ (Value.Matches C) vs vs') :
    List.Forall₂ (fun p p' => p.1 = p'.1 ∧ p.2.Matches C p'.2) (names.zip vs) (names.zip vs') := by
  induction hvs generalizing names with
  | nil => rw [List.zip_nil_right]; exact .nil
  | cons hv _ ih =>
    cases names with
    | nil => exact .nil
    | cons name names => exact .cons ⟨rfl, hv⟩ (ih names)

theorem matches_bind? (p : Parameters) (hl : C.location l l')
    (hvs : List.Forall₂ (Value.Matches C) vs vs') :
    Option.Rel (List.Forall₂ fun p p' => p.1 = p'.1 ∧ p.2.Matches C p'.2) (p.bind? l vs)
      (p.bind? l' vs') := by
  unfold Parameters.bind?
  rw [hvs.length_eq]
  dsimp only
  split
  · exact .none
  · have hpositional := forall₂_zip p.positional (List.forall₂_take p.positional.length hvs)
    cases p.rest with
    | none => exact .some hpositional
    | some rest =>
      refine .some (List.rel_append hpositional (.cons ⟨rfl, ?_⟩ .nil))
      exact .list hl (List.forall₂_drop p.positional.length hvs)

/-- What the less strict of two settings refuses, the stricter one refuses too, and what only the
stricter one refuses are surplus arguments. -/
theorem contains_arity {a b : Settings} (h : C.settings a b) (p : Parameters) (got : Nat) :
    (p.arity a.strictArity).contains got = (p.arity b.strictArity).contains got ∨
      (p.arity b.strictArity).contains got = true ∧ a ≠ b ∧
        ∃ count, count < got ∧ p.arity a.strictArity = .exactly count := by
  by_cases hab : a.strictArity = b.strictArity
  · exact Or.inl (by rw [hab])
  · have hb : b.strictArity = false := by
      by_contra hb
      rw [Bool.not_eq_false] at hb
      exact hab (by rw [C.strict_of_strict h hb, hb])
    have ha : a.strictArity = true := by
      rw [hb, Bool.not_eq_false] at hab
      exact hab
    obtain ⟨positional, rest⟩ := p
    cases rest with
    | some rest => exact Or.inl (by rw [ha, hb]; rfl)
    | none =>
      rw [ha, hb]
      show (Arity.exactly positional.length).contains got =
          (Arity.atLeast positional.length).contains got ∨
        (Arity.atLeast positional.length).contains got = true ∧ _
      by_cases hlt : positional.length < got
      · refine Or.inr ⟨?_, fun h => ?_, positional.length, hlt, rfl⟩
        · rw [Arity.contains_atLeast]
          omega
        · rw [h, hb] at ha
          cases ha
      · refine Or.inl (Bool.eq_iff_iff.mpr ?_)
        rw [Arity.contains_exactly, Arity.contains_atLeast]
        omega

end

section

variable {C : Correspondence} {recur : Evaluator}
  (hrecur : ∀ (frame : FrameId) {v v' : Value}, v.Matches C v' →
    (recur frame v).Matches C (Value.Matches C) (recur frame v'))

include hrecur

theorem matches_callClosure (p : Parameters) (captured : FrameId) {l l' : Location}
    {body body' : Value} {vs vs' : List Value} (hl : C.location l l') (hbody : body.Matches C body')
    (hvs : List.Forall₂ (Value.Matches C) vs vs') :
    (callClosure recur l p body captured vs).Matches C (Value.Matches C)
      (callClosure recur l' p body' captured vs') := by
  refine (matches_emit _ _).bind fun _ => matches_getStore.bind fun {s s'} hs => ?_
  rw [hvs.length_eq]
  have hsettings := hs.settings captured
  generalize s.settings captured = a, s'.settings captured = b at hsettings ⊢
  dsimp only
  rcases contains_arity hsettings p vs'.length with hsame | ⟨hb, hne, count, hlt, ha⟩
  · rw [hsame]
    split
    · refine (matches_spawn captured).bind fun {inner inner'} hinner => ?_
      subst hinner
      have hpairs := matches_bind? p hl hvs
      generalize p.bind? l vs = o, p.bind? l' vs' = o' at hpairs ⊢
      cases hpairs with
      | none => exact matches_stop .stuck
      | some hpairs =>
        refine (matches_update fun hs => hs.insertAll hpairs inner).bind fun _ => ?_
        exact hrecur inner hbody
    · exact matches_stop (.fault (.arguments p vs'.length hl hsettings))
  · -- Only the first run refuses the arguments.
    have hrefused : (p.arity a.strictArity).contains vs'.length = false := by
      rw [Bool.eq_false_iff, ha, Ne, Arity.contains_exactly]
      omega
    intro m m' _
    refine Or.inr ⟨⟨a, b, hsettings, hne⟩, count, vs'.length, l, hlt, ?_⟩
    rw [hrefused, ha]
    rfl

theorem matches_apply (frame : FrameId) {head head' : Value} {vs vs' : List Value}
    (hhead : head.Matches C head') (hvs : List.Forall₂ (Value.Matches C) vs vs') :
    (apply recur frame head vs).Matches C (Value.Matches C) (apply recur frame head' vs') := by
  have hnop : Option.Rel (Value.Matches C) (vs.find? Value.isNop) (vs'.find? Value.isNop) := by
    induction hvs with
    | nil => exact .none
    | @cons v v' _ _ hv _ ih =>
      rw [List.find?_cons, List.find?_cons, hv.isNop_eq]
      cases v'.isNop with
      | true => exact .some hv
      | false => exact ih
  unfold apply
  generalize vs.find? Value.isNop = o, vs'.find? Value.isNop = o' at hnop ⊢
  cases hnop with
  | some hv => exact matches_fail hv.location (by simp)
  | none =>
    have htag := hhead.tag_eq
    have hlocation := hhead.location
    cases hhead with
    | primitive code hl _ => exact matches_callPrimitive frame code hl hvs
    | closure p captured hl _ hbody => exact matches_callClosure hrecur p captured hl hbody hvs
    | _ => exact matches_fail hlocation (by simp)

/-! ### One rule after the other -/

theorem matches_evalElements (frame : FrameId) {vs vs' : List Value}
    (hvs : List.Forall₂ (Value.Matches C) vs vs') :
    (evalElements recur frame vs).Matches C (List.Forall₂ (Value.Matches C))
      (evalElements recur frame vs') := by
  induction hvs with
  | nil => exact matches_pure .nil
  | cons hv _ ih =>
    refine (hrecur frame hv).bind fun hw => ih.bind fun hws => ?_
    exact matches_pure (.cons hw hws)

theorem matches_evalEntries (frame : FrameId) {es es' : List (Value × Value)}
    (hes : List.Forall₂ (Both (Value.Matches C)) es es') :
    (evalEntries recur frame es).Matches C (List.Forall₂ (Both (Value.Matches C)))
      (evalEntries recur frame es') := by
  induction hes with
  | nil => exact matches_pure .nil
  | cons he _ ih =>
    obtain ⟨hk, hv⟩ := he
    refine (hrecur frame hv).bind fun hw => ih.bind fun hws => ?_
    exact matches_pure (.cons (.mk hk hw) hws)

theorem matches_evalContents (frame : FrameId) {v v' : Value} (hv : v.Matches C v') :
    (evalContents recur frame v).Matches C (Value.Matches C) (evalContents recur frame v') := by
  refine (matches_emit _ _).bind fun _ => ?_
  cases hv with
  | symbol name hl => exact matches_lookup frame (.symbol name hl)
  | list hl hvs =>
    exact (matches_evalElements hrecur frame hvs).bind fun hws => matches_pure (.list hl hws)
  | vector hl hvs =>
    exact (matches_evalElements hrecur frame hvs).bind fun hws => matches_pure (.vector hl hws)
  | map hl hes =>
    exact (matches_evalEntries hrecur frame hes).bind fun hws => matches_pure (.map hl hws)
  | number x hl => exact matches_pure (.number x hl)
  | keyword name hl => exact matches_pure (.keyword name hl)
  | string text hl => exact matches_pure (.string text hl)
  | bool b hl => exact matches_pure (.bool b hl)
  | nil hl => exact matches_pure (.nil hl)
  | primitive code hl hi => exact matches_pure (.primitive code hl hi)
  | closure p captured hl hi hbody => exact matches_pure (.closure p captured hl hi hbody)
  | nop message hl => exact matches_pure (.nop message hl)

theorem matches_define (frame : FrameId) {l l' : Location} {vs vs' : List Value}
    (hl : C.location l l') (hvs : List.Forall₂ (Value.Matches C) vs vs') :
    (define recur frame l vs).Matches C (Value.Matches C) (define recur frame l' vs') := by
  have hlength := hvs.length_eq
  unfold define
  match vs, vs', hvs with
  | [key, value], [key', value'], .cons hkey (.cons hvalue .nil) =>
    dsimp only
    rw [hkey.symbol?_eq]
    cases key'.symbol? with
    | none => exact matches_fail hkey.location (by simp)
    | some name =>
      refine (hrecur frame hvalue).bind fun hw => ?_
      exact (matches_update fun hs => hs.insert frame name hw).bind fun _ => matches_pure hw
  | [], [], .nil => exact matches_fail hl (by simp)
  | [_], [_], .cons _ .nil => exact matches_fail hl (by simp)
  | _ :: _ :: _ :: _, _ :: _ :: _ :: _, .cons _ (.cons _ (.cons _ _)) =>
    dsimp only
    rw [hlength]
    exact matches_fail hl (by simp)

theorem matches_bindPairs (frame : FrameId) {es es' : List (Value × Value)}
    (hes : List.Forall₂ (Both (Value.Matches C)) es es') :
    (bindPairs recur frame es).Matches C Eq (bindPairs recur frame es') := by
  induction hes with
  | nil => exact matches_pure rfl
  | cons he _ ih =>
    obtain @⟨key, key', value, value', hkey, hvalue⟩ := he
    rw [bindPairs, bindPairs, hkey.symbol?_eq, hkey.tag_eq]
    cases key'.symbol? with
    | none => exact matches_fail hkey.location (by simp)
    | some name =>
      refine (hrecur frame hvalue).bind fun hw => ?_
      exact (matches_update fun hs => hs.insert frame name hw).bind fun _ => ih

omit hrecur in
theorem matches_pairs : ∀ {vs vs' : List Value}, List.Forall₂ (Value.Matches C) vs vs' →
    Similar (Value.Matches C) (List.Forall₂ (Both (Value.Matches C))) (Value.pairs vs)
      (Value.pairs vs')
  | [], [], .nil => .ok .nil
  | [_], [_], .cons hv .nil => .error hv
  | _ :: _ :: _, _ :: _ :: _, .cons hk (.cons hv hvs) =>
    (matches_pairs hvs).map fun hes => .cons (.mk hk hv) hes

theorem matches_bindLocally (frame : FrameId) {l l' : Location} {vs vs' : List Value}
    (hl : C.location l l') (hvs : List.Forall₂ (Value.Matches C) vs vs') :
    (bindLocally recur frame l vs).Matches C (Value.Matches C) (bindLocally recur frame l' vs') := by
  have hlength := hvs.length_eq
  unfold bindLocally
  match vs, vs', hvs with
  | [bindings, body], [bindings', body'], .cons hbindings (.cons hbody .nil) =>
    have helements := hbindings.elements?
    dsimp only
    rw [hbindings.tag_eq]
    generalize bindings.elements? = o, bindings'.elements? = o' at helements ⊢
    cases helements with
    | none => exact matches_fail hbindings.location (by simp)
    | @some elements elements' h =>
      have hpairs := matches_pairs h
      dsimp only
      rw [h.length_eq]
      generalize Value.pairs elements = r, Value.pairs elements' = r' at hpairs ⊢
      cases hpairs with
      | error _ => exact matches_fail hbindings.location (by simp)
      | ok hpairs =>
        refine (matches_spawn frame).bind fun {inner inner'} hinner => ?_
        subst hinner
        refine (matches_bindPairs hrecur inner hpairs).bind fun _ => ?_
        exact hrecur inner hbody
  | [], [], .nil => exact matches_fail hl (by simp)
  | [_], [_], .cons _ .nil => exact matches_fail hl (by simp)
  | _ :: _ :: _ :: _, _ :: _ :: _ :: _, .cons _ (.cons _ (.cons _ _)) =>
    dsimp only
    rw [hlength]
    exact matches_fail hl (by simp)

theorem matches_evalForm (frame : FrameId) {form form' head head' : Value} {vs vs' : List Value}
    (hhead : head.Matches C head') (hvs : List.Forall₂ (Value.Matches C) vs vs') :
    (evalForm recur frame form head vs).Matches C (Value.Matches C)
      (evalForm recur frame form' head' vs') := by
  refine (matches_emit _ _).bind fun _ => ?_
  rw [hhead.symbol?_eq]
  split
  · refine (matches_define hrecur frame hhead.location hvs).bind fun hw => ?_
    cases hvs with
    | nil => exact matches_stop .stuck
    | cons _ _ => exact (matches_emit _ _).bind fun _ => matches_pure hw
  · split
    · exact matches_bindLocally hrecur frame hhead.location hvs
    · refine (hrecur frame hhead).bind fun {function function'} hfunction => ?_
      have hpassing : function.passing? = function'.passing? := by
        cases hfunction <;> rfl
      rw [hpassing, hfunction.tag_eq]
      cases function'.passing? with
      | none => exact matches_fail hfunction.location (by simp)
      | some passing =>
        cases passing with
        | unevaluated => exact matches_apply hrecur frame hfunction hvs
        | evaluated =>
          refine (matches_evalElements hrecur frame hvs).bind fun hws => ?_
          exact matches_apply hrecur frame hfunction hws

theorem matches_evalStep (frame : FrameId) {v v' : Value} (hv : v.Matches C v') :
    (evalStep recur frame v).Matches C (Value.Matches C) (evalStep recur frame v') := by
  cases hv with
  | list hl hvs =>
    cases hvs with
    | nil => exact matches_pure (.list hl .nil)
    | cons hhead hvs => exact matches_evalForm hrecur frame hhead hvs
  | _ => exact matches_evalContents hrecur frame (by constructor <;> assumption)

end

/-- **Evaluation keeps two runs together.** -/
theorem eval_matches {C : Correspondence} : ∀ (depth : Nat) (frame : FrameId) {v v' : Value},
    v.Matches C v' → (eval depth frame v).Matches C (Value.Matches C) (eval depth frame v') := by
  intro depth
  induction depth with
  | zero => exact fun _ _ _ _ => matches_stop .tooDeep
  | succ depth ih => exact fun frame _ _ hv => matches_evalStep ih frame hv

/-! ### Runs that differ in locations -/

/-- Locations may differ, and nothing else. -/
def Correspondence.places : Correspondence where
  location _ _ := True
  identity := Eq
  settings := Eq
  identity_iff := eq_iff_of_eq
  settings_default := rfl
  strict_of_strict := by rintro a b rfl h; exact h

/-- Two reasons to end without a value that are the same, but for the location of a fault. -/
inductive Stop.SameCause : Stop → Stop → Prop
  | fault (cause : Cause) (l l' : Location) :
      SameCause (.failed (.fault ⟨cause, l⟩)) (.failed (.fault ⟨cause, l'⟩))
  | unreadable (e : ReadError) : SameCause (.failed (.unreadable e)) (.failed (.unreadable e))
  | stuck : SameCause .stuck .stuck
  | tooDeep : SameCause .tooDeep .tooDeep

/-- With the same settings, faults have the same cause. -/
theorem Stop.Matches.sameCause {s s' : Stop} (h : s.Matches .places s') : s.SameCause s' := by
  cases h with
  | fault hf =>
    cases hf with
    | same _ _ => exact .fault _ _ _
    | arguments p got _ hab => cases hab; exact .fault _ _ _
  | unreadable e => exact .unreadable e
  | stuck => exact .stuck
  | tooDeep => exact .tooDeep

/-- **What a program computes does not depend on where it is written.**  If two stores and two values
differ only in locations, then both evaluations end or neither does, at any depth; they end with values
that differ only in locations, or with the same cause; and so do the stores that they leave. -/
theorem eval_matches_places (depth : Nat) (frame : FrameId) {v v' : Value} {s s' : Store}
    (hv : v.Matches .places v') (hs : s.Matches .places s') (log log' : List Event) :
    Similar Stop.SameCause (Value.Matches .places) ((eval depth frame v).run ⟨s, log⟩).1
        ((eval depth frame v').run ⟨s', log'⟩).1 ∧
      ((eval depth frame v).run ⟨s, log⟩).2.store.Matches .places
        ((eval depth frame v').run ⟨s', log'⟩).2.store := by
  have h := eval_matches depth frame hv ⟨s, log⟩ ⟨s', log'⟩ hs
  generalize (eval depth frame v).run ⟨s, log⟩ = o, (eval depth frame v').run ⟨s', log'⟩ = o' at h ⊢
  rcases h with ⟨hresult, hstore⟩ | ⟨⟨a, b, hab, hne⟩, _⟩
  · obtain ⟨r, m⟩ := o
    obtain ⟨r', m'⟩ := o'
    refine ⟨?_, hstore⟩
    cases hresult with
    | ok hw => exact .ok hw
    | error hs => exact .error hs.sameCause
  · exact absurd hab hne

/-- A call of a closure whose body fails.  In the second run the call is written elsewhere, and so is
the body of the closure; it fails for the same reason. -/
theorem eval_matches_places_call :
    ∃ l, ((eval 3 0 (.list ⟨2, 3⟩ [.symbol ⟨2, 4⟩ "f", .keyword ⟨4, 1⟩ "k"])).run
      ⟨(Store.fresh .default).insert 0 "f" (.closure ⟨7, 1⟩ 27 ⟨["a"], none⟩
        (.list ⟨8, 5⟩ [.symbol ⟨9, 5⟩ "a"]) 0), []⟩).1 =
      .error (.failed (.fault ⟨.notAFunction .keyword, l⟩)) := by
  have hfirst : ((eval 3 0 (.list ⟨1, 1⟩ [.symbol ⟨1, 2⟩ "f", .keyword ⟨1, 4⟩ "k"])).run
      ⟨(Store.fresh .default).insert 0 "f" (.closure ⟨1, 1⟩ 27 ⟨["a"], none⟩
        (.list ⟨1, 5⟩ [.symbol ⟨1, 6⟩ "a"]) 0), []⟩).1 =
      .error (.failed (.fault ⟨.notAFunction .keyword, ⟨1, 6⟩⟩)) := by cbv
  have hcall : (Value.list ⟨1, 1⟩ [.symbol ⟨1, 2⟩ "f", .keyword ⟨1, 4⟩ "k"]).Matches .places
      (.list ⟨2, 3⟩ [.symbol ⟨2, 4⟩ "f", .keyword ⟨4, 1⟩ "k"]) :=
    .list trivial (.cons (.symbol "f" trivial) (.cons (.keyword "k" trivial) .nil))
  have hclosure : (Value.closure ⟨1, 1⟩ 27 ⟨["a"], none⟩ (.list ⟨1, 5⟩ [.symbol ⟨1, 6⟩ "a"])
      0).Matches .places
        (.closure ⟨7, 1⟩ 27 ⟨["a"], none⟩ (.list ⟨8, 5⟩ [.symbol ⟨9, 5⟩ "a"]) 0) :=
    .closure _ 0 trivial rfl (.list trivial (.cons (.symbol "a" trivial) .nil))
  have hstore := (Store.matches_refl (C := .places) (fun _ => trivial) (fun _ => rfl) (fun _ => rfl)
    (.fresh .default)).insert 0 "f" hclosure
  have hresult := (eval_matches_places 3 0 hcall hstore [] []).1
  rw [hfirst] at hresult
  generalize Prod.fst _ = r at hresult ⊢
  cases hresult with
  | error hs =>
    cases hs with
    | fault _ _ l => exact ⟨l, rfl⟩

end MiniLisp
