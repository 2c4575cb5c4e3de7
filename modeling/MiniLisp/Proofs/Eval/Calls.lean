import Mathlib.Data.List.Induction
import MiniLisp.Eval

/-!
# Calls of closures

A closure takes its operands by name.  The names are read from a list in which an ampersand may stand
before the last one; they say how many operands a call must have; and a call binds them one after the
other in a new frame, so that of several places with one name the last counts, and the name for the
rest comes after all the others.

* `Parameters.ofNames_eq_ok_iff`: the lists of names that are parameters.
* `Parameters.contains_arity_iff`: the numbers of operands that are taken.
* `Bindings.get?_insertAll_iff`: **the last of several values of a name is the one found**.
* `Parameters.get?_bind?_iff`: what a call binds.
* `closure_calls`: **how a closure is called**.
-/

namespace MiniLisp

open Eval

namespace Parameters

/-! ### Lists of names -/

/-- The names that parameters bind. -/
def names (p : Parameters) : List String :=
  p.positional ++ p.rest.toList

theorem names_none (positional : List String) : names ⟨positional, none⟩ = positional :=
  List.append_nil positional

/-- The list of names that the parameters are read from. -/
def written (p : Parameters) : List String :=
  match p.rest with
  | none => p.positional
  | some rest => p.positional ++ [ampersand, rest]

section

variable {ps front : List String} {r : String} {p : Parameters}

/-- An ampersand in the last place but one is the only one if no other name is an ampersand. -/
theorem count_penultimate_iff :
    (front ++ [ampersand, r]).count ampersand = 1 ↔ ampersand ∉ front ++ [r] := by
  rw [← List.count_eq_zero, List.count_append, List.count_append, List.count_cons_self]
  omega

theorem ofNames_of_not_mem (h : ampersand ∉ ps) : ofNames ps = .ok ⟨ps, none⟩ := by
  rw [ofNames, List.count_eq_zero.mpr h]
  rfl

theorem ofNames_penultimate (h : ampersand ∉ front ++ [r]) :
    ofNames (front ++ [ampersand, r]) = .ok ⟨front, some r⟩ := by
  rw [ofNames, count_penultimate_iff.mpr h]
  simp

/-- **The lists of names that are parameters**, and the parameters that they are. -/
theorem ofNames_eq_ok_iff : ofNames ps = .ok p ↔ ps = p.written ∧ ampersand ∉ p.names := by
  constructor
  · intro h
    unfold ofNames at h
    split at h
    · next hcount =>
      cases h
      rw [names_none]
      exact ⟨rfl, List.count_eq_zero.mp hcount⟩
    · next hcount =>
      split at h
      · next rest mark positional hreverse =>
        split at h
        · next hmark =>
          cases h
          have hps : ps = positional.reverse ++ [ampersand, rest] := by
            rw [← List.reverse_reverse ps, hreverse, hmark]
            simp
          rw [hps] at hcount
          exact ⟨hps, count_penultimate_iff.mp hcount⟩
        · cases h
      · cases h
    · cases h
  · rintro ⟨rfl, h⟩
    obtain ⟨positional, rest⟩ := p
    cases rest with
    | none =>
      rw [names_none] at h
      exact ofNames_of_not_mem h
    | some rest => exact ofNames_penultimate h

/-- A list of names is refused for its number of ampersands if there are several. -/
theorem ofNames_eq_tooMany_iff {k : Nat} :
    ofNames ps = .error (.tooManyAmpersands k) ↔ k = ps.count ampersand ∧ 2 ≤ k := by
  unfold ofNames
  split
  · next hcount => exact iff_of_false nofun (by omega)
  · next hcount =>
    refine iff_of_false ?_ (by omega)
    split
    · split
      · nofun
      · nofun
    · nofun
  · next h₀ h₁ =>
    rw [Except.error.injEq, BadParameters.tooManyAmpersands.injEq]
    have h₀ : ps.count ampersand ≠ 0 := h₀
    have h₁ : ps.count ampersand ≠ 1 := h₁
    omega

/-- The lists of names that are parameters, told by their ampersands. -/
theorem exists_ofNames_eq_ok_iff : (∃ p, ofNames ps = .ok p) ↔
    ampersand ∉ ps ∨ ps.count ampersand = 1 ∧ ∃ front r, ps = front ++ [ampersand, r] := by
  constructor
  · rintro ⟨⟨positional, rest⟩, h⟩
    obtain ⟨rfl, hnames⟩ := ofNames_eq_ok_iff.mp h
    cases rest with
    | none =>
      rw [names_none] at hnames
      exact Or.inl hnames
    | some rest => exact Or.inr ⟨count_penultimate_iff.mpr hnames, positional, rest, rfl⟩
  · rintro (h | ⟨hcount, front, r, rfl⟩)
    · exact ⟨_, ofNames_of_not_mem h⟩
    · exact ⟨_, ofNames_penultimate (count_penultimate_iff.mp hcount)⟩

/-- Otherwise the only ampersand stands in another place. -/
theorem ofNames_eq_misplaced_iff : ofNames ps = .error .misplacedAmpersand ↔
    ps.count ampersand = 1 ∧ ¬ ∃ front r, ps = front ++ [ampersand, r] := by
  have hok : (∃ p, ofNames ps = .ok p) ↔ _ := exists_ofNames_eq_ok_iff
  have hmany : ∀ k, ofNames ps = .error (.tooManyAmpersands k) ↔ _ :=
    fun k => ofNames_eq_tooMany_iff
  rw [← List.count_eq_zero] at hok
  cases h : ofNames ps with
  | ok p =>
    refine iff_of_false nofun fun hmisplaced => ?_
    rcases hok.mp ⟨p, h⟩ with hnone | hpenultimate
    · omega
    · exact hmisplaced.2 hpenultimate.2
  | error e =>
    have hnot : ¬ ∃ p, ofNames ps = .ok p := by simp [h]
    rw [hok, not_or, not_and] at hnot
    cases e with
    | tooManyAmpersands k =>
      obtain ⟨hk, htwo⟩ := (hmany k).mp h
      exact iff_of_false nofun (by omega)
    | misplacedAmpersand =>
      have hfew : ¬ 2 ≤ ps.count ampersand := fun htwo => by
        cases h.symm.trans ((hmany _).mpr ⟨rfl, htwo⟩)
      have hone : ps.count ampersand = 1 := by omega
      exact iff_of_true rfl ⟨hone, hnot.2 hone⟩

end

/-! ### Numbers of operands -/

/-- The numbers of operands that are taken: there is one for each name, and, if the arity is strict and
no name stands for the rest, no other. -/
theorem contains_arity_iff {p : Parameters} {strict : Bool} {n : Nat} :
    (p.arity strict).contains n = true ↔
      ¬ (n < p.positional.length ∨ p.positional.length < n ∧ strict = true ∧ p.rest = none) := by
  obtain ⟨positional, rest⟩ := p
  cases rest with
  | some rest => simp [arity]
  | none =>
    cases strict with
    | false => simp [arity]
    | true =>
      simp only [arity, Arity.contains_exactly, and_true]
      omega

theorem length_le_of_contains {p : Parameters} {strict : Bool} {n : Nat}
    (h : (p.arity strict).contains n = true) : p.positional.length ≤ n :=
  Nat.le_of_not_lt fun hlt => contains_arity_iff.mp h (Or.inl hlt)

section

variable {p : Parameters} {head : Location} {operands : List Value} {pairs : List (String × Value)}

/-- What a call binds are the operands themselves, and the list of those behind. -/
theorem bind?_eq_some_iff : p.bind? head operands = some pairs ↔
    p.positional.length ≤ operands.length ∧
      pairs = p.positional.zip (operands.take p.positional.length) ++
        p.rest.toList.map fun rest => (rest, .list head (operands.drop p.positional.length)) := by
  obtain ⟨positional, rest⟩ := p
  simp only [bind?]
  split
  · next hlength => exact iff_of_false nofun (by omega)
  · next hlength =>
    have hlength : positional.length ≤ operands.length := Nat.le_of_not_lt hlength
    cases rest with
    | none => simp [hlength, eq_comm]
    | some rest => simp [hlength, eq_comm]

/-- The names of the positional operands. -/
theorem map_fst_zip_take (h : p.positional.length ≤ operands.length) :
    (p.positional.zip (operands.take p.positional.length)).map Prod.fst = p.positional := by
  rw [List.map_fst_zip]
  rw [List.length_take]
  omega

theorem map_fst_bind? (h : p.bind? head operands = some pairs) : pairs.map Prod.fst = p.names := by
  obtain ⟨hlength, rfl⟩ := bind?_eq_some_iff.mp h
  rw [List.map_append, map_fst_zip_take hlength, List.map_map, names]
  exact congrArg _ (List.map_id _)

end

end Parameters

/-! ### Bindings -/

theorem getElem?_concat_of_ne {α : Type} {l : List α} {a b : α} (h : a ≠ b) (i : Nat) :
    (l ++ [b])[i]? = some a ↔ l[i]? = some a := by
  grind

namespace Bindings

variable {pairs : List (String × Value)} {x : String} {v : Value}

theorem insertAll_concat (b : Bindings) (p : String × Value) :
    b.insertAll (pairs ++ [p]) = (b.insertAll pairs).insert p.1 p.2 := by
  rw [insertAll, List.foldl_append]
  rfl

/-- **The last of several values of a name is the one found.** -/
theorem get?_insertAll_iff : (empty.insertAll pairs).get? x = some v ↔
    ∃ i : Nat, pairs[i]? = some (x, v) ∧ ∀ j, i < j → (pairs.map Prod.fst)[j]? ≠ some x := by
  -- The pairs are bound from the first to the last, so the induction takes the last one off.
  induction pairs using List.reverseRecOn with
  | nil => simp [insertAll]
  | append_singleton pairs p ih =>
    obtain ⟨y, w⟩ := p
    rw [insertAll_concat, get?_insert, List.map_append, List.map_singleton]
    split
    · next hx =>
      subst hx
      constructor
      · intro h
        cases h
        refine ⟨pairs.length, by simp, fun j hj => ?_⟩
        rw [List.getElem?_eq_none (by simp; omega)]
        exact (Option.some_ne_none x).symm
      · rintro ⟨i, hi, hlast⟩
        have hlength : i ≤ pairs.length := by
          have := (List.getElem?_eq_some_iff.mp hi).1
          simp at this
          omega
        rcases Nat.lt_or_eq_of_le hlength with hlt | rfl
        · exact absurd (by simp) (hlast pairs.length hlt)
        · simpa using hi
    · next hx =>
      have hne : (x, v) ≠ (y, w) := fun h => hx (congrArg Prod.fst h)
      simp only [getElem?_concat_of_ne hne, ne_eq, getElem?_concat_of_ne hx, ih]

end Bindings

namespace Store

variable (frames : Array Frame) (f : Frame) (functions : Nat)

theorem insert_push (x : String) (v : Value) :
    (Store.mk (frames.push f) functions).insert frames.size x v =
      ⟨frames.push { f with bindings := f.bindings.insert x v }, functions⟩ := by
  rw [insert, mk.injEq]
  refine ⟨Array.ext_getElem? fun i => ?_, rfl⟩
  rw [Array.getElem?_modify, Array.getElem?_push, Array.getElem?_push]
  split
  · next hi => rw [if_pos hi.symm, if_pos hi.symm]; rfl
  · next hi => rw [if_neg (Ne.symm hi), if_neg (Ne.symm hi)]

/-- What is bound in the latest frame is bound in its bindings. -/
theorem insertAll_push (pairs : List (String × Value)) :
    (Store.mk (frames.push f) functions).insertAll frames.size pairs =
      ⟨frames.push { f with bindings := f.bindings.insertAll pairs }, functions⟩ := by
  induction pairs generalizing f with
  | nil => rfl
  | cons p pairs ih =>
    show ((Store.mk (frames.push f) functions).insert frames.size p.1 p.2).insertAll _ pairs = _
    rw [insert_push, ih]
    rfl

end Store

/-- What a call binds a name to: the name for the rest to the list of the operands behind, and any
other name to the operand at the last of its places. -/
def Parameters.Assigns (p : Parameters) (head : Location) (operands : List Value) (x : String)
    (v : Value) : Prop :=
  (p.rest = some x ∧ v = .list head (operands.drop p.positional.length)) ∨
    p.rest ≠ some x ∧ ∃ i : Nat, p.positional[i]? = some x ∧
      (∀ j, i < j → p.positional[j]? ≠ some x) ∧ operands[i]? = some v

section

variable {p : Parameters} {head : Location} {operands : List Value}

/-- The operands of the positional names, without the rest. -/
theorem Parameters.get?_positional_iff (h : p.positional.length ≤ operands.length) {x : String} {v : Value} :
    (Bindings.empty.insertAll (p.positional.zip (operands.take p.positional.length))).get? x = some v ↔
      ∃ i : Nat, p.positional[i]? = some x ∧ (∀ j, i < j → p.positional[j]? ≠ some x) ∧
        operands[i]? = some v := by
  rw [Bindings.get?_insertAll_iff, Parameters.map_fst_zip_take h]
  refine exists_congr fun i => ?_
  rw [List.getElem?_zip_eq_some, List.getElem?_take]
  constructor
  · rintro ⟨⟨hx, hv⟩, hlast⟩
    split at hv
    · exact ⟨hx, hlast, hv⟩
    · cases hv
  · rintro ⟨hx, hlast, hv⟩
    rw [if_pos (List.getElem?_eq_some_iff.mp hx).1]
    exact ⟨⟨hx, hv⟩, hlast⟩

/-- **What a call binds**, and nothing else. -/
theorem Parameters.get?_bind?_iff {pairs : List (String × Value)} (h : p.bind? head operands = some pairs)
    {x : String} {v : Value} :
    (Bindings.empty.insertAll pairs).get? x = some v ↔ p.Assigns head operands x v := by
  obtain ⟨hlength, rfl⟩ := Parameters.bind?_eq_some_iff.mp h
  rw [Parameters.Assigns, ← Parameters.get?_positional_iff hlength]
  cases p.rest with
  | none => simp
  | some rest =>
    rw [Option.toList_some, List.map_singleton, Bindings.insertAll_concat, Bindings.get?_insert]
    split
    · next hx =>
      subst hx
      simp [eq_comm]
    · next hx =>
      have hx : some rest ≠ some x := fun h => hx (Option.some.inj h).symm
      simp [hx]

/-! ### Calls -/

variable {recur : Evaluator} {frame captured : FrameId} {body : Value} {s : Store} {log : List Event}

theorem find?_isNop_eq_none (h : ∀ v ∈ operands, v.isNop = false) :
    operands.find? Value.isNop = none :=
  List.find?_eq_none.mpr fun v hv => Bool.eq_false_iff.mp (h v hv)

theorem apply_closure (id : FunctionId) (h : ∀ v ∈ operands, v.isNop = false) :
    apply recur frame (.closure head id p body captured) operands =
      callClosure recur head p body captured operands := by
  rw [apply, find?_isNop_eq_none h]

/-- A call with a wrong number of operands fails before anything is bound. -/
theorem run_callClosure_of_not_contains
    (h : (p.arity (s.settings captured).strictArity).contains operands.length = false) :
    (callClosure recur head p body captured operands).run ⟨s, log⟩ =
      (.error (.failed (.fault ⟨.argumentCount .closure (p.arity (s.settings captured).strictArity)
        operands.length, head⟩)), ⟨s, .closureCall p operands :: log⟩) := by
  rw [callClosure, run_emit_bind, run_getStore_bind]
  dsimp only
  rw [if_neg (Bool.eq_false_iff.mp h)]
  rfl

/-- Otherwise the body is evaluated where the operands are bound. -/
theorem run_callClosure {pairs : List (String × Value)}
    (h : (p.arity (s.settings captured).strictArity).contains operands.length = true)
    (hpairs : p.bind? head operands = some pairs) :
    (callClosure recur head p body captured operands).run ⟨s, log⟩ =
      (recur s.frames.size body).run
        ⟨(s.spawn captured).2.insertAll s.frames.size pairs, .closureCall p operands :: log⟩ := by
  rw [callClosure, run_emit_bind, run_getStore_bind]
  dsimp only
  rw [if_pos h, hpairs]
  rfl

end

/-- **How a closure is called.**  A list of names is the parameters of a closure if it has no ampersand,
or one in the last place but one.  A call must have an operand for each positional name, and no more if
the arity is strict and no name stands for the rest; otherwise it fails at its head.  The body is
evaluated in a new frame inside the captured one, which binds the operands and nothing else. -/
theorem closure_calls (ps : List String) :
    ((∃ p, Parameters.ofNames ps = .ok p) ↔
      "&" ∉ ps ∨ ps.count "&" = 1 ∧ ∃ front r, ps = front ++ ["&", r]) ∧
    (∀ k, Parameters.ofNames ps = .error (.tooManyAmpersands k) ↔ k = ps.count "&" ∧ 2 ≤ k) ∧
    (Parameters.ofNames ps = .error .misplacedAmpersand ↔
      ps.count "&" = 1 ∧ ¬ ∃ front r, ps = front ++ ["&", r]) ∧
    ∀ p, Parameters.ofNames ps = .ok p → ps = p.written ∧
      ∀ (recur : Evaluator) (frame captured : FrameId) (head : Location) (id : FunctionId)
        (body : Value) (operands : List Value) (s : Store) (log : List Event),
        (∀ v ∈ operands, v.isNop = false) →
        let count := p.positional.length
        let strict := (s.settings captured).strictArity
        let refused :=
          operands.length < count ∨ count < operands.length ∧ strict = true ∧ p.rest = none
        let call := (apply recur frame (.closure head id p body captured) operands).run ⟨s, log⟩
        (refused → call = (.error (.failed (.fault
          ⟨.argumentCount .closure (p.arity strict) operands.length, head⟩)),
          ⟨s, .closureCall p operands :: log⟩)) ∧
        (¬ refused → ∃ b : Bindings, (∀ x v, b.get? x = some v ↔ p.Assigns head operands x v) ∧
          call = (recur s.frames.size body).run
            ⟨⟨s.frames.push ⟨b, some captured, s.settings captured⟩, s.functions⟩,
              .closureCall p operands :: log⟩) := by
  refine ⟨Parameters.exists_ofNames_eq_ok_iff, fun k => Parameters.ofNames_eq_tooMany_iff,
    Parameters.ofNames_eq_misplaced_iff, fun p hp => ⟨(Parameters.ofNames_eq_ok_iff.mp hp).1, ?_⟩⟩
  intro recur frame captured head id body operands s log hoperands count strict refused call
  have hcall : call = (callClosure recur head p body captured operands).run ⟨s, log⟩ :=
    congrArg (Eval.run · _) (apply_closure id hoperands)
  have harity : (p.arity strict).contains operands.length = true ↔ ¬ refused :=
    Parameters.contains_arity_iff
  rw [hcall]
  constructor
  · intro hrefused
    have hnot : (p.arity strict).contains operands.length = false :=
      Bool.eq_false_iff.mpr fun h => harity.mp h hrefused
    exact run_callClosure_of_not_contains hnot
  · intro htaken
    have hcontains := harity.mpr htaken
    have hpairs : p.bind? head operands = some _ :=
      Parameters.bind?_eq_some_iff.mpr ⟨Parameters.length_le_of_contains hcontains, rfl⟩
    refine ⟨_, fun x v => Parameters.get?_bind?_iff hpairs, ?_⟩
    rw [run_callClosure hcontains hpairs]
    congr 2
    exact Store.insertAll_push s.frames ⟨.empty, some captured, s.settings captured⟩ s.functions _

/-- A name that stands in two places, and one that stands for the rest besides. -/
theorem closure_calls_repeated :
    let l := Location.start
    let operands := [.nil l, .bool l false, .bool l true, .nil l, .nil l]
    let p : Parameters := ⟨["y", "x", "x"], some "y"⟩
    ∃ b : Bindings, b.get? "x" = some (.bool l true) ∧ b.get? "y" = some (.list l [.nil l, .nil l]) ∧
      (apply (eval 1) 0 (.closure l 30 p (.symbol l "x") 0) operands).run ⟨.fresh ⟨true⟩, []⟩ =
        (eval 1 1 (.symbol l "x")).run
          ⟨⟨(Store.fresh ⟨true⟩).frames.push ⟨b, some 0, ⟨true⟩⟩, (Store.fresh ⟨true⟩).functions⟩,
            [.closureCall p operands]⟩ := by
  intro l operands p
  obtain ⟨-, -, -, hcalls⟩ := closure_calls ["y", "x", "x", "&", "y"]
  obtain ⟨-, hcall⟩ := hcalls p rfl
  obtain ⟨b, hb, hrun⟩ := (hcall (eval 1) 0 0 l 30 (.symbol l "x") operands (.fresh ⟨true⟩) []
    (by decide)).2 (by decide)
  refine ⟨b, (hb _ _).mpr (Or.inr ⟨by decide, 2, rfl, fun j hj => ?_, rfl⟩),
    (hb _ _).mpr (Or.inl ⟨rfl, rfl⟩), hrun⟩
  rw [List.getElem?_eq_none hj]
  nofun

end MiniLisp
