import Mathlib
import MiniLisp.Proofs.Eval.Agreement
import MiniLisp.Proofs.Session.Requests
import MiniLisp.Proofs.Store.Rooted

/-!
# Identities are given out once

A store counts the functions that it has made, and the count is the identity of the next one.  So every
function that a session holds has an identity below the count: the next identity is new.

* `Store.Numbered`: the functions that a store holds are among those that it has made.
* `Request.numbers_attempt`: what one request leaves behind.
* `Session.Reached.numbered`: **the functions of a session are among those that it has made**.
-/

namespace MiniLisp

open Eval

/-- If a value is a function, the store has made it, and it has the frame that a closure was made in. -/
def Value.Counted (s : Store) (v : Value) : Prop :=
  v.Captures s ∧ ∀ i, v.identity? = some i → i < s.functions

/-- Every function in a value, at any depth, was made by the store. -/
def Value.Numbered (s : Store) (v : Value) : Prop :=
  v.Everywhere (Counted s)

/-- Every function that a store holds was made by it. -/
structure Store.Numbered (s : Store) : Prop where
  root : rootFrame < s.frames.size
  binding : ∀ {i : FrameId} {x : String} {v : Value}, s.binding? i x = some v → v.Numbered s

section

variable {s t : Store} {v : Value}

theorem Value.Counted.extends (h : v.Counted s) (hst : s.Extends t) : v.Counted t := by
  refine ⟨?_, fun i hi => Nat.lt_of_lt_of_le (h.2 i hi) hst.functions⟩
  cases v with
  | closure l i parameters body frame => exact hst.lt_size h.1
  | _ => trivial

theorem Value.Numbered.extends (h : v.Numbered s) (hst : s.Extends t) : v.Numbered t :=
  Everywhere.mono h fun _ hw => hw.extends hst

theorem Value.counted_of_ne_function (h : v.tag ≠ .function) : v.Counted s := by
  cases v with
  | primitive l i code => exact absurd rfl h
  | closure l i parameters body frame => exact absurd rfl h
  | _ => exact ⟨trivial, nofun⟩

theorem Value.Written.numbered (h : v.Written) (s : Store) : v.Numbered s :=
  Everywhere.mono h fun _ hw => counted_of_ne_function hw.1

theorem Value.numbered_nop (s : Store) (l : Location) (message : String) :
    (nop l message).Numbered s :=
  .intro (counted_of_ne_function nofun) (by simp [parts])

namespace Store.Numbered

theorem insert (h : s.Numbered) (hv : v.Numbered s) (frame : FrameId) (x : String) :
    (s.insert frame x v).Numbered := by
  have hst := s.extends_insert frame x v
  refine ⟨hst.lt_size h.root, fun {i y w} hw => ?_⟩
  rcases of_binding?_insert hw with ⟨_, _, rfl⟩ | hw
  · exact hv.extends hst
  · exact (h.binding hw).extends hst

theorem spawn (h : s.Numbered) (parent : FrameId) : (s.spawn parent).2.Numbered := by
  have hst := s.extends_spawn parent
  refine ⟨hst.lt_size h.root, fun {i y w} hw => ?_⟩
  rw [binding?_spawn] at hw
  exact (h.binding hw).extends hst

theorem newFunction (h : s.Numbered) : s.newFunction.2.Numbered :=
  ⟨h.root, fun hw => (h.binding hw).extends s.extends_newFunction⟩

end Store.Numbered

end

/-- A run, in agreement with itself, makes no function twice. -/
def Agreement.numbered : Agreement where
  node := fun s v => v.Counted s
  code s _ v := v.Numbered s
  stores s s' := s' = s ∧ s.Numbered
  node_extends hst h := h.extends hst
  node_moveTo {_ v} l h := by cases v <;> exact h
  node_plain {_ v} h := Value.counted_of_ne_function fun hv => by rw [hv] at h; cases h
  code_extends hst _ h := h.extends hst
  code_holds h := h
  code_part h _ hw := h.part hw
  code_spawn {s frame _} _ h := h.extends (s.extends_spawn frame)
  code_body {s _ _ _ _ captured} h :=
    ⟨h.self.1, Value.Numbered.extends (h.part List.mem_cons_self) (s.extends_spawn captured)⟩
  node_closure {s _ _} _ _ hframe _ := ⟨hframe, fun i hi => by cases hi; exact Nat.lt_succ_self _⟩
  size_eq h := by rw [h.1]
  functions_eq h := by rw [h.1]
  settings_eq frame h := by rw [h.1]
  find?_eq h _ _ := by rw [h.1]
  holds_find? h hfind := by
    obtain ⟨i, hi⟩ := Store.exists_binding?_of_find? hfind
    exact h.2.binding hi
  stores_insert frame x h hv := ⟨by rw [h.1], h.2.insert hv frame x⟩
  stores_spawn {_ _ frame} h _ := ⟨by rw [h.1], h.2.spawn frame⟩
  stores_newFunction h := ⟨by rw [h.1], h.2.newFunction⟩

/-! ### Requests -/

section

variable {s : Store}

/-- An evaluation that makes no function twice. -/
abbrev Eval.Numbers (e : Eval Value) (s : Store) : Prop :=
  e.Yields Store.Numbered (fun _ => True) (fun t v => v.Numbered t) s

theorem numbers_evaluate (depth : Nat) {v : Value} (hs : s.Numbered) (hv : v.Numbered s) :
    (evaluate depth v).Numbers s := by
  intro log
  have hends := Agreement.agrees_eval (A := .numbered) depth Store.rootFrame v s s ⟨rfl, hs⟩ hs.root hv
    log log
  exact ⟨hends.extended.grows, hends.stores.2, hends.value, fun _ => trivial⟩

/-- **What a request leaves behind** are functions that the store has made. -/
theorem Request.numbers_attempt (depth : Nat) (r : Request) (hs : s.Numbered) :
    (r.attempt depth).Numbers s := by
  cases r with
  | run text =>
    refine yields_runData (fun _ => trivial) hs (Value.numbered_nop s _ _) fun v hv t _ ht => ?_
    exact numbers_evaluate depth ht ((written_data text v hv).numbered t)
  | answer line =>
    refine yields_evaluateFirst (fun _ => trivial) hs fun v hread => numbers_evaluate depth hs ?_
    rcases written_readFirst hread with ⟨hv, _⟩ | ⟨⟨l, rfl⟩, _⟩
    · exact hv.numbered s
    · exact Value.numbered_nop s l ""

end

/-! ### Sessions -/

theorem Store.numbered_fresh (settings : Settings) : (Store.fresh settings).Numbered := by
  refine ⟨Nat.zero_lt_one, fun hv => ?_⟩
  obtain ⟨_, j, p, rfl, _, hj⟩ := of_binding?_fresh hv
  refine .intro ⟨trivial, fun i hi => ?_⟩ (by simp [Value.parts])
  cases hi
  exact hj

/-- The sessions that requests lead to, from a fresh one with certain settings. -/
inductive Session.Reached (settings : Settings) : Session → Prop
  | fresh : Reached settings (.fresh settings)
  | request {s : Session} (depth : Nat) (r : Request) : Reached settings s →
      Reached settings (s.perform (r.evaluation depth)).session

/-- **The functions of a session are among those that it has made.** -/
theorem Session.Reached.numbered {settings : Settings} {s : Session} (h : s.Reached settings) :
    s.store.Numbered := by
  induction h with
  | fresh => exact Store.numbered_fresh settings
  | request depth r _ ih =>
    rw [session_perform_evaluation]
    exact (r.numbers_attempt depth ih []).store

end MiniLisp
