import MiniLisp.Proofs.Eval.Yields

/-!
# Evaluation keeps traits

If every value that a store holds has a trait, and so has the code, then evaluation leads to a store of
that kind again and to a value with the trait: all that evaluation makes is made of what was there,
but for values of a plain kind and for closures.

More can be asked of the store along with the trait, as long as each change that evaluation makes to a
store keeps it.

* `Store.Has`: every value that is bound in a store has a trait.
* `Trait.Invariant`: what may be asked of the store along with a trait.
* `eval_maintains`: **evaluation keeps traits and what is asked along with them**.
-/

namespace MiniLisp

open Eval

/-- Every value that a frame binds has a trait. -/
def Store.Has (s : Store) (T : Trait) : Prop :=
  ∀ i x v, s.binding? i x = some v → T.Holds s v

namespace Store.Has

variable {s : Store} {T : Trait}

theorem insert (h : s.Has T) {v : Value} (hv : T.Holds s v) (frame : FrameId) (x : String) :
    (s.insert frame x v).Has T := by
  intro i y w hw
  refine Trait.Holds.grows ?_ (s.grows_insert frame x v)
  rcases of_binding?_insert hw with ⟨_, _, rfl⟩ | hw
  · exact hv
  · exact h i y w hw

theorem spawn (h : s.Has T) (parent : FrameId) : (s.spawn parent).2.Has T := by
  intro i x v hv
  rw [binding?_spawn] at hv
  exact (h i x v hv).grows (s.grows_spawn parent)

theorem newFunction (h : s.Has T) : s.newFunction.2.Has T :=
  fun i x v hv => Trait.Holds.grows (h i x v hv) (Grows.refl s)

theorem get (h : s.Has T) {frame : FrameId} {key v : Value} (hv : s.get frame key = .ok v) :
    T.Holds s v := by
  unfold Store.get at hv
  split at hv
  · cases hv
  · split at hv
    · next hfind =>
      cases hv
      obtain ⟨i, hi⟩ := exists_binding?_of_find? hfind
      exact (h i _ _ hi).moveTo _
    · cases hv

end Store.Has

/-- The faults that evaluation can end with: a nothing is an operand only if a nothing can have the
trait. -/
def Trait.Faults (T : Trait) : Failure → Prop
  | .unreadable _ => False
  | .fault f => f.cause = .nopOperand → ∃ s v, T.node s v ∧ v.isNop = true

theorem Trait.permits_faults (T : Trait) : Permits T.Faults := by
  rintro cause l hcause rfl
  cases hcause

theorem cause_get_ne_nopOperand {s : Store} {frame : FrameId} {key : Value} {f : Fault}
    (h : s.get frame key = .error f) : f.cause ≠ .nopOperand := by
  unfold Store.get at h
  split at h
  · cases h; simp [Store.notASymbol]
  · split at h
    · cases h
    · cases h; simp

/-- An evaluation that keeps a trait. -/
abbrev Eval.Keeps (T : Trait) (e : Eval Value) (s : Store) : Prop :=
  e.Yields (·.Has T) T.Faults T.Holds s

/-- A property of stores that goes with a trait: the bound values have the trait, and binding a value
with it, making a frame inside an existing one or for a call, and making a function keep the property.
Closures over existing frames have the trait. -/
structure Trait.Invariant (T : Trait) (I : Store → Prop) : Prop where
  has : ∀ {s : Store}, I s → s.Has T
  insert : ∀ {s : Store} {v : Value} (frame : FrameId) (x : String), I s → T.Holds s v →
    I (s.insert frame x v)
  spawn : ∀ {s : Store} {frame : FrameId}, I s → frame < s.frames.size → I (s.spawn frame).2
  call : ∀ {s : Store} {l : Location} {i : FunctionId} {p : Parameters} {body : Value}
    {captured : FrameId}, I s → T.node s (.closure l i p body captured) → I (s.spawn captured).2
  newFunction : ∀ {s : Store}, I s → I s.newFunction.2
  closure : ∀ (s : Store) (l : Location) (i : FunctionId) (p : Parameters) (body : Value)
    (frame : FrameId), frame < s.frames.size → T.node s (.closure l i p body frame)

theorem Trait.Invariant.insertAll {T : Trait} {I : Store → Prop} (hI : T.Invariant I)
    {pairs : List (String × Value)} {s : Store} (hs : I s) (hpairs : ∀ q ∈ pairs, T.Holds s q.2)
    (frame : FrameId) : I (s.insertAll frame pairs) := by
  induction pairs generalizing s with
  | nil => exact hs
  | cons q pairs ih =>
    obtain ⟨hq, hpairs⟩ := List.forall_mem_cons.mp hpairs
    refine ih (hI.insert frame q.1 hs hq) fun r hr => ?_
    exact (hpairs r hr).grows (s.grows_insert frame q.1 q.2)

section

variable {T : Trait} {I : Store → Prop} {recur : Evaluator} (hI : T.Invariant I)
  (hrecur : ∀ (frame : FrameId) (v : Value) (s : Store), I s → frame < s.frames.size →
    T.Holds s v → (recur frame v).Yields I T.Faults T.Holds s)
  {s : Store} {l : Location} {vs : List Value}

include hI hrecur

theorem keeps_callClosure {p : Parameters} {body : Value} {captured : FrameId} (hs : I s)
    (hcaptured : I (s.spawn captured).2) (hbody : T.Holds s body) (hvs : ∀ w ∈ vs, T.Holds s w) :
    (callClosure recur l p body captured vs).Yields I T.Faults T.Holds s := by
  have hspawn := s.grows_spawn captured
  refine yields_callClosure T.permits_faults hs hcaptured fun pairs hpairs => ?_
  have hinsert := (s.spawn captured).2.grows_insertAll s.frames.size pairs
  refine hrecur _ _ _ (hI.insertAll hcaptured (fun q hq => ?_) _) ?_ ?_
  · exact (T.of_bind? hvs hpairs q hq).grows hspawn
  · exact hinsert.lt_size (s.lt_size_spawn captured)
  · exact hbody.grows (hspawn.trans hinsert)

theorem keeps_apply {frame : FrameId} {head : Value} (hs : I s) (hframe : frame < s.frames.size)
    (hhead : T.Holds s head) (hvs : ∀ w ∈ vs, T.Holds s w) :
    (apply recur frame head vs).Yields I T.Faults T.Holds s := by
  unfold apply
  split
  · next nothing hnothing =>
    refine yields_fail hs fun _ => ⟨s, nothing, ?_, List.find?_some hnothing⟩
    exact (hvs nothing (List.mem_of_find?_eq_some hnothing)).self
  · cases head with
    | primitive l i code =>
      refine yields_callPrimitive T.permits_faults hs hvs ?_
      -- The body of a closure that is made is one of the operands.
      rintro _ v body rest parameters rfl _
      refine ⟨hI.newFunction hs, .intro (hI.closure _ _ _ _ _ _ hframe) fun w hw => ?_⟩
      rw [List.mem_singleton.mp hw]
      exact (hvs body (by simp)).grows (Store.Grows.refl s)
    | closure l i p body captured =>
      have hbody : T.Holds s body := hhead.part (by simp [Value.parts])
      exact keeps_callClosure hI hrecur hs (hI.call hs hhead.self) hbody hvs
    | _ => exact yields_fault T.permits_faults hs rfl

theorem keeps_evalContents {frame : FrameId} {v : Value} (hs : I s) (hframe : frame < s.frames.size)
    (hv : T.Holds s v) : (evalContents recur frame v).Yields I T.Faults T.Holds s := by
  have hpart : ∀ w ∈ v.parts, ∀ t, s.Grows t → I t →
      (recur frame w).Yields I T.Faults T.Holds t :=
    fun w hw t hst ht => hrecur frame w t ht (hst.lt_size hframe)
      ((hv.part hw).grows hst)
  refine yields_emit_bind ?_
  cases v with
  | symbol l x =>
    refine yields_lookup hs (fun w hw => (hI.has hs).get hw) fun f hf h => ?_
    exact absurd h (cause_get_ne_nopOperand hf)
  | list l vs =>
    exact (yields_evalElements hs hpart).bind fun t ws _ ht hws => yields_pure ht (T.holds_list hws)
  | vector l vs =>
    exact (yields_evalElements hs hpart).bind fun t ws _ ht hws => yields_pure ht (T.holds_vector hws)
  | map l es =>
    refine (yields_evalEntries hs ?_ ?_).bind fun t ws _ ht hws => yields_pure ht (T.holds_map hws)
    · exact fun e he => hv.part (Value.mem_parts_map.mpr ⟨e, he, Or.inl rfl⟩)
    · exact fun e he => hpart e.2 (Value.mem_parts_map.mpr ⟨e, he, Or.inr rfl⟩)
  | _ => exact yields_pure hs hv

theorem keeps_define {frame : FrameId} (hs : I s) (hframe : frame < s.frames.size)
    (hvs : ∀ w ∈ vs, T.Holds s w) :
    (define recur frame l vs).Yields I T.Faults T.Holds s := by
  refine yields_define T.permits_faults hs ?_
  rintro key v x rfl _
  exact ⟨hrecur frame v s hs hframe (hvs v (by simp)), fun t w ht hw => hI.insert frame x ht hw⟩

theorem keeps_bindPairs {frame : FrameId} {es : List (Value × Value)} (hs : I s)
    (hframe : frame < s.frames.size) (hes : ∀ e ∈ es, T.Holds s e.2) :
    (bindPairs recur frame es).Yields I T.Faults (fun _ _ => True) s := by
  induction es generalizing s with
  | nil => exact yields_pure hs trivial
  | cons e es ih =>
    obtain ⟨key, value⟩ := e
    unfold bindPairs
    split
    · exact yields_fault T.permits_faults hs rfl
    · next name _ =>
      refine (hrecur frame value s hs hframe (hes _ List.mem_cons_self)).bind fun t w hst ht hw => ?_
      have hgrows := t.grows_insert frame name w
      refine yields_update_bind hgrows (ih (hI.insert frame name ht hw) ?_ ?_)
      · exact (hst.trans hgrows).lt_size hframe
      · exact fun e he => (hes e (List.mem_cons_of_mem _ he)).grows (hst.trans hgrows)

theorem keeps_bindLocally {frame : FrameId} (hs : I s) (hframe : frame < s.frames.size)
    (hvs : ∀ w ∈ vs, T.Holds s w) :
    (bindLocally recur frame l vs).Yields I T.Faults T.Holds s := by
  unfold bindLocally
  split
  · next bindings body =>
    split
    · exact yields_fault T.permits_faults hs rfl
    · next elements helements =>
      split
      · exact yields_fault T.permits_faults hs rfl
      · next pairs hpairs =>
        have hgrows := s.grows_spawn frame
        have hinner := s.lt_size_spawn frame
        have hall := Value.everywhere_pairs hpairs
          (Value.Everywhere.elements? (hvs bindings (by simp)) helements)
        refine yields_spawn_bind
          ((keeps_bindPairs hI hrecur (hI.spawn hs hframe) hinner ?_).bind ?_)
        · exact fun e he => Trait.Holds.grows (hall e he).2 hgrows
        · intro t _ hst ht _
          refine hrecur _ body t ht (hst.lt_size hinner) ?_
          exact (hvs body (by simp)).grows (hgrows.trans hst)
  · exact yields_fault T.permits_faults hs rfl

theorem keeps_evalForm {frame : FrameId} {form head : Value} (hs : I s)
    (hframe : frame < s.frames.size) (hhead : T.Holds s head) (hvs : ∀ w ∈ vs, T.Holds s w) :
    (evalForm recur frame form head vs).Yields I T.Faults T.Holds s := by
  refine yields_emit_bind ?_
  split
  · refine (keeps_define hI hrecur hs hframe hvs).bind fun t w _ ht hw => ?_
    cases vs with
    | nil => exact yields_stop ht (by simp)
    | cons key vs => exact yields_emit_bind (yields_pure ht hw)
  · split
    · exact keeps_bindLocally hI hrecur hs hframe hvs
    · refine (hrecur frame head s hs hframe hhead).bind fun t function hst ht hfunction => ?_
      have hframe' := hst.lt_size hframe
      split
      · exact yields_fault T.permits_faults ht rfl
      · exact keeps_apply hI hrecur ht hframe' hfunction fun w hw => (hvs w hw).grows hst
      · refine (yields_evalElements (T := T) ht ?_).bind fun u ws htu hu hws => ?_
        · intro v hv u htu hu
          exact hrecur frame v u hu (htu.lt_size hframe')
            ((hvs v hv).grows (hst.trans htu))
        · exact keeps_apply hI hrecur hu (htu.lt_size hframe') (hfunction.grows htu) hws

theorem keeps_evalStep {frame : FrameId} {v : Value} (hs : I s) (hframe : frame < s.frames.size)
    (hv : T.Holds s v) : (evalStep recur frame v).Yields I T.Faults T.Holds s := by
  cases v with
  | list l vs =>
    cases vs with
    | nil => exact yields_pure hs hv
    | cons head vs =>
      refine keeps_evalForm hI hrecur hs hframe (hv.part List.mem_cons_self) ?_
      exact fun w hw => hv.part (List.mem_cons_of_mem _ hw)
  | _ => exact keeps_evalContents hI hrecur hs hframe hv

end

/-- **Evaluation keeps traits and what is asked of the store along with them.** -/
theorem eval_maintains {T : Trait} {I : Store → Prop} (hI : T.Invariant I) :
    ∀ (depth : Nat) (frame : FrameId) (v : Value) (s : Store), I s → frame < s.frames.size →
      T.Holds s v → (eval depth frame v).Yields I T.Faults T.Holds s := by
  intro depth
  induction depth with
  | zero => exact fun _ _ _ hs _ _ => yields_stop hs (by simp)
  | succ depth ih => exact fun _ _ _ hs hframe hv => keeps_evalStep hI ih hs hframe hv

end MiniLisp
