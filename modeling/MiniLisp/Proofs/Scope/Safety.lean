import Mathlib
import MiniLisp.Proofs.Scope.Basic

/-!
# Scoped programs find all their names

In a well-scoped store a value that is scoped in the visible names never looks up a name that is not
bound.  Every rule of evaluation keeps the store well scoped, and its value is sound again, so that the
closures in it can be called wherever they get to.

* `mem_names_ofNames`: a lambda binds the names between its brackets, but for the ampersand.
* `safe_eval`: each evaluation keeps stores well scoped and values sound.
* `eval_scoped`: **a scoped program never meets an undefined symbol**.
-/

namespace MiniLisp

open Eval

/-! ### The names that a lambda binds -/

theorem mem_names_ofNames {names : List String} {p : Parameters} (h : Parameters.ofNames names = .ok p)
    {x : String} : x ∈ p.names ↔ x ∈ names ∧ x ≠ Parameters.ampersand := by
  obtain ⟨rfl, hnot⟩ := Parameters.ofNames_eq_ok_iff.mp h
  have hne : x ∈ p.names → x ≠ Parameters.ampersand := fun hx heq => hnot (heq ▸ hx)
  obtain ⟨positional, rest⟩ := p
  cases rest with
  | none => simpa [Parameters.names, Parameters.written] using hne
  | some rest =>
    simp only [Parameters.names, Parameters.written, Option.toList_some, List.mem_append,
      List.mem_cons, List.not_mem_nil, or_false] at hne ⊢
    tauto

theorem parameterNames_eq {vs : List Value} {names : List String}
    (h : vs.map Value.symbol? = names.map some) : parameterNames vs = .ok names := by
  induction vs generalizing names with
  | nil =>
    cases names with
    | nil => rfl
    | cons name names => cases h
  | cons v vs ih =>
    cases names with
    | nil => cases h
    | cons name names =>
      rw [List.map_cons, List.map_cons, List.cons.injEq] at h
      rw [parameterNames, h.1, ih h.2]
      rfl

/-- The parameters of a lambda are the names between its brackets, but for the ampersand. -/
theorem mem_names_parametersOf {l : Location} {v : Value} {vs : List Value} {names : List String}
    {p : Parameters} (hv : v.elements? = some vs) (hvs : vs.map Value.symbol? = names.map some)
    (h : parametersOf l v = .ok p) {x : String} :
    x ∈ p.names ↔ x ∈ names ∧ x ≠ Parameters.ampersand := by
  rw [parametersOf, hv] at h
  dsimp only at h
  rw [parameterNames_eq hvs] at h
  dsimp only at h
  cases hp : Parameters.ofNames names with
  | error reason => rw [hp] at h; cases h
  | ok q => rw [hp] at h; cases h; exact mem_names_ofNames hp

theorem pairs_flatMap (es : List (Value × Value)) :
    Value.pairs (es.flatMap fun e => [e.1, e.2]) = .ok es := by
  induction es with
  | nil => rfl
  | cons e es ih =>
    show (Value.pairs (es.flatMap fun e => [e.1, e.2])).map _ = _
    rw [ih]
    rfl

/-! ### One rule after the other -/

/-- Every failure but an undefined symbol. -/
def NotUndefined (f : Failure) : Prop :=
  ∀ x l, f ≠ .fault ⟨.undefinedSymbol x, l⟩

theorem permits_notUndefined : Permits NotUndefined := by
  rintro cause l hcause x l' h
  cases h
  cases hcause

theorem notUndefined_nopOperand (l : Location) : NotUndefined (.fault ⟨.nopOperand, l⟩) := by
  intro x l' h
  cases h

/-- An evaluation that keeps a store well scoped, looks up no name that is not bound, and has a sound
value. -/
abbrev Eval.Safe (e : Eval Value) (s : Store) : Prop :=
  e.Yields Store.WellScoped NotUndefined Trait.sound.Holds s

section

variable {recur : Evaluator}
  (hreserved : ∀ (frame : FrameId) (l : Location) (p : Primitive) (s : Store), s.WellScoped →
    frame < s.frames.size → Reserved p.name → (recur frame (.symbol l p.name)).Yields
      Store.WellScoped NotUndefined (fun _ v => ∃ l i, v = .primitive l i p) s)
  {s : Store} {frame : FrameId} {vs : List Value}

include hreserved

/-- A list with a reserved name at its head is a call of the primitive of that name. -/
theorem safe_reservedForm {form head : Value} {p : Primitive} (hs : s.WellScoped)
    (hframe : frame < s.frames.size) (hp : Reserved p.name) (hhead : head.symbol? = some p.name)
    (hcall : ∀ t, s.Grows t → t.WellScoped → ∀ l, (callPrimitive frame l p vs).Safe t) :
    (evalForm recur frame form head vs).Safe s := by
  obtain ⟨l, rfl⟩ : ∃ l, head = .symbol l p.name := by
    cases head with
    | symbol l x => cases hhead; exact ⟨l, rfl⟩
    | _ => cases hhead
  have hpassing : p.passing = .unevaluated := by
    rcases hp with hp | hp
    · rw [Primitive.name_injective hp]; rfl
    · rw [Primitive.name_injective hp]; rfl
  have hdefine : p.name ≠ defineName := by
    rcases hp with hp | hp <;> rw [hp] <;> decide
  have hlet : p.name ≠ letName := by
    rcases hp with hp | hp <;> rw [hp] <;> decide
  refine yields_emit_bind ?_
  rw [if_neg (by simpa [Value.symbol?] using hdefine), if_neg (by simpa [Value.symbol?] using hlet)]
  refine (hreserved frame l p s hs hframe hp).bind fun t function hst ht hfunction => ?_
  obtain ⟨l', i, rfl⟩ := hfunction
  simp only [Value.passing?, hpassing]
  unfold apply
  split
  · exact yields_fail ht (notUndefined_nopOperand _)
  · exact hcall t hst ht l'

/-- The value of a lambda is a sound closure. -/
theorem safe_lambdaForm {form head v body : Value} {ps rest : List Value} {names : List String}
    (hs : s.WellScoped) (hframe : frame < s.frames.size)
    (hhead : head.symbol? = some Primitive.lambda.name) (hv : v.elements? = some ps)
    (hps : ps.map Value.symbol? = names.map some) (hnames : ∀ x ∈ names, ¬ Reserved x)
    (hbody : body.Scoped (s.visible frame ∪ {x | x ∈ names ∧ x ≠ Parameters.ampersand}))
    (hsound : ∀ w ∈ v :: body :: rest, w.Sound s) :
    (evalForm recur frame form head (v :: body :: rest)).Safe s := by
  refine safe_reservedForm hreserved hs hframe (Or.inl rfl) hhead fun t hst ht l => ?_
  refine yields_callPrimitive permits_notUndefined ht ?_ ?_
  · exact fun w hw => (hsound w hw).grows hst
  · rintro _ v body rest p hoperands hp
    cases hoperands
    have hmem := fun x => mem_names_parametersOf hv hps hp (x := x)
    refine ⟨ht.newFunction, .intro ⟨?_, fun x hx => ?_, hbody.mono ?_⟩ fun w hw => ?_⟩
    · exact hst.lt_size hframe
    · exact hnames x ((hmem x).mp hx).1
    · refine Set.union_subset_union ?_ fun x hx => (hmem x).mpr hx
      exact Store.Grows.visible_subset (t := t.newFunction.2) hst frame
    · rw [List.mem_singleton.mp hw]
      exact (hsound _ (by simp)).grows hst

end

section

variable {recur : Evaluator}
  (hrecur : ∀ (frame : FrameId) (v : Value) (s : Store), s.WellScoped → frame < s.frames.size →
    v.Scoped (s.visible frame) → v.Sound s → (recur frame v).Safe s)
  (hreserved : ∀ (frame : FrameId) (l : Location) (p : Primitive) (s : Store), s.WellScoped →
    frame < s.frames.size → Reserved p.name → (recur frame (.symbol l p.name)).Yields
      Store.WellScoped NotUndefined (fun _ v => ∃ l i, v = .primitive l i p) s)
  {s : Store} {frame : FrameId} {l : Location} {vs : List Value}

include hrecur

theorem safe_callClosure {p : Parameters} {body : Value} {captured : FrameId} (hs : s.WellScoped)
    (hcaptured : captured < s.frames.size) (hnames : ∀ x ∈ p.names, ¬ Reserved x)
    (hbody : body.Scoped (s.visible captured ∪ {x | x ∈ p.names})) (hsound : body.Sound s)
    (hvs : ∀ w ∈ vs, w.Sound s) : (callClosure recur l p body captured vs).Safe s := by
  have hspawn := s.grows_spawn captured
  have hinner := s.lt_size_spawn captured
  refine yields_callClosure permits_notUndefined hs (hs.spawn hcaptured) fun pairs hpairs => ?_
  have hinsert := (s.spawn captured).2.grows_insertAll s.frames.size pairs
  have hfst := Parameters.map_fst_bind? hpairs
  refine hrecur _ _ _ ((hs.spawn hcaptured).insertAll (fun q hq => ⟨hnames q.1 ?_, ?_⟩) _) ?_ ?_ ?_
  · rw [← hfst]
    exact List.mem_map_of_mem hq
  · exact (Trait.sound.of_bind? hvs hpairs q hq).grows hspawn
  · exact hinsert.lt_size hinner
  · refine hbody.mono (Set.union_subset ?_ fun x hx => ?_)
    · exact (Store.visible_subset_spawn hcaptured).trans (hinsert.visible_subset _)
    · exact Store.mem_visible_insertAll (hfst ▸ hx) hinner
  · exact hsound.grows (hspawn.trans hinsert)

/-- Applying a sound function to sound operands. -/
theorem safe_apply {head : Value} (hs : s.WellScoped) (hhead : head.Sound s)
    (hvs : ∀ w ∈ vs, w.Sound s) : (apply recur frame head vs).Safe s := by
  unfold apply
  split
  · exact yields_fail hs (notUndefined_nopOperand _)
  · cases head with
    | primitive l i code =>
      -- The primitive that makes closures is not sound, so it is not the one that is called.
      exact yields_callPrimitive permits_notUndefined hs hvs fun hcode => absurd hcode hhead.self
    | closure l i p body captured =>
      obtain ⟨hcaptured, hnames, hbody⟩ := hhead.self
      exact safe_callClosure hrecur hs hcaptured hnames hbody (hhead.part (by simp [Value.parts])) hvs
    | _ => exact yields_fault permits_notUndefined hs rfl

theorem safe_evalElements (hs : s.WellScoped) (hframe : frame < s.frames.size)
    (hscoped : ∀ v ∈ vs, v.Scoped (s.visible frame)) (hsound : ∀ v ∈ vs, v.Sound s) :
    (evalElements recur frame vs).Yields Store.WellScoped NotUndefined
      (fun t ws => ∀ w ∈ ws, w.Sound t) s := by
  refine yields_evalElements hs fun v hv t hst ht => ?_
  refine hrecur frame v t ht (hst.lt_size hframe) ?_ ?_
  · exact (hscoped v hv).mono (hst.visible_subset frame)
  · exact (hsound v hv).grows hst

theorem safe_evalEntries {es : List (Value × Value)} (hs : s.WellScoped)
    (hframe : frame < s.frames.size) (hscoped : ∀ e ∈ es, e.2.Scoped (s.visible frame))
    (hsound : ∀ e ∈ es, e.1.Sound s ∧ e.2.Sound s) :
    (evalEntries recur frame es).Yields Store.WellScoped NotUndefined
      (fun t es => ∀ e ∈ es, e.1.Sound t ∧ e.2.Sound t) s := by
  refine yields_evalEntries hs (fun e he => (hsound e he).1) fun e he t hst ht => ?_
  refine hrecur frame e.2 t ht (hst.lt_size hframe) ?_ ?_
  · exact (hscoped e he).mono (hst.visible_subset frame)
  · exact (hsound e he).2.grows hst

omit hrecur in
theorem union_cons (G : Set String) (name : String) (names : List String) :
    G ∪ {x | x ∈ name :: names} = G ∪ {name} ∪ {x | x ∈ names} := by
  ext x
  simp only [Set.mem_union, Set.mem_ofPred_eq, List.mem_cons, Set.mem_singleton_iff, or_assoc]

/-- Local bindings: each value sees the names before, and in the end all names are visible. -/
theorem safe_bindPairs {G : Set String} {es : List (Value × Value)} {names : List String}
    (hs : s.WellScoped) (hframe : frame < s.frames.size) (hG : G ⊆ s.visible frame)
    (hes : es.map (fun e => e.1.symbol?) = names.map some) (hnames : ∀ x ∈ names, ¬ Reserved x)
    (hscoped : ∀ (i : Nat) (e : Value × Value), es[i]? = some e →
      e.2.Scoped (G ∪ {x | x ∈ names.take i})) (hsound : ∀ e ∈ es, e.2.Sound s) :
    (bindPairs recur frame es).Yields Store.WellScoped NotUndefined
      (fun t _ => G ∪ {x | x ∈ names} ⊆ t.visible frame) s := by
  induction es generalizing s G names with
  | nil =>
    cases names with
    | nil => exact yields_pure hs (by simpa using hG)
    | cons name names => cases hes
  | cons e es ih =>
    obtain ⟨key, value⟩ := e
    cases names with
    | nil => cases hes
    | cons name names =>
      rw [List.map_cons, List.map_cons, List.cons.injEq] at hes
      obtain ⟨hkey, hes⟩ := hes
      obtain ⟨hname, hnames⟩ := List.forall_mem_cons.mp hnames
      obtain ⟨hvalue, hsound⟩ := List.forall_mem_cons.mp hsound
      have hfirst : value.Scoped (s.visible frame) := by
        refine (hscoped 0 _ rfl).mono ?_
        simpa using hG
      rw [bindPairs, hkey]
      refine (hrecur frame value s hs hframe hfirst hvalue).bind fun t w hst ht hw => ?_
      have hgrows := t.grows_insert frame name w
      have hframe' := hst.lt_size hframe
      -- From here on the new name is one of those in scope.
      have hG' : G ∪ {name} ⊆ (t.insert frame name w).visible frame := by
        refine Set.union_subset ?_ ?_
        · exact hG.trans ((hst.trans hgrows).visible_subset frame)
        · exact Set.singleton_subset_iff.mpr (Store.mem_visible_insert hframe' name w)
      refine yields_update_bind hgrows ?_
      rw [union_cons]
      refine ih (ht.insert hname hw frame) ?_ hG' hes hnames (fun i e he => ?_) ?_
      · rw [Store.size_insert]
        exact hframe'
      · have h := hscoped (i + 1) e he
        rw [List.take_succ_cons, union_cons] at h
        exact h
      · exact fun e he => (hsound e he).grows (hst.trans hgrows)

theorem safe_evalContents {v : Value} (hs : s.WellScoped) (hframe : frame < s.frames.size)
    (hv : v.Scoped (s.visible frame)) (hsound : v.Sound s) (hlist : ∀ l vs, v ≠ .list l vs) :
    (evalContents recur frame v).Safe s := by
  refine yields_emit_bind ?_
  cases hv with
  | @symbol _ l x hx hreserved =>
    obtain ⟨w, hw⟩ := Option.isSome_iff_exists.mp hx
    have hget : s.get frame (.symbol l x) = .ok (w.moveTo l) := by
      simp only [Store.get, Value.symbol?, hw]
      rfl
    refine yields_lookup hs (fun u hu => ?_) fun f hf => ?_
    · rw [hget] at hu
      cases hu
      obtain ⟨i, hi⟩ := Store.exists_binding?_of_find? hw
      exact (hs.sound i x w hreserved hi).moveTo l
    · rw [hget] at hf
      cases hf
  | atom hatom =>
    cases v with
    | symbol l x => cases hatom
    | list l vs => cases hatom
    | vector l vs => cases hatom
    | map l es => cases hatom
    | _ => exact yields_pure hs hsound
  | vector l hvs =>
    refine (safe_evalElements hrecur hs hframe hvs fun v hv => hsound.part hv).bind ?_
    exact fun t ws _ ht hws => yields_pure ht (Trait.holds_vector hws)
  | @map _ l es hes =>
    refine (safe_evalEntries hrecur hs hframe hes fun e he => ⟨?_, ?_⟩).bind ?_
    · exact hsound.part (Value.mem_parts_map.mpr ⟨e, he, Or.inl rfl⟩)
    · exact hsound.part (Value.mem_parts_map.mpr ⟨e, he, Or.inr rfl⟩)
    · exact fun t ws _ ht hws => yields_pure ht (Trait.holds_map hws)
  | empty l => exact absurd rfl (hlist _ _)
  | quote l vs _ => exact absurd rfl (hlist _ _)
  | lambda l _ _ _ _ _ => exact absurd rfl (hlist _ _)
  | define l _ _ _ _ => exact absurd rfl (hlist _ _)
  | locals l _ _ _ _ _ _ => exact absurd rfl (hlist _ _)
  | call l _ _ _ => exact absurd rfl (hlist _ _)

theorem safe_defineForm {form head key v : Value} {x : String} (hs : s.WellScoped)
    (hframe : frame < s.frames.size) (hhead : head.symbol? = some defineName)
    (hkey : key.symbol? = some x) (hx : ¬ Reserved x) (hv : v.Scoped (s.visible frame))
    (hsound : v.Sound s) : (evalForm recur frame form head [key, v]).Safe s := by
  refine yields_emit_bind ?_
  rw [if_pos hhead]
  have hdefine : (define recur frame head.location [key, v]).Safe s := by
    refine yields_define permits_notUndefined hs fun key' v' y hoperands hy => ?_
    cases hoperands
    rw [hkey] at hy
    cases hy
    exact ⟨hrecur frame v s hs hframe hv hsound, fun t w ht hw => ht.insert hx hw frame⟩
  exact hdefine.bind fun t w _ ht hw => yields_emit_bind (yields_pure ht hw)

theorem safe_localForm {form head bindings body : Value} {es : List (Value × Value)}
    {names : List String} (hs : s.WellScoped) (hframe : frame < s.frames.size)
    (hhead : head.symbol? = some letName)
    (hbindings : bindings.elements? = some (es.flatMap fun e => [e.1, e.2]))
    (hes : es.map (fun e => e.1.symbol?) = names.map some) (hnames : ∀ x ∈ names, ¬ Reserved x)
    (hscoped : ∀ (i : Nat) (e : Value × Value), es[i]? = some e →
      e.2.Scoped (s.visible frame ∪ {x | x ∈ names.take i}))
    (hbody : body.Scoped (s.visible frame ∪ {x | x ∈ names}))
    (hsound : ∀ w ∈ [bindings, body], w.Sound s) :
    (evalForm recur frame form head [bindings, body]).Safe s := by
  have hspawn := s.grows_spawn frame
  have hinner := s.lt_size_spawn frame
  have hvalues : ∀ e ∈ es, e.2.Sound s := fun e he =>
    (Value.everywhere_pairs (pairs_flatMap es)
      (Value.Everywhere.elements? (hsound bindings (by simp)) hbindings) e he).2
  refine yields_emit_bind ?_
  rw [if_neg (by rw [hhead]; decide), if_pos hhead, bindLocally, hbindings]
  dsimp only
  rw [pairs_flatMap]
  refine yields_spawn_bind ((safe_bindPairs hrecur (hs.spawn hframe) hinner
    (Store.visible_subset_spawn hframe) hes hnames hscoped ?_).bind ?_)
  · exact fun e he => (hvalues e he).grows hspawn
  · intro t _ hst ht hvisible
    refine hrecur _ body t ht (hst.lt_size hinner) (hbody.mono hvisible) ?_
    exact (hsound body (by simp)).grows (hspawn.trans hst)

theorem safe_callForm {form head : Value} (hs : s.WellScoped) (hframe : frame < s.frames.size)
    (hform : ∀ x ∈ formNames, head.symbol? ≠ some x) (hhead : head.Scoped (s.visible frame))
    (hvs : ∀ v ∈ vs, v.Scoped (s.visible frame)) (hsound : head.Sound s)
    (hsounds : ∀ v ∈ vs, v.Sound s) : (evalForm recur frame form head vs).Safe s := by
  refine yields_emit_bind ?_
  rw [if_neg (hform defineName (by decide)), if_neg (hform letName (by decide))]
  refine (hrecur frame head s hs hframe hhead hsound).bind fun t function hst ht hfunction => ?_
  have hsounds := fun v hv => (hsounds v hv).grows hst
  split
  · exact yields_fault permits_notUndefined ht rfl
  · exact safe_apply hrecur ht hfunction hsounds
  · have hvs := fun v hv => (hvs v hv).mono (hst.visible_subset frame)
    refine (safe_evalElements hrecur ht (hst.lt_size hframe) hvs hsounds).bind ?_
    exact fun u ws htu hu hws => safe_apply hrecur hu (hfunction.grows htu) hws

include hreserved

/-- One level of evaluation, form by form. -/
theorem safe_evalStep {v : Value} (hs : s.WellScoped) (hframe : frame < s.frames.size)
    (hv : v.Scoped (s.visible frame)) (hsound : v.Sound s) : (evalStep recur frame v).Safe s := by
  cases v with
  | list l vs =>
    cases hv with
    | atom h => cases h
    | empty l => exact yields_pure hs hsound
    | quote l vs hhead =>
      refine safe_reservedForm hreserved hs hframe (Or.inr rfl) hhead fun t hst ht l => ?_
      refine yields_callPrimitive permits_notUndefined ht (fun w hw => ?_) nofun
      exact (hsound.part (List.mem_cons_of_mem _ hw)).grows hst
    | lambda l hhead hv hps hnames hbody =>
      refine safe_lambdaForm hreserved hs hframe hhead hv hps hnames hbody fun w hw => ?_
      exact hsound.part (List.mem_cons_of_mem _ hw)
    | define l hhead hkey hx hv =>
      exact safe_defineForm hrecur hs hframe hhead hkey hx hv (hsound.part (by simp [Value.parts]))
    | locals l hhead hbindings hes hnames hscoped hbody =>
      refine safe_localForm hrecur hs hframe hhead hbindings hes hnames hscoped hbody fun w hw => ?_
      exact hsound.part (List.mem_cons_of_mem _ hw)
    | call l hform hhead hvs =>
      refine safe_callForm hrecur hs hframe hform hhead hvs (hsound.part List.mem_cons_self) ?_
      exact fun w hw => hsound.part (List.mem_cons_of_mem _ hw)
  | _ => exact safe_evalContents hrecur hs hframe hv hsound (by simp)

end

/-! ### Evaluation as a whole -/

/-- The reserved names have their primitives as values, wherever they are evaluated. -/
theorem yields_reserved (depth : Nat) (frame : FrameId) (l : Location) (p : Primitive) (s : Store)
    (hs : s.WellScoped) (hframe : frame < s.frames.size) (hp : Reserved p.name) :
    (eval depth frame (.symbol l p.name)).Yields Store.WellScoped NotUndefined
      (fun _ v => ∃ l i, v = .primitive l i p) s := by
  cases depth with
  | zero => exact yields_stop hs (by simp)
  | succ depth =>
    obtain ⟨l', i, hfind⟩ := hs.find?_reserved hp hframe
    have hget : s.get frame (.symbol l p.name) = .ok (.primitive l i p) := by
      simp only [Store.get, Value.symbol?, hfind]
      rfl
    refine yields_emit_bind (yields_lookup hs (fun v hv => ?_) fun f hf => ?_)
    · rw [hget] at hv
      cases hv
      exact ⟨l, i, rfl⟩
    · rw [hget] at hf
      cases hf

/-- **Evaluation keeps stores well scoped and values sound.** -/
theorem safe_eval : ∀ (depth : Nat) (frame : FrameId) (v : Value) (s : Store), s.WellScoped →
    frame < s.frames.size → v.Scoped (s.visible frame) → v.Sound s → (eval depth frame v).Safe s := by
  intro depth
  induction depth with
  | zero => exact fun _ _ _ hs _ _ _ => yields_stop hs (by simp)
  | succ depth ih =>
    exact fun _ _ _ hs hframe hv hsound =>
      safe_evalStep ih (yields_reserved depth) hs hframe hv hsound

/-- **A scoped program never meets an undefined symbol.**  Evaluating a value whose names are visible
from a frame of a well-scoped store, at any depth, does not end with an undefined symbol.  The store is
well scoped again, whatever was visible still is, and the value is sound, so that evaluation can go on
with it. -/
theorem eval_scoped (depth : Nat) (frame : FrameId) {G : Set String} {v : Value} {s : Store}
    (hs : s.WellScoped) (hframe : frame < s.frames.size) (hG : G ⊆ s.visible frame)
    (hv : v.Scoped G) (hsound : v.Sound s) (log : List Event) :
    (∀ x l, ((eval depth frame v).run ⟨s, log⟩).1 ≠
      .error (.failed (.fault ⟨.undefinedSymbol x, l⟩))) ∧
    ((eval depth frame v).run ⟨s, log⟩).2.store.WellScoped ∧
    G ⊆ ((eval depth frame v).run ⟨s, log⟩).2.store.visible frame ∧
    ∀ w, ((eval depth frame v).run ⟨s, log⟩).1 = .ok w →
      w.Sound ((eval depth frame v).run ⟨s, log⟩).2.store := by
  have hends := safe_eval depth frame v s hs hframe (hv.mono hG) hsound log
  refine ⟨fun x l h => hends.failure h x l rfl, hends.store, ?_, fun w hw => hends.value hw⟩
  exact hG.trans (hends.grows.visible_subset frame)

/-- A closure that leaves the local bindings it was made in, and is called outside.  It finds the name
bound there, and it may return a symbol that is bound nowhere. -/
theorem eval_scoped_escaping :
    ∃ v, readFirst "((let* (y :a) (fn* (x) (list x y 'z))) :b)" = .ok v ∧ v.Scoped {"list"} ∧
      ((eval 5 0 v).run ⟨.fresh .default, []⟩).2.store.WellScoped ∧
      (Value.list ⟨1, 25⟩ [.keyword ⟨1, 30⟩ "b", .keyword ⟨1, 32⟩ "a", .symbol ⟨1, 35⟩ "z"]).Sound
        ((eval 5 0 v).run ⟨.fresh .default, []⟩).2.store := by
  obtain ⟨v, hv, hread, hscoped⟩ : ∃ v, v = Value.list ⟨1, 1⟩ [.list ⟨1, 2⟩ [.symbol ⟨1, 3⟩ "let*",
      .list ⟨1, 8⟩ [.symbol ⟨1, 9⟩ "y", .keyword ⟨1, 11⟩ "a"], .list ⟨1, 15⟩ [.symbol ⟨1, 16⟩ "fn*",
      .list ⟨1, 20⟩ [.symbol ⟨1, 21⟩ "x"], .list ⟨1, 24⟩ [.symbol ⟨1, 25⟩ "list", .symbol ⟨1, 30⟩ "x",
      .symbol ⟨1, 32⟩ "y", .list ⟨1, 34⟩ [.symbol ⟨1, 34⟩ "quote", .symbol ⟨1, 35⟩ "z"]]]],
      .keyword ⟨1, 40⟩ "b"] ∧
      readFirst "((let* (y :a) (fn* (x) (list x y 'z))) :b)" = .ok v ∧ v.Scoped {"list"} := by
    refine ⟨_, rfl, rfl, .call _ (by decide) ?_ (by simpa using .atom rfl)⟩
    refine @Value.Scoped.locals _ _ _ _ _ [(.symbol ⟨1, 9⟩ "y", .keyword ⟨1, 11⟩ "a")] ["y"] rfl rfl rfl
      (by decide) (fun i e he => ?_) ?_
    · rw [List.mem_singleton.mp (List.mem_of_getElem? he)]
      exact .atom rfl
    · refine @Value.Scoped.lambda _ _ _ _ _ _ _ ["x"] rfl rfl rfl (by decide) ?_
      refine .call _ (by decide) (.symbol _ (by simp) (by decide)) ?_
      simp only [List.forall_mem_cons]
      refine ⟨.symbol _ (Or.inr ?_) (by decide), .symbol _ (by simp) (by decide), .quote _ _ rfl, ?_⟩
      · decide
      · simp
  have heval : ((eval 5 0 v).run ⟨.fresh .default, []⟩).1 = .ok (.list ⟨1, 25⟩
      [.keyword ⟨1, 30⟩ "b", .keyword ⟨1, 32⟩ "a", .symbol ⟨1, 35⟩ "z"]) := by
    rw [hv]
    cbv
  have hvisible : {"list"} ⊆ (Store.fresh .default).visible 0 :=
    Set.singleton_subset_iff.mpr (Store.mem_visible_of_binding? rfl)
  obtain ⟨_, hstore, _, hvalue⟩ := eval_scoped 5 0 (Store.wellScoped_fresh .default)
    Nat.zero_lt_one hvisible hscoped (sound_readFirst hread _) []
  exact ⟨v, hread, hscoped, hstore, hvalue _ heval⟩

end MiniLisp
