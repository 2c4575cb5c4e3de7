import Mathlib
import MiniLisp.Proofs.Eval.Changes
import MiniLisp.Proofs.Reader.Written
import MiniLisp.Proofs.Session.Requests
import MiniLisp.Proofs.Store.Rooted

/-!
# Sessions stay in order

A session can be asked for the value of a text, but its frames can also be worked with one by one:
values are evaluated in them, names are bound in them, and frames are made inside them.  As long as what
is handed in belongs to the session, the frames stay a tree under the root, and every closure refers to
one of them, whether the operations succeed or fail.

* `Operation`: what can be done with a session and its frames.
* `Operation.yields_evaluation`: what one operation leaves behind.
* `Session.Leads`: the sessions that operations lead to.
* `session_orderly`: **sessions stay in order**, and a name once found is found ever after.
-/

namespace MiniLisp

open Eval

/-! ### Operations -/

/-- What can be done with a session and its frames. -/
inductive Operation where
  /-- A line is answered or a text is run. -/
  | request (request : Request)
  /-- A value is evaluated in the root frame. -/
  | evaluate (v : Value)
  /-- A value is evaluated in any frame. -/
  | eval (frame : FrameId) (v : Value)
  /-- A frame is made inside another one. -/
  | spawn (parent : FrameId)
  /-- A name is bound in a frame. -/
  | insert (frame : FrameId) (name : String) (v : Value)
  /-- A symbol is bound in a frame. -/
  | set (frame : FrameId) (key v : Value)

namespace Operation

/-- Carries an operation out.  The result are the values that come back: that of an evaluation, or the
one that a name was bound to before. -/
def evaluation (depth : Nat) : Operation → Eval (List Value)
  | .request r => do return [← r.evaluation depth]
  | .evaluate v => do return [← MiniLisp.evaluate depth v]
  | .eval frame v => do return [← MiniLisp.eval depth frame v]
  | .spawn parent => do
    let _ ← Eval.spawn parent
    return []
  | .insert frame name v => do
    let before ← getStore
    update fun s => s.insert frame name v
    return (before.binding? frame name).toList
  | .set frame key v => do
    let after ← lift ((← getStore).set frame key v)
    update fun _ => after
    return []

/-- What is handed in belongs to the store: the store has the frame, and the closures in the values were
made in frames of the store. -/
def Fits (s : Store) : Operation → Prop
  | .request _ => True
  | .evaluate v => v.Grounded s
  | .eval frame v => frame < s.frames.size ∧ v.Grounded s
  | .spawn parent => parent < s.frames.size
  | .insert frame _ v => frame < s.frames.size ∧ v.Grounded s
  | .set frame key v => frame < s.frames.size ∧ key.Grounded s ∧ v.Grounded s

end Operation

/-! ### What operations leave behind -/

/-- What a text denotes holds no closure. -/
theorem Value.Written.grounded {v : Value} (h : v.Written) (s : Store) : v.Grounded s := by
  refine Everywhere.mono h fun w hw => ?_
  cases w with
  | closure l i p body frame => exact absurd rfl hw.1
  | _ => trivial

theorem Value.grounded_nop (s : Store) (l : Location) (message : String) :
    (nop l message).Grounded s :=
  .intro trivial (by simp [parts])

section

variable {settings : Settings} {s : Store}

/-- An evaluation that keeps a store in order and has a value whose closures belong to it. -/
abbrev Eval.Orderly (settings : Settings) (e : Eval Value) (s : Store) : Prop :=
  e.Yields (Store.Orderly settings) (fun _ => True) Value.Grounded s

theorem orderly_eval (depth : Nat) {frame : FrameId} {v : Value} (hs : s.Orderly settings)
    (hframe : frame < s.frames.size) (hv : v.Grounded s) :
    (eval depth frame v).Orderly settings s :=
  (eval_maintains (Trait.invariant_orderly settings) depth frame v s hs hframe hv).mono
    (fun _ _ => trivial) fun _ _ h => h

theorem orderly_evaluate (depth : Nat) {v : Value} (hs : s.Orderly settings) (hv : v.Grounded s) :
    (evaluate depth v).Orderly settings s :=
  orderly_eval depth hs hs.root_lt hv

theorem Request.orderly_evaluation (depth : Nat) (r : Request) (hs : s.Orderly settings) :
    (r.evaluation depth).Orderly settings s := by
  cases r with
  | run text =>
    refine yields_runData (fun _ => trivial) hs (Value.grounded_nop s _ _) fun v hv t _ ht => ?_
    exact orderly_evaluate depth ht ((written_data text v hv).grounded t)
  | answer line =>
    have hfirst : (evaluateFirst depth line).Orderly settings s := by
      refine yields_evaluateFirst (fun _ => trivial) hs fun v hread => orderly_evaluate depth hs ?_
      rcases written_readFirst hread with ⟨hv, _⟩ | ⟨⟨l, rfl⟩, _⟩
      · exact hv.grounded s
      · exact Value.grounded_nop s l ""
    refine (yields_recover hfirst fun t f _ => ?_).mono (fun _ _ => trivial) fun _ _ h => h
    exact Value.grounded_nop t f.location f.message

/-- **What one operation leaves behind** is a store in order, and the closures in the values that come
back belong to it. -/
theorem Operation.yields_evaluation (depth : Nat) {op : Operation} (hs : s.Orderly settings)
    (hop : op.Fits s) : (op.evaluation depth).Yields (Store.Orderly settings) (fun _ => True)
      (fun t vs => ∀ v ∈ vs, v.Grounded t) s := by
  have hI := Trait.invariant_orderly settings
  cases op with
  | request r =>
    refine (r.orderly_evaluation depth hs).bind fun t v _ ht hv => yields_pure ht ?_
    simpa using hv
  | evaluate v =>
    refine (orderly_evaluate depth hs hop).bind fun t w _ ht hw => yields_pure ht ?_
    simpa using hw
  | eval frame v =>
    refine (orderly_eval depth hs hop.1 hop.2).bind fun t w _ ht hw => yields_pure ht ?_
    simpa using hw
  | spawn parent => exact yields_spawn_bind (yields_pure (hI.spawn hs hop) (by simp))
  | insert frame name v =>
    have hgrows := s.grows_insert frame name v
    refine yields_getStore_bind (yields_update_bind hgrows ?_)
    refine yields_pure (hI.insert frame name hs hop.2) fun w hw => ?_
    exact (hs.2 frame name w (Option.mem_toList.mp hw)).grows hgrows
  | set frame key v =>
    refine yields_getStore_bind (yields_lift_bind hs (fun _ _ => trivial) fun after hafter => ?_)
    unfold Store.set at hafter
    split at hafter
    · cases hafter
    · next name _ =>
      cases hafter
      exact yields_update_bind (s.grows_insert frame name v)
        (yields_pure (hI.insert frame name hs hop.2.2) (by simp))

end

/-! ### Sessions -/

namespace Session

/-- One operation, with values and frames that belong to the session, leads from one session to
another. -/
def Step (s t : Session) : Prop :=
  ∃ (depth : Nat) (op : Operation), op.Fits s.store ∧
    t = (s.perform (op.evaluation depth)).session

/-- Operations, one after the other, lead from one session to another. -/
def Leads : Session → Session → Prop :=
  Relation.ReflTransGen Step

variable {settings : Settings} {s t : Session}

theorem Step.orderly (h : s.Step t) (hs : s.store.Orderly settings) :
    t.store.Orderly settings ∧ s.store.Grows t.store := by
  obtain ⟨depth, op, hop, rfl⟩ := h
  have hends := op.yields_evaluation depth hs hop []
  exact ⟨hends.store, hends.grows⟩

theorem Leads.orderly (h : s.Leads t) (hs : s.store.Orderly settings) :
    t.store.Orderly settings ∧ s.store.Grows t.store := by
  induction h with
  | refl => exact ⟨hs, .refl _⟩
  | tail _ hstep ih =>
    obtain ⟨ht, hgrows⟩ := ih
    obtain ⟨hu, hgrows'⟩ := hstep.orderly ht
    exact ⟨hu, hgrows.trans hgrows'⟩

end Session

/-- **Sessions stay in order.**  Take any session that operations lead to from a fresh one.  The parents
of each frame, as they are recorded, are the frames that lookups go through; they come to an end, repeat
no frame and end in the root.  All frames carry the settings of the session.  Every closure in what the
frames bind, at any depth, was made in one of the frames; so was every closure in the values that come
back from any further operation.  No operation removes a frame, changes its parent or its settings, or
removes a name from it; so a name that is found from a frame is found from it ever after. -/
theorem session_orderly {settings : Settings} {s : Session} (hs : (Session.fresh settings).Leads s) :
    (∀ frame, frame < s.store.frames.size → s.store.Ascends frame (s.store.chain frame) ∧
      (s.store.chain frame).Nodup ∧ (s.store.chain frame).getLast? = some Store.rootFrame ∧
      s.store.settings frame = settings) ∧
    (∀ frame x v, s.store.binding? frame x = some v → v.Grounded s.store) ∧
    (∀ (depth : Nat) (op : Operation), op.Fits s.store →
      (∀ vs, (s.perform (op.evaluation depth)).result = .ok vs →
        ∀ v ∈ vs, v.Grounded (s.perform (op.evaluation depth)).session.store) ∧
      s.store.Grows (s.perform (op.evaluation depth)).session.store) ∧
    ∀ t : Session, s.Leads t → ∀ frame x, (s.store.find? frame x).isSome = true →
      (t.store.find? frame x).isSome = true := by
  have horderly := (hs.orderly (Store.orderly_fresh settings)).1
  refine ⟨fun frame hframe => ?_, horderly.2, fun depth op hop => ?_, fun t ht frame x hx => ?_⟩
  · exact ⟨horderly.1.ascends_chain hframe, s.store.nodup_chain frame,
      horderly.1.getLast?_chain hframe, horderly.1.settings_eq hframe⟩
  · have hends := op.yields_evaluation depth horderly hop []
    exact ⟨fun vs hvs => hends.value hvs, hends.grows⟩
  · exact (ht.orderly horderly).2.isSome_find? hx

/-- A closure leaves the local bindings that it was made in; a frame is made inside theirs, and then an
operation fails.  The parents of the new frame lead to the root, and the closure is grounded. -/
theorem session_orderly_escaping :
    ∃ s : Session, (Session.fresh .default).Leads s ∧ s.store.Ascends 2 [2, 1, 0] ∧
      s.store.binding? 0 "f" =
        some (.closure ⟨1, 23⟩ 27 ⟨["y"], none⟩ (.symbol ⟨1, 31⟩ "x") 1) ∧
      (Value.closure ⟨1, 23⟩ 27 ⟨["y"], none⟩ (.symbol ⟨1, 31⟩ "x") 1).Grounded s.store := by
  obtain ⟨s₁, hs₁⟩ : ∃ s, s = ((Session.fresh .default).perform ((Operation.request (.run
      "(def! f (let* (x :a) (fn* (y) x)))")).evaluation 4)).session := ⟨_, rfl⟩
  obtain ⟨s₂, hs₂⟩ : ∃ s, s = (s₁.perform ((Operation.spawn 1).evaluation 4)).session := ⟨_, rfl⟩
  obtain ⟨s₃, hs₃⟩ : ∃ s, s = (s₂.perform ((Operation.set 2 (.keyword ⟨1, 1⟩ "k")
      (.nil ⟨1, 1⟩)).evaluation 4)).session := ⟨_, rfl⟩
  have hsize₁ : s₁.store.frames.size = 2 := by rw [hs₁]; cbv
  have hsize₂ : s₂.store.frames.size = 3 := by rw [hs₂, hs₁]; cbv
  have hstep₁ : (Session.fresh .default).Step s₁ := ⟨4, .request _, trivial, hs₁⟩
  have hstep₂ : s₁.Step s₂ := by
    refine ⟨4, .spawn 1, ?_, hs₂⟩
    show 1 < s₁.store.frames.size
    omega
  have hstep₃ : s₂.Step s₃ := by
    refine ⟨4, .set 2 _ _, ⟨?_, ?_, ?_⟩, hs₃⟩
    · show 2 < s₂.store.frames.size
      omega
    · exact .intro trivial (by simp [Value.parts])
    · exact .intro trivial (by simp [Value.parts])
  have hleads : (Session.fresh .default).Leads s₃ :=
    ((Relation.ReflTransGen.single hstep₁).tail hstep₂).tail hstep₃
  have hsize₃ : s₃.store.frames.size = 3 := by rw [hs₃, hs₂, hs₁]; cbv
  have hchain : s₃.store.chain 2 = [2, 1, 0] := by rw [hs₃, hs₂, hs₁]; cbv
  have hbinding : s₃.store.binding? 0 "f" =
      some (.closure ⟨1, 23⟩ 27 ⟨["y"], none⟩ (.symbol ⟨1, 31⟩ "x") 1) := by
    rw [hs₃, hs₂, hs₁]
    cbv
  obtain ⟨hframes, hbindings, _⟩ := session_orderly hleads
  refine ⟨s₃, hleads, ?_, hbinding, hbindings 0 "f" _ hbinding⟩
  rw [← hchain]
  exact (hframes 2 (by rw [hsize₃]; decide)).1

end MiniLisp
