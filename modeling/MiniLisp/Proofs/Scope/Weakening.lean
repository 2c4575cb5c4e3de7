import MiniLisp.Proofs.Eval.Agreement
import MiniLisp.Proofs.Eval.Footprint
import MiniLisp.Proofs.Store.Rooted

/-!
# Bindings that are not mentioned

A name that a program does not mention may be bound to anything: the program does not see it.  That is
not so for a closure that the program is handed, which may well mention the name; but a closure looks
names up from the frame that it was made in, and those that were there before cannot see a new frame.

So two stores may differ in what one frame binds one name to, as long as code that mentions the name is
evaluated only where lookups do not pass that frame.

* `Store.Mask`: one frame and one name that it may bind to different values.
* `Mask.agreement`: what the mask hides stays hidden.
* `eval_unmentioned`: **a binding that is not mentioned is not seen**.
-/

namespace MiniLisp

/-- A value holds no function, and it mentions a name nowhere. -/
def Value.Avoids (v : Value) (y : String) : Prop :=
  v.Everywhere fun w => w.tag ≠ .function ∧ w.symbol? ≠ some y

/-! ### New frames -/

namespace Store

variable {s t : Store} {frame : FrameId} {f : Frame}

/-- A lookup begins with the frame itself. -/
theorem mem_chain_self (hf : s.frames[frame]? = some f) : frame ∈ s.chain frame := by
  rw [chain, hf]
  dsimp only
  split
  · simp
  · split <;> simp

/-- A lookup goes on with the parent. -/
theorem mem_chain_of_parent {parent i : FrameId} (hf : s.frames[frame]? = some f)
    (hparent : f.parent = some parent) (hlt : parent < frame) (hi : i ∈ s.chain parent) :
    i ∈ s.chain frame := by
  rw [chain, hf]
  dsimp only
  rw [hparent]
  dsimp only
  rw [if_pos hlt]
  exact List.mem_cons_of_mem frame hi

/-- A new frame is the first one that lookups from it go through. -/
theorem chain_spawn (hframe : frame < s.frames.size) :
    (s.spawn frame).2.chain s.frames.size = s.frames.size :: s.chain frame := by
  have hnew : (s.spawn frame).2.frames[s.frames.size]? =
      some ⟨.empty, some frame, s.settings frame⟩ := by
    rw [frames_spawn, Array.getElem?_push, if_pos rfl]
  rw [chain, hnew]
  dsimp only
  rw [if_pos hframe, (s.grows_spawn frame).chain_eq hframe]

theorem keeps_spawn (s : Store) (frame : FrameId) : s.Keeps (s.spawn frame).2 := by
  intro i f hf
  have hi := (Array.getElem?_eq_some_iff.mp hf).1
  rw [frames_spawn, Array.getElem?_push, if_neg (Nat.ne_of_lt hi), hf]

namespace Keeps

theorem lt_size (h : s.Keeps t) {i : FrameId} (hi : i < s.frames.size) : i < t.frames.size :=
  (Array.getElem?_eq_some_iff.mp (h i _ (Array.getElem?_eq_getElem hi))).1

/-- Binding a name in a new frame leaves the frames from before as they are. -/
theorem insert (h : s.Keeps t) (y : String) (w : Value) : s.Keeps (t.insert s.frames.size y w) := by
  intro i f hf
  have hi := (Array.getElem?_eq_some_iff.mp hf).1
  rw [frames_insert, Array.getElem?_modify, if_neg (Nat.ne_of_gt hi)]
  exact h i f hf

/-- Evaluation in a new frame leaves the frames from before as they are. -/
theorem eval (h : s.Keeps t) (depth : Nat) (v : Value) (log : List Event) :
    s.Keeps ((eval depth s.frames.size v).run ⟨t, log⟩).2.store := by
  intro i f hf
  have hi := (Array.getElem?_eq_some_iff.mp hf).1
  have hmoves := eval_moves depth s.frames.size v ⟨t, log⟩
  rw [hmoves.getElem?_of_ne (h.lt_size hi) (Nat.ne_of_lt hi)]
  exact h i f hf

end Keeps

end Store

/-! ### What a mask hides -/

/-- One frame and one name that it may bind to different values. -/
structure Store.Mask where
  frame : FrameId
  name : String

namespace Store.Mask

variable {M : Mask} {s s' t : Store} {frame : FrameId} {v : Value}

/-- A value may be evaluated in a frame: it does not mention the name, unless lookups do not pass the
frame that may bind it differently. -/
structure Admits (M : Mask) (s : Store) (frame : FrameId) (v : Value) : Prop where
  masked : M.frame < s.frames.size
  avoids : M.frame ∈ s.chain frame → v.Avoids M.name

/-- The body of a closure may be evaluated in the frame that it was made in, which the store has. -/
def Harmless (M : Mask) (s : Store) : Value → Prop
  | .closure _ _ _ body frame => frame < s.frames.size ∧ M.Admits s frame body
  | _ => True

theorem Admits.extends (h : M.Admits s frame v) (hst : s.Extends t) (hframe : frame < s.frames.size) :
    M.Admits t frame v := by
  refine ⟨hst.lt_size h.masked, fun hmem => h.avoids ?_⟩
  rwa [hst.grows.chain_eq hframe] at hmem

theorem Admits.spawn (h : M.Admits s frame v) (hframe : frame < s.frames.size) :
    M.Admits (s.spawn frame).2 s.frames.size v := by
  refine ⟨(s.extends_spawn frame).lt_size h.masked, fun hmem => h.avoids ?_⟩
  rw [chain_spawn hframe] at hmem
  exact (List.mem_cons.mp hmem).resolve_left (Nat.ne_of_lt h.masked)

theorem Harmless.extends (h : M.Harmless s v) (hst : s.Extends t) : M.Harmless t v := by
  cases v with
  | closure l i p body frame => exact ⟨hst.lt_size h.1, h.2.extends hst h.1⟩
  | _ => trivial

theorem harmless_of_ne_function (h : v.tag ≠ .function) : M.Harmless s v := by
  cases v with
  | closure l i p body frame => exact absurd rfl h
  | _ => trivial

/-- Two stores that may differ in what the frame binds the name to.  What they bind is harmless. -/
structure Hides (M : Mask) (s s' : Store) : Prop where
  size : s'.frames.size = s.frames.size
  functions : s'.functions = s.functions
  frame : ∀ {i : FrameId} {f : Frame}, s.frames[i]? = some f →
    ∃ b, s'.frames[i]? = some { f with bindings := b } ∧
      ∀ x, (i = M.frame → x ≠ M.name) → b.get? x = f.bindings.get? x
  harmless : ∀ {i : FrameId} {x : String} {v : Value}, s.binding? i x = some v →
    v.Everywhere (M.Harmless s)

namespace Hides

theorem getElem?_eq_none (h : M.Hides s s') {i : FrameId} (hi : s.frames[i]? = none) :
    s'.frames[i]? = none := by
  rw [Array.getElem?_eq_none_iff] at hi ⊢
  rwa [h.size]

theorem settings_eq (h : M.Hides s s') (frame : FrameId) : s'.settings frame = s.settings frame := by
  unfold Store.settings
  cases hf : s.frames[frame]? with
  | none => rw [h.getElem?_eq_none hf]
  | some f =>
    obtain ⟨b, hb, _⟩ := h.frame hf
    rw [hb]

/-- A name other than the hidden one is bound to the same value wherever it is looked up, and so is the
hidden one if the lookup does not pass its frame. -/
theorem find?_eq (h : M.Hides s s') {x : String} (hx : M.frame ∈ s.chain frame → x ≠ M.name) :
    s'.find? frame x = s.find? frame x := by
  induction frame using Nat.strongRecOn with
  | ind frame ih =>
    rw [Store.find?, Store.find?.eq_def s]
    cases hf : s.frames[frame]? with
    | none => rw [h.getElem?_eq_none hf]
    | some f =>
      obtain ⟨b, hb, hget⟩ := h.frame hf
      have hself : b.get? x = f.bindings.get? x := by
        refine hget x fun hi => hx ?_
        rw [← hi]
        exact mem_chain_self hf
      rw [hb]
      dsimp only
      rw [hself]
      cases f.bindings.get? x with
      | some v => rfl
      | none =>
        cases hparent : f.parent with
        | none => rfl
        | some parent =>
          dsimp only
          split
          · next hlt => exact ih parent hlt fun hmem => hx (mem_chain_of_parent hf hparent hlt hmem)
          · rfl

theorem insert (h : M.Hides s s') (hv : v.Everywhere (M.Harmless s)) (frame : FrameId) (x : String) :
    M.Hides (s.insert frame x v) (s'.insert frame x v) := by
  refine ⟨?_, h.functions, fun {i f} hf => ?_, fun {i z w} hw => ?_⟩
  · rw [size_insert, size_insert, h.size]
  · rw [frames_insert, Array.getElem?_modify] at hf ⊢
    by_cases hi : frame = i
    · rw [if_pos hi] at hf ⊢
      obtain ⟨g, hg, rfl⟩ := Option.map_eq_some_iff.mp hf
      obtain ⟨b, hb, hget⟩ := h.frame hg
      refine ⟨b.insert x v, by rw [hb]; rfl, fun z hz => ?_⟩
      rw [Bindings.get?_insert, Bindings.get?_insert, hget z hz]
    · rw [if_neg hi] at hf ⊢
      exact h.frame hf
  · have hw' : w.Everywhere (M.Harmless s) := by
      rcases of_binding?_insert hw with ⟨_, _, rfl⟩ | hw
      · exact hv
      · exact h.harmless hw
    exact hw'.mono fun u hu => hu.extends (s.extends_insert frame x v)

theorem spawn (h : M.Hides s s') (frame : FrameId) :
    M.Hides (s.spawn frame).2 (s'.spawn frame).2 := by
  refine ⟨?_, h.functions, fun {i f} hf => ?_, fun {i z w} hw => ?_⟩
  · rw [size_spawn, size_spawn, h.size]
  · rw [frames_spawn, Array.getElem?_push] at hf ⊢
    rw [h.size, h.settings_eq]
    by_cases hi : i = s.frames.size
    · rw [if_pos hi] at hf ⊢
      cases hf
      exact ⟨.empty, rfl, fun _ _ => rfl⟩
    · rw [if_neg hi] at hf ⊢
      exact h.frame hf
  · rw [binding?_spawn] at hw
    exact (h.harmless hw).mono fun u hu => hu.extends (s.extends_spawn frame)

theorem newFunction (h : M.Hides s s') : M.Hides s.newFunction.2 s'.newFunction.2 :=
  ⟨h.size, congrArg (· + 1) h.functions, h.frame,
    fun hw => (h.harmless hw).mono fun _ hu => hu.extends s.extends_newFunction⟩

end Hides

/-- **What a mask hides stays hidden.** -/
def agreement (M : Mask) : Agreement where
  node := M.Harmless
  code s frame v := v.Everywhere (M.Harmless s) ∧ M.Admits s frame v
  stores := M.Hides
  node_extends hst h := h.extends hst
  node_moveTo {_ v} l h := by cases v <;> exact h
  node_plain {_ v} h := harmless_of_ne_function fun hv => by rw [hv] at h; cases h
  code_extends hst hframe h := ⟨h.1.mono fun _ hu => hu.extends hst, h.2.extends hst hframe⟩
  code_holds h := h.1
  code_part h _ hw := ⟨h.1.part hw, h.2.masked, fun hmem => (h.2.avoids hmem).part hw⟩
  code_spawn {s frame _} hframe h :=
    ⟨h.1.mono fun _ hu => hu.extends (s.extends_spawn frame), h.2.spawn hframe⟩
  code_body {s _ _ _ _ captured} h := by
    have hbody := h.part List.mem_cons_self
    have hself := h.self
    exact ⟨hself.1, hbody.mono fun _ hu => hu.extends (s.extends_spawn captured), hself.2.spawn hself.1⟩
  node_closure {s _ _} _ _ hframe h :=
    ⟨hframe, h.2.extends s.extends_newFunction hframe⟩
  size_eq h := h.size
  functions_eq h := h.functions
  settings_eq frame h := h.settings_eq frame
  find?_eq h _ hcode := h.find?_eq fun hmem heq =>
    (hcode.2.avoids hmem).self.2 (congrArg some heq)
  holds_find? h hfind := by
    obtain ⟨i, hi⟩ := exists_binding?_of_find? hfind
    exact h.harmless hi
  stores_insert frame x h hv := h.insert hv frame x
  stores_spawn {_ _ frame} h _ := h.spawn frame
  stores_newFunction h := h.newFunction

/-- A new frame may bind any name to any value. -/
theorem hides_spawn (hs : s.Has .grounded) (frame : FrameId) (y : String) (w : Value) :
    Hides ⟨s.frames.size, y⟩ (s.spawn frame).2 ((s.spawn frame).2.insert s.frames.size y w) := by
  refine ⟨size_insert _ _ _ _, rfl, fun {i f} hf => ?_, fun {i x v} hv => ?_⟩
  · rw [frames_insert, Array.getElem?_modify, hf]
    split
    · next hi =>
      refine ⟨f.bindings.insert y w, rfl, fun x hx => ?_⟩
      rw [Bindings.get?_insert, if_neg (hx hi.symm)]
    · exact ⟨f.bindings, rfl, fun _ _ => rfl⟩
  · rw [binding?_spawn] at hv
    refine Value.Everywhere.mono (hs i x v hv) fun u hu => ?_
    cases u with
    | closure l j p body captured =>
      have hcaptured : captured < s.frames.size := hu
      have hspawn := s.grows_spawn frame
      refine ⟨hspawn.lt_size hcaptured, s.lt_size_spawn frame, fun hmem => ?_⟩
      -- The new frame is younger than any that a closure was made in.
      rw [hspawn.chain_eq hcaptured] at hmem
      exact absurd (le_of_mem_chain hmem) (Nat.not_le_of_lt hcaptured)
    | _ => trivial

end Store.Mask

/-! ### The binding is not seen -/

/-- **A binding that is not mentioned is not seen.**  Take any store whose closures were all made in its
frames, and a value without functions that mentions a name nowhere.  Evaluate the value in a new frame
that binds nothing, and in a new frame that binds the name, be it to whatever value.  However deep
evaluation may go, both times there is the same result: the same value, the same fault at the same
location, or none.  All frames from before stay as they are. -/
theorem eval_unmentioned {s : Store} (hs : s.Has .grounded) (frame : FrameId) {y : String} (w : Value)
    {ast : Value} (hast : ast.Avoids y) (depth : Nat) (log : List Event) :
    let (inner, bare) := s.spawn frame
    let o := (eval depth inner ast).run ⟨bare, log⟩
    let o' := (eval depth inner ast).run ⟨bare.insert inner y w, log⟩
    o'.1 = o.1 ∧ s.Keeps o.2.store ∧ s.Keeps o'.2.store := by
  have hinner := s.lt_size_spawn frame
  refine ⟨?_, ?_, ?_⟩
  · have hhides := Store.Mask.hides_spawn hs frame y w
    have hharmless : ast.Everywhere (Store.Mask.Harmless ⟨s.frames.size, y⟩ (s.spawn frame).2) :=
      Value.Everywhere.mono hast fun u hu => Store.Mask.harmless_of_ne_function hu.1
    exact (Agreement.agrees_eval (A := Store.Mask.agreement _) depth _ ast _ _ hhides hinner
      ⟨hharmless, hinner, fun _ => hast⟩ log log).result
  · exact (s.keeps_spawn frame).eval depth ast log
  · exact ((s.keeps_spawn frame).insert y w).eval depth ast log

/-- A function that is made in a new frame of a fresh session, and that fails when it is called, while
the frame binds `g`. -/
theorem eval_unmentioned_call :
    let ast := Value.list ⟨1, 1⟩ [
      .list ⟨1, 2⟩ [.symbol ⟨1, 3⟩ "fn*", .list ⟨1, 7⟩ [.symbol ⟨1, 8⟩ "x"],
        .list ⟨1, 11⟩ [.symbol ⟨1, 12⟩ "x"]],
      .keyword ⟨1, 16⟩ "a"]
    let (inner, bare) := (Store.fresh .default).spawn Store.rootFrame
    ((eval 3 inner ast).run ⟨bare.insert inner "g" (.nil ⟨1, 1⟩), []⟩).1 =
      .error (.failed (.fault ⟨.notAFunction .keyword, ⟨1, 12⟩⟩)) := by
  intro ast
  have hlist : ∀ l vs, (∀ v ∈ vs, v.Avoids "g") → (Value.list l vs).Avoids "g" :=
    fun l vs h => .intro ⟨by simp [Value.tag], by simp [Value.symbol?]⟩ h
  have hsymbol : ∀ l x, x ≠ "g" → (Value.symbol l x).Avoids "g" :=
    fun l x hx => .intro ⟨by simp [Value.tag], by simpa [Value.symbol?] using hx⟩
      (by simp [Value.parts])
  have hkeyword : ∀ l x, (Value.keyword l x).Avoids "g" :=
    fun l x => .intro ⟨by simp [Value.tag], by simp [Value.symbol?]⟩ (by simp [Value.parts])
  have hast : ast.Avoids "g" := by
    refine hlist _ _ (List.forall_mem_cons.mpr ⟨hlist _ _ ?_, ?_⟩)
    · simp [hlist, hsymbol]
    · simp [hkeyword]
  have hbare : ((eval 3 1 ast).run ⟨((Store.fresh .default).spawn Store.rootFrame).2, []⟩).1 =
      .error (.failed (.fault ⟨.notAFunction .keyword, ⟨1, 12⟩⟩)) := by
    unfold ast
    cbv
  have hsame := eval_unmentioned (Store.orderly_fresh .default).2 Store.rootFrame (.nil ⟨1, 1⟩) hast 3 []
  exact hsame.1.trans hbare

end MiniLisp
