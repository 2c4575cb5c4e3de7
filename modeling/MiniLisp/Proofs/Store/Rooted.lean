import Mathlib.Data.List.Nodup
import MiniLisp.Proofs.Eval.Traits

/-!
# The tree of frames

The frames of a store form a tree.  Each frame but the root was made inside an older one, and carries
the settings of the root; so the parents of a frame, followed one after the other, come to the root and
never to the same frame twice.

A closure refers to the frame it was made in by number.  It is grounded if the store has that frame.
Evaluation makes frames only inside the one that it works in and inside those that closures were made
in, so it keeps both the tree and the closures in order.

* `Store.Ascends`: the parents of a frame as they are recorded, up to a frame without one.
* `Store.Founded.ascends_chain`, `Store.nodup_chain`, `Store.Rooted.getLast?_chain`: **lookups follow the
  parents to their end, pass no frame twice and end in the root**.
* `Trait.invariant_orderly`: evaluation keeps the tree and the closures in order.
-/

namespace MiniLisp

namespace Store

/-! ### Parents -/

/-- The frames on the way from a frame to one without a parent, each the recorded parent of the one
before. -/
inductive Ascends (s : Store) : FrameId → List FrameId → Prop
  | root {frame : FrameId} {f : Frame} : s.frames[frame]? = some f → f.parent = none →
      Ascends s frame [frame]
  | inside {frame parent : FrameId} {f : Frame} {rest : List FrameId} :
      s.frames[frame]? = some f → f.parent = some parent → Ascends s parent rest →
      Ascends s frame (frame :: rest)

/-- Every parent is an older frame, so the parents of any frame come to an end.  There may be more than
one frame without a parent. -/
def Founded (s : Store) : Prop :=
  ∀ ⦃frame parent : FrameId⦄ ⦃f : Frame⦄, s.frames[frame]? = some f → f.parent = some parent →
    parent < frame

/-- Every frame but the root has an older one as its parent, and all frames have certain settings. -/
structure Rooted (settings : Settings) (s : Store) : Prop where
  root : ∃ f, s.frames[rootFrame]? = some f ∧ f.parent = none
  parent : ∀ {frame : FrameId} {f : Frame}, s.frames[frame]? = some f → frame ≠ rootFrame →
    ∃ parent, parent < frame ∧ f.parent = some parent
  settings : ∀ {frame : FrameId} {f : Frame}, s.frames[frame]? = some f → f.settings = settings

variable {s : Store} {settings : Settings} {frame : FrameId}

theorem le_of_mem_chain {i : FrameId} (h : i ∈ s.chain frame) : i ≤ frame := by
  induction frame using Nat.strongRecOn with
  | ind frame ih =>
    rw [chain] at h
    split at h
    · cases h
    · split at h
      · exact Nat.le_of_eq (List.mem_singleton.mp h)
      · next parent _ =>
        split at h
        · next hlt =>
          rcases List.mem_cons.mp h with rfl | h
          · exact Nat.le_refl _
          · exact Nat.le_trans (ih parent hlt h) (Nat.le_of_lt hlt)
        · exact Nat.le_of_eq (List.mem_singleton.mp h)

/-- A lookup passes no frame twice. -/
theorem nodup_chain (s : Store) (frame : FrameId) : (s.chain frame).Nodup := by
  induction frame using Nat.strongRecOn with
  | ind frame ih =>
    rw [chain]
    split
    · exact List.nodup_nil
    · split
      · exact List.nodup_singleton frame
      · next parent _ =>
        split
        · next hlt =>
          refine List.nodup_cons.mpr ⟨fun hmem => ?_, ih parent hlt⟩
          exact absurd (le_of_mem_chain hmem) (Nat.not_le_of_lt hlt)
        · exact List.nodup_singleton frame

/-- **Lookups follow the parents to their end.** -/
theorem Founded.ascends_chain (h : s.Founded) (hframe : frame < s.frames.size) :
    s.Ascends frame (s.chain frame) := by
  induction frame using Nat.strongRecOn with
  | ind frame ih =>
    have hf := Array.getElem?_eq_getElem hframe
    rw [chain, hf]
    dsimp only
    cases hparent : s.frames[frame].parent with
    | none => exact .root hf hparent
    | some parent =>
      have hlt := h hf hparent
      dsimp only
      rw [if_pos hlt]
      exact .inside hf hparent (ih parent hlt (Nat.lt_trans hlt hframe))

namespace Rooted

/-- How a frame goes on: it is the root, or its parent is an older frame. -/
theorem chain_cases (h : s.Rooted settings) (hframe : frame < s.frames.size) :
    ∃ f, s.frames[frame]? = some f ∧ (frame = rootFrame ∧ f.parent = none ∧ s.chain frame = [frame] ∨
      ∃ parent, parent < frame ∧ f.parent = some parent ∧
        s.chain frame = frame :: s.chain parent) := by
  by_cases hroot : frame = rootFrame
  · obtain ⟨f, hf, hnone⟩ := h.root
    subst hroot
    refine ⟨f, hf, Or.inl ⟨rfl, hnone, ?_⟩⟩
    rw [chain, hf]
    dsimp only
    rw [hnone]
  · have hf := Array.getElem?_eq_getElem hframe
    obtain ⟨parent, hlt, hparent⟩ := h.parent hf hroot
    refine ⟨_, hf, Or.inr ⟨parent, hlt, hparent, ?_⟩⟩
    rw [chain, hf]
    dsimp only
    rw [hparent]
    dsimp only
    rw [if_pos hlt]

theorem founded (h : s.Rooted settings) : s.Founded := by
  intro frame parent f hf hparent
  by_cases hroot : frame = rootFrame
  · obtain ⟨g, hg, hnone⟩ := h.root
    rw [← hroot, hf] at hg
    cases hg
    rw [hparent] at hnone
    cases hnone
  · obtain ⟨older, hlt, holder⟩ := h.parent hf hroot
    rw [hparent] at holder
    cases holder
    exact hlt

theorem ascends_chain (h : s.Rooted settings) (hframe : frame < s.frames.size) :
    s.Ascends frame (s.chain frame) :=
  h.founded.ascends_chain hframe

/-- **Lookups end in the root.** -/
theorem getLast?_chain (h : s.Rooted settings) (hframe : frame < s.frames.size) :
    (s.chain frame).getLast? = some rootFrame := by
  induction frame using Nat.strongRecOn with
  | ind frame ih =>
    obtain ⟨f, _, ⟨hroot, _, hchain⟩ | ⟨parent, hlt, _, hchain⟩⟩ := h.chain_cases hframe
    · rw [hchain, hroot]
      rfl
    · rw [hchain, List.getLast?_cons, ih parent hlt (Nat.lt_trans hlt hframe)]
      rfl

theorem settings_eq (h : s.Rooted settings) (hframe : frame < s.frames.size) :
    s.settings frame = settings := by
  have hf := Array.getElem?_eq_getElem hframe
  rw [Store.settings, hf]
  exact h.settings hf

/-! ### Changes -/

theorem insert (h : s.Rooted settings) (frame : FrameId) (x : String) (v : Value) :
    (s.insert frame x v).Rooted settings := by
  -- Only the bindings of a frame change.
  have hback : ∀ {i : FrameId} {f : Frame}, (s.insert frame x v).frames[i]? = some f →
      ∃ g, s.frames[i]? = some g ∧ f.parent = g.parent ∧ f.settings = g.settings := by
    intro i f hf
    rw [frames_insert, Array.getElem?_modify] at hf
    split at hf
    · obtain ⟨g, hg, rfl⟩ := Option.map_eq_some_iff.mp hf
      exact ⟨g, hg, rfl, rfl⟩
    · exact ⟨f, hf, rfl, rfl⟩
  refine ⟨?_, fun hf hroot => ?_, fun hf => ?_⟩
  · obtain ⟨f, hf, hnone⟩ := h.root
    obtain ⟨b, hb, _⟩ := s.grows_insert frame x v _ f hf
    exact ⟨_, hb, hnone⟩
  · obtain ⟨g, hg, hparent, _⟩ := hback hf
    rw [hparent]
    exact h.parent hg hroot
  · obtain ⟨g, hg, _, hsettings⟩ := hback hf
    rw [hsettings]
    exact h.settings hg

theorem spawn (h : s.Rooted settings) (hframe : frame < s.frames.size) :
    (s.spawn frame).2.Rooted settings := by
  refine ⟨?_, fun {i f} hf hroot => ?_, fun {i f} hf => ?_⟩
  · obtain ⟨f, hf, hnone⟩ := h.root
    obtain ⟨b, hb, _⟩ := s.grows_spawn frame _ f hf
    exact ⟨_, hb, hnone⟩
  · rw [frames_spawn, Array.getElem?_push] at hf
    split at hf
    · next hi =>
      cases hf
      exact ⟨frame, Nat.lt_of_lt_of_eq hframe hi.symm, rfl⟩
    · exact h.parent hf hroot
  · rw [frames_spawn, Array.getElem?_push] at hf
    split at hf
    · cases hf
      exact h.settings_eq hframe
    · exact h.settings hf

theorem newFunction (h : s.Rooted settings) : s.newFunction.2.Rooted settings :=
  ⟨h.root, h.parent, h.settings⟩

end Rooted

/-- A fresh store has one frame. -/
theorem rooted_fresh (settings : Settings) : (fresh settings).Rooted settings := by
  have hframes : ∀ {i : FrameId} {f : Frame}, (fresh settings).frames[i]? = some f →
      i = rootFrame ∧ f.settings = settings := by
    intro i f hf
    have hi : i < 1 := (Array.getElem?_eq_some_iff.mp hf).1
    obtain rfl : i = 0 := Nat.lt_one_iff.mp hi
    cases hf
    exact ⟨rfl, rfl⟩
  refine ⟨⟨_, rfl, rfl⟩, fun hf hroot => ?_, fun hf => (hframes hf).2⟩
  exact absurd (hframes hf).1 hroot

end Store

/-! ### Closures -/

/-- If a value is a closure, the store has the frame that it was made in. -/
def Value.Captures (s : Store) : Value → Prop
  | .closure _ _ _ _ frame => frame < s.frames.size
  | _ => True

/-- The trait of values whose closures were made in frames of the store. -/
def Trait.grounded : Trait where
  node s v := v.Captures s
  mono {s t v} hst h := by
    cases v with
    | closure l i p body frame => exact hst.lt_size h
    | _ => exact h
  moveTo {_ v} l h := by cases v <;> exact h
  plain _ {v} h := by
    cases v with
    | closure l i p body frame => cases h
    | _ => trivial

/-- Every closure in a value, at any depth, was made in a frame of the store. -/
def Value.Grounded (s : Store) (v : Value) : Prop :=
  Trait.grounded.Holds s v

/-- The frames of a store form a tree, and every closure that it holds was made in one of them. -/
def Store.Orderly (settings : Settings) (s : Store) : Prop :=
  s.Rooted settings ∧ s.Has .grounded

theorem Store.Orderly.root_lt {settings : Settings} {s : Store} (h : s.Orderly settings) :
    rootFrame < s.frames.size := by
  obtain ⟨f, hf, _⟩ := h.1.root
  exact (Array.getElem?_eq_some_iff.mp hf).1

/-- **Evaluation keeps the frames and the closures in order.** -/
theorem Trait.invariant_orderly (settings : Settings) :
    Trait.grounded.Invariant (Store.Orderly settings) where
  has h := h.2
  insert frame x h hv := ⟨h.1.insert frame x _, h.2.insert hv frame x⟩
  spawn h hframe := ⟨h.1.spawn hframe, h.2.spawn _⟩
  call h hcaptured := ⟨h.1.spawn hcaptured, h.2.spawn _⟩
  newFunction h := ⟨h.1.newFunction, h.2.newFunction⟩
  closure _ _ _ _ _ _ hframe := hframe

theorem Store.orderly_fresh (settings : Settings) : (Store.fresh settings).Orderly settings := by
  refine ⟨rooted_fresh settings, fun i x v hv => ?_⟩
  obtain ⟨_, j, p, rfl, _⟩ := of_binding?_fresh hv
  exact .intro trivial (by simp [Value.parts])

end MiniLisp
