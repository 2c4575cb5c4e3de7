import MiniLisp.Proofs.Eval.Changes

/-!
# Nested changes

The changes of an evaluation are nested: a frame that is made is worked in next, and is left before
anything else happens.  `Moves` says so, together with the frame that is worked in and the names that
may be bound there.  What such changes leave as it is can be read off the nesting.

* `Moves.keeps`, `Moves.keepsBut`: no frame changes but the one that is worked in.
* `Moves.pairwise_settled`: a frame that has been left is not bound in again.
* `Moves.settles`: **the frames that are made are left, and from then on they stay as they are**.
-/

namespace MiniLisp

/-- Nested changes from some frames to others, made while working in one frame, in which only certain
names are bound. -/
inductive Moves : Nat → (String → Prop) → Array Frame → List Change → Array Frame → Prop
  | quiet (frame : Nat) (names : String → Prop) (frames : Array Frame) :
      Moves frame names frames [] frames
  | bound {frame : Nat} {names : String → Prop} (frames : Array Frame) {x : String} (v : Value) :
      names x →
      Moves frame names frames [.bound frame x v] (Change.apply frames (.bound frame x v))
  | scope {frame : Nat} {names : String → Prop} {frames frames' : Array Frame}
      {parent : Nat} {t : List Change} :
      Moves frames.size (fun _ => True) (Change.apply frames (.opened parent)) t frames' →
      Moves frame names frames (.opened parent :: (t ++ [.left frames.size])) frames'
  | append {frame : Nat} {names : String → Prop} {frames frames' frames'' : Array Frame}
      {t t' : List Change} :
      Moves frame names frames t frames' → Moves frame names frames' t' frames'' →
      Moves frame names frames (t ++ t') frames''

/-! ### Replaying changes -/

theorem replay_append (frames : Array Frame) (t t' : List Change) :
    replay frames (t ++ t') = replay (replay frames t) t' :=
  List.foldl_append

theorem size_apply_le (frames : Array Frame) (c : Change) :
    frames.size ≤ (Change.apply frames c).size := by
  cases c <;> simp [Change.apply]

/-- A frame changes only if a name is bound in it. -/
theorem getElem?_replay {i : Nat} : ∀ (t : List Change) (frames : Array Frame),
    i < frames.size → (∀ x v, Change.bound i x v ∉ t) → (replay frames t)[i]? = frames[i]? := by
  intro t
  induction t with
  | nil => intro frames _ _; rfl
  | cons c t ih =>
    intro frames hi ht
    have hc : (Change.apply frames c)[i]? = frames[i]? := by
      cases c with
      | opened parent => rw [Change.apply, Array.getElem?_push, if_neg (Nat.ne_of_lt hi)]
      | bound frame x v =>
        have hne : frame ≠ i := by
          rintro rfl
          exact ht x v (by simp)
        rw [Change.apply, Array.getElem?_modify, if_neg hne]
      | left frame => rfl
    have hsize := size_apply_le frames c
    rw [← hc]
    exact ih _ (by omega) (fun x v h => ht x v (List.mem_cons_of_mem c h))

/-- What a frame becomes: it stays in its place, and only the names that are bound in it change. -/
theorem exists_getElem?_replay {i : Nat} : ∀ (t : List Change) {frames : Array Frame} {f : Frame},
    frames[i]? = some f → ∃ b, (replay frames t)[i]? = some { f with bindings := b } ∧
      ∀ x, (∀ v, Change.bound i x v ∉ t) → b.get? x = f.bindings.get? x := by
  intro t
  induction t with
  | nil => intro frames f hf; exact ⟨f.bindings, hf, fun _ _ => rfl⟩
  | cons c t ih =>
    intro frames f hf
    -- One change keeps the frame up to its bindings.
    have hc : ∃ b, (Change.apply frames c)[i]? = some { f with bindings := b } ∧
        ∀ x, (∀ v, Change.bound i x v ≠ c) → b.get? x = f.bindings.get? x := by
      by_cases hbound : ∃ x v, c = .bound i x v
      · obtain ⟨x, v, rfl⟩ := hbound
        refine ⟨f.bindings.insert x v, ?_, ?_⟩
        · rw [Change.apply, Array.getElem?_modify, if_pos rfl, hf]
          rfl
        · intro y hy
          rw [Bindings.get?_insert, if_neg]
          rintro rfl
          exact hy v rfl
      · refine ⟨f.bindings, ?_, fun _ _ => rfl⟩
        have hi : i < frames.size := (Array.getElem?_eq_some_iff.mp hf).1
        have hsame := getElem?_replay [c] frames hi
          (fun x v h => hbound ⟨x, v, (List.mem_singleton.mp h).symm⟩)
        exact hsame.trans hf
    obtain ⟨b, hb, hget⟩ := hc
    obtain ⟨b', hb', hget'⟩ := ih hb
    refine ⟨b', hb', fun x hx => ?_⟩
    rw [hget' x fun v h => hx v (List.mem_cons_of_mem c h)]
    exact hget x fun v h => hx v (h ▸ List.mem_cons_self)

namespace Moves

variable {frame : Nat} {names : String → Prop} {frames frames' : Array Frame} {t : List Change}

theorem replay_eq (h : Moves frame names frames t frames') : replay frames t = frames' := by
  induction h with
  | quiet frame names frames => rfl
  | bound frames v hx => rfl
  | scope h ih =>
    show replay (Change.apply _ _) (_ ++ _) = _
    rw [replay_append, ih]
    rfl
  | append h h' ih ih' => rw [replay_append, ih, ih']

theorem size_le (h : Moves frame names frames t frames') : frames.size ≤ frames'.size := by
  induction h with
  | quiet frame names frames => exact Nat.le_refl _
  | bound frames v hx => exact size_apply_le _ _
  | scope h ih => exact Nat.le_trans (size_apply_le _ _) ih
  | append h h' ih ih' => exact Nat.le_trans ih ih'

theorem mono {names' : String → Prop} (hnames : ∀ x, names x → names' x)
    (h : Moves frame names frames t frames') : Moves frame names' frames t frames' := by
  induction h with
  | quiet frame names frames => exact .quiet _ _ _
  | bound frames v hx => exact .bound _ _ (hnames _ hx)
  | scope h ih => exact .scope h
  | append h h' ih ih' => exact .append (ih hnames) (ih' hnames)

/-! ### Where names are bound and which frames are left -/

theorem of_bound_mem (h : Moves frame names frames t frames') {i : Nat} {x : String} {v : Value}
    (hmem : .bound i x v ∈ t) : i = frame ∧ names x ∨ frames.size ≤ i := by
  induction h with
  | quiet frame names frames => cases hmem
  | @bound frame names frames y w hy =>
    rw [List.mem_singleton] at hmem
    cases hmem
    exact Or.inl ⟨rfl, hy⟩
  | @scope frame names frames frames' parent t h ih =>
    have ht : Change.bound i x v ∈ t := by simpa using hmem
    rcases ih ht with ⟨rfl, _⟩ | hi
    · exact Or.inr (Nat.le_refl _)
    · exact Or.inr (Nat.le_trans (size_apply_le _ _) hi)
  | append h h' ih ih' =>
    rcases List.mem_append.mp hmem with hmem | hmem
    · exact ih hmem
    · rcases ih' hmem with hi | hi
      · exact Or.inl hi
      · exact Or.inr (Nat.le_trans h.size_le hi)

/-- Nested changes leave every frame alone but the one that they are made in. -/
theorem getElem?_of_ne (h : Moves frame names frames t frames') {i : Nat} (hi : i < frames.size)
    (hne : i ≠ frame) : frames'[i]? = frames[i]? := by
  rw [← h.replay_eq]
  refine getElem?_replay t frames hi fun x v hmem => ?_
  rcases h.of_bound_mem hmem with ⟨hi', _⟩ | hi'
  · exact hne hi'
  · omega

/-- In the frame that they are made in, nested changes bind none but certain names. -/
theorem getElem?_frame (h : Moves frame names frames t frames') {f : Frame}
    (hf : frames[frame]? = some f) :
    ∃ b, frames'[frame]? = some { f with bindings := b } ∧
      ∀ x, ¬ names x → b.get? x = f.bindings.get? x := by
  obtain ⟨b, hb, hget⟩ := exists_getElem?_replay t hf
  rw [h.replay_eq] at hb
  have hi : frame < frames.size := (Array.getElem?_eq_some_iff.mp hf).1
  refine ⟨b, hb, fun x hx => hget x fun v hmem => ?_⟩
  rcases h.of_bound_mem hmem with ⟨_, hx'⟩ | hi'
  · exact hx hx'
  · omega

/-- The frames that are left are those that were made. -/
theorem left_mem_iff (h : Moves frame names frames t frames') {i : Nat} :
    .left i ∈ t ↔ frames.size ≤ i ∧ i < frames'.size := by
  induction h with
  | quiet frame names frames => simp
  | bound frames v hx => simp [Change.apply]
  | @scope frame names frames frames' parent t h ih =>
    have hsize := h.size_le
    rw [show (Change.apply frames (.opened parent)).size = frames.size + 1 by
      simp [Change.apply]] at ih hsize
    have hmem : Change.left i ∈ Change.opened parent :: (t ++ [.left frames.size]) ↔
        Change.left i ∈ t ∨ i = frames.size := by simp
    rw [hmem, ih]
    omega
  | append h h' ih ih' =>
    have hsize := h.size_le
    have hsize' := h'.size_le
    rw [List.mem_append, ih, ih']
    omega

/-- **A frame that has been left is not bound in again.** -/
theorem pairwise_settled (h : Moves frame names frames t frames') (hframe : frame < frames.size) :
    t.Pairwise fun c d => ∀ i x v, c = .left i → d ≠ .bound i x v := by
  induction h with
  | quiet frame names frames => exact .nil
  | bound frames v hx => exact List.pairwise_singleton _ _
  | @scope frame names frames frames' parent t h ih =>
    have hsize : (Change.apply frames (.opened parent)).size = frames.size + 1 := by
      simp [Change.apply]
    refine List.Pairwise.cons (fun d hd i x v hc => by cases hc) ?_
    refine List.pairwise_append.mpr ⟨ih (by omega), List.pairwise_singleton _ _, ?_⟩
    intro c hc d hd i x v _
    rw [List.mem_singleton.mp hd]
    exact fun h => by cases h
  | append h h' ih ih' =>
    have hsize := h.size_le
    refine List.pairwise_append.mpr ⟨ih hframe, ih' (by omega), ?_⟩
    rintro c hc d hd i x v rfl rfl
    have hi := h.left_mem_iff.mp hc
    rcases h'.of_bound_mem hd with ⟨hi', _⟩ | hi'
    · omega
    · omega

/-- A frame exists when it is left. -/
theorem lt_size_of_left (h : Moves frame names frames t frames') {i : Nat} :
    ∀ {a b : List Change}, t = a ++ .left i :: b → i < (replay frames a).size := by
  induction h with
  | quiet frame names frames => intro a b ht; simp at ht
  | bound frames v hx =>
    intro a b ht
    cases a with
    | nil => cases ht
    | cons c a => simp at ht
  | @scope frame names frames frames' parent t h ih =>
    intro a b ht
    cases a with
    | nil => cases ht
    | cons c a =>
      rw [List.cons_append, List.cons.injEq] at ht
      obtain ⟨rfl, ht⟩ := ht
      rcases List.eq_nil_or_concat b with rfl | ⟨b, d, rfl⟩
      · -- The frame that is left last is the one made first.
        obtain ⟨rfl, hi⟩ := List.append_inj' ht rfl
        cases hi
        have hsize := h.size_le
        rw [← h.replay_eq] at hsize
        have hopened : (Change.apply frames (.opened parent)).size = frames.size + 1 := by
          simp [Change.apply]
        show frames.size < (replay (Change.apply frames (.opened parent)) t).size
        omega
      · rw [List.concat_eq_append, ← List.cons_append, ← List.append_assoc] at ht
        exact ih (List.append_inj' ht rfl).1
  | @append frame names frames frames' frames'' t t' h h' ih ih' =>
    intro a b ht
    rcases List.append_eq_append_iff.mp ht with ⟨u, rfl, hu⟩ | ⟨u, hu, ht'⟩
    · rw [replay_append, h.replay_eq]
      exact ih' hu
    · cases u with
      | nil =>
        rw [List.append_nil] at hu
        rw [← hu, h.replay_eq]
        exact ih' (a := []) ht'.symm
      | cons c u =>
        obtain ⟨rfl, _⟩ := List.cons.inj ht'
        exact ih hu

end Moves

/-! ### What stays as it is -/

namespace Store

/-- Every frame of a store is found in another one as it was. -/
def Keeps (s s' : Store) : Prop :=
  ∀ (i : Nat) (f : Frame), s.frames[i]? = some f → s'.frames[i]? = some f

/-- Every frame of a store is found in another one as it was, but for one frame that may bind some
names anew. -/
def KeepsBut (s : Store) (frame : FrameId) (names : List String) (s' : Store) : Prop :=
  ∀ (i : Nat) (f : Frame), s.frames[i]? = some f →
    ∃ b, s'.frames[i]? = some { f with bindings := b } ∧ (i ≠ frame → b = f.bindings) ∧
      ∀ x, x ∉ names → b.get? x = f.bindings.get? x

end Store

theorem Moves.keeps {s s' : Store} {t : List Change} {frame : Nat} {names : String → Prop}
    (h : Moves frame names s.frames t s'.frames) (hframe : s.frames.size ≤ frame) :
    s.Keeps s' := by
  intro i f hf
  have hi : i < s.frames.size := (Array.getElem?_eq_some_iff.mp hf).1
  rw [h.getElem?_of_ne hi (by omega), hf]

theorem Moves.keepsBut {s s' : Store} {t : List Change} {frame : Nat} {names : List String}
    (h : Moves frame (· ∈ names) s.frames t s'.frames) : s.KeepsBut frame names s' := by
  intro i f hf
  have hi : i < s.frames.size := (Array.getElem?_eq_some_iff.mp hf).1
  by_cases hframe : i = frame
  · subst hframe
    obtain ⟨b, hb, hget⟩ := h.getElem?_frame hf
    exact ⟨b, hb, fun hne => absurd rfl hne, hget⟩
  · refine ⟨f.bindings, ?_, fun _ => rfl, fun _ _ => rfl⟩
    exact (h.getElem?_of_ne hi hframe).trans hf

/-- Changes lead to certain frames, and every frame that they make is left and stays from then on as
it is. -/
structure Settles (frames : Array Frame) (t : List Change) (frames' : Array Frame) : Prop where
  replay_eq : replay frames t = frames'
  left_mem : ∀ i : Nat, frames.size ≤ i → i < frames'.size → .left i ∈ t
  stays : ∀ (a : List Change) (i : Nat) (b : List Change), a ++ .left i :: b <+: t →
    (replay frames (a ++ .left i :: b))[i]? = (replay frames a)[i]?

theorem Moves.settles {frame : Nat} {names : String → Prop} {frames frames' : Array Frame}
    {t : List Change} (h : Moves frame names frames t frames') (hframe : frame < frames.size) :
    Settles frames t frames' := by
  refine ⟨h.replay_eq, fun i hi hsize => h.left_mem_iff.mpr ⟨hi, hsize⟩, ?_⟩
  rintro a i b ⟨c, hc⟩
  rw [List.append_assoc, List.cons_append] at hc
  have hlt := h.lt_size_of_left hc.symm
  have hsettled := h.pairwise_settled hframe
  rw [← hc, List.pairwise_append, List.pairwise_cons] at hsettled
  rw [replay_append]
  refine getElem?_replay _ _ hlt fun x v hmem => ?_
  rcases List.mem_cons.mp hmem with hleft | hmem
  · cases hleft
  · exact hsettled.2.1.1 _ (List.mem_append_left c hmem) i x v rfl rfl

end MiniLisp
