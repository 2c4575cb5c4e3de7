import MiniLisp.Store

/-!
# Stores that grow

A store only grows: its frames stay where they are, with their parents and settings, and a name that a
frame binds stays bound there, though perhaps to another value.

* `Store.Grows.isSome_find?`: **a name that is found stays found**.
* `Store.Grows.chain_eq`: lookups go through the same frames.
* `Store.find?_eq_findSome?`: **a lookup finds the nearest binding**.
* `Store.Binds`: a condition on all bindings, and what keeps it.
-/

namespace MiniLisp.Store

variable {s t u : Store}

/-! ### Looking up a name -/

/-- A value that a frame itself binds is found from it. -/
theorem find?_of_binding? {frame : FrameId} {x : String} {v : Value}
    (h : s.binding? frame x = some v) : s.find? frame x = some v := by
  obtain ⟨f, hf, hx⟩ := Option.bind_eq_some_iff.mp h
  rw [find?, hf]
  dsimp only
  rw [hx]

/-- **A lookup finds the nearest binding.** -/
theorem find?_eq_findSome? (s : Store) (frame : FrameId) (x : String) :
    s.find? frame x = (s.chain frame).findSome? fun i => s.binding? i x := by
  induction frame using Nat.strongRecOn with
  | ind frame ih =>
    rw [find?, chain]
    cases hf : s.frames[frame]? with
    | none => rfl
    | some f =>
      have hbinding : s.binding? frame x = f.bindings.get? x := by rw [binding?, hf]; rfl
      dsimp only
      cases hbound : f.bindings.get? x with
      | some v =>
        rw [hbound] at hbinding
        cases f.parent with
        | none => simp [hbinding]
        | some parent =>
          dsimp only
          split <;> simp [hbinding]
      | none =>
        rw [hbound] at hbinding
        cases f.parent with
        | none => simp [hbinding]
        | some parent =>
          dsimp only
          by_cases hlt : parent < frame
          · rw [if_pos hlt, if_pos hlt, List.findSome?_cons, hbinding]
            exact ih parent hlt
          · simp [hlt, hbinding]

theorem chain_eq_nil {frame : FrameId} (h : s.frames.size ≤ frame) : s.chain frame = [] := by
  rw [chain, Array.getElem?_eq_none h]

/-- A lookup that goes through any frame at all starts from one of the store. -/
theorem start_lt_size {frame i : FrameId} (h : i ∈ s.chain frame) : frame < s.frames.size := by
  refine Nat.lt_of_not_le fun hsize => ?_
  rw [chain_eq_nil hsize] at h
  cases h

/-- A value that is found is bound in some frame. -/
theorem exists_binding?_of_find? {frame : FrameId} {x : String} {v : Value}
    (h : s.find? frame x = some v) : ∃ i, s.binding? i x = some v := by
  rw [find?_eq_findSome?] at h
  obtain ⟨i, _, hi⟩ := List.exists_of_findSome?_eq_some h
  exact ⟨i, hi⟩

/-! ### Growing -/

/-- Every frame of a store is found in another one, with the same parent and settings, and binds there
at least the names that it did. -/
def Grows (s t : Store) : Prop :=
  ∀ (i : Nat) (f : Frame), s.frames[i]? = some f → ∃ b, t.frames[i]? = some { f with bindings := b } ∧
    ∀ x, (f.bindings.get? x).isSome = true → (b.get? x).isSome = true

namespace Grows

theorem refl (s : Store) : s.Grows s :=
  fun _ f hf => ⟨f.bindings, hf, fun _ h => h⟩

theorem trans (h : s.Grows t) (h' : t.Grows u) : s.Grows u := by
  intro i f hf
  obtain ⟨b, hb, hget⟩ := h i f hf
  obtain ⟨b', hb', hget'⟩ := h' i _ hb
  exact ⟨b', hb', fun x hx => hget' x (hget x hx)⟩

theorem size_le (h : s.Grows t) : s.frames.size ≤ t.frames.size := by
  refine Nat.le_of_not_lt fun hi => ?_
  obtain ⟨b, hb, _⟩ := h t.frames.size _ (Array.getElem?_eq_getElem hi)
  have := (Array.getElem?_eq_some_iff.mp hb).1
  omega

theorem lt_size (h : s.Grows t) {frame : FrameId} (hframe : frame < s.frames.size) :
    frame < t.frames.size :=
  Nat.lt_of_lt_of_le hframe h.size_le

/-- Lookups go through the same frames. -/
theorem chain_eq (h : s.Grows t) {frame : FrameId} (hframe : frame < s.frames.size) :
    t.chain frame = s.chain frame := by
  induction frame using Nat.strongRecOn with
  | ind frame ih =>
    obtain ⟨b, hb, _⟩ := h frame _ (Array.getElem?_eq_getElem hframe)
    rw [Store.chain, Store.chain.eq_def s, hb, Array.getElem?_eq_getElem hframe]
    dsimp only
    cases s.frames[frame].parent with
    | none => rfl
    | some parent =>
      dsimp only
      split
      · next hlt => rw [ih parent hlt (Nat.lt_trans hlt hframe)]
      · rfl

theorem isSome_binding? (h : s.Grows t) {i : FrameId} {x : String}
    (hx : (s.binding? i x).isSome = true) : (t.binding? i x).isSome = true := by
  rw [binding?] at hx ⊢
  cases hf : s.frames[i]? with
  | none => rw [hf] at hx; cases hx
  | some f =>
    obtain ⟨b, hb, hget⟩ := h i f hf
    rw [hf] at hx
    rw [hb]
    exact hget x hx

/-- **A name that is found stays found.** -/
theorem isSome_find? (h : s.Grows t) {frame : FrameId} {x : String}
    (hx : (s.find? frame x).isSome = true) : (t.find? frame x).isSome = true := by
  rw [find?_eq_findSome?, List.findSome?_isSome_iff] at hx ⊢
  obtain ⟨i, hi, hbound⟩ := hx
  exact ⟨i, by rwa [h.chain_eq (start_lt_size hi)], h.isSome_binding? hbound⟩

end Grows

/-! ### Binding a name -/

theorem frames_insert (s : Store) (frame : FrameId) (name : String) (v : Value) :
    (s.insert frame name v).frames =
      s.frames.modify frame fun f => { f with bindings := f.bindings.insert name v } := rfl

@[simp] theorem size_insert (s : Store) (frame : FrameId) (name : String) (v : Value) :
    (s.insert frame name v).frames.size = s.frames.size := by
  rw [frames_insert, Array.size_modify]

theorem grows_insert (s : Store) (frame : FrameId) (name : String) (v : Value) :
    s.Grows (s.insert frame name v) := by
  intro i f hf
  rw [frames_insert, Array.getElem?_modify]
  split
  · refine ⟨f.bindings.insert name v, by rw [hf]; rfl, fun x hx => ?_⟩
    rw [Bindings.get?_insert]
    split
    · rfl
    · exact hx
  · exact ⟨f.bindings, hf, fun _ h => h⟩

/-- Binding a name changes what one frame of the store binds it to, and nothing else. -/
theorem binding?_insert (s : Store) (frame : FrameId) (name : String) (v : Value) (i : FrameId)
    (x : String) : (s.insert frame name v).binding? i x =
      if i = frame ∧ x = name ∧ frame < s.frames.size then some v else s.binding? i x := by
  rw [binding?, binding?, frames_insert, Array.getElem?_modify]
  by_cases hi : frame = i
  · subst hi
    rw [if_pos rfl]
    by_cases hframe : frame < s.frames.size
    · rw [Array.getElem?_eq_getElem hframe, Option.map_some, Option.bind_some, Option.bind_some,
        Bindings.get?_insert]
      by_cases hx : x = name
      · rw [if_pos hx, if_pos ⟨rfl, hx, hframe⟩]
      · rw [if_neg hx, if_neg fun h => hx h.2.1]
    · rw [Array.getElem?_eq_none (Nat.le_of_not_lt hframe), if_neg fun h => hframe h.2.2]
      rfl
  · rw [if_neg hi, if_neg fun h => hi h.1.symm]

/-- The bindings after binding a name are the new one and those from before. -/
theorem of_binding?_insert {frame i : FrameId} {name x : String} {v w : Value}
    (h : (s.insert frame name v).binding? i x = some w) :
    i = frame ∧ x = name ∧ w = v ∨ s.binding? i x = some w := by
  rw [binding?_insert] at h
  split at h
  · next hix => exact Or.inl ⟨hix.1, hix.2.1, (Option.some.inj h).symm⟩
  · exact Or.inr h

theorem grows_insertAll (s : Store) (frame : FrameId) (pairs : List (String × Value)) :
    s.Grows (s.insertAll frame pairs) := by
  induction pairs generalizing s with
  | nil => exact .refl s
  | cons p pairs ih => exact (grows_insert s frame p.1 p.2).trans (ih _)

/-! ### Making a frame -/

theorem frames_spawn (s : Store) (parent : FrameId) :
    (s.spawn parent).2.frames = s.frames.push ⟨.empty, some parent, s.settings parent⟩ := rfl

@[simp] theorem size_spawn (s : Store) (parent : FrameId) :
    (s.spawn parent).2.frames.size = s.frames.size + 1 := by
  rw [frames_spawn, Array.size_push]

theorem lt_size_spawn (s : Store) (parent : FrameId) :
    s.frames.size < (s.spawn parent).2.frames.size := by
  rw [size_spawn]
  exact Nat.lt_succ_self _

theorem grows_spawn (s : Store) (parent : FrameId) : s.Grows (s.spawn parent).2 := by
  intro i f hf
  have hi : i < s.frames.size := (Array.getElem?_eq_some_iff.mp hf).1
  refine ⟨f.bindings, ?_, fun _ h => h⟩
  rw [frames_spawn, Array.getElem?_push, if_neg (Nat.ne_of_lt hi), hf]

theorem binding?_spawn (s : Store) (parent i : FrameId) (x : String) :
    (s.spawn parent).2.binding? i x = s.binding? i x := by
  rw [binding?, binding?, frames_spawn, Array.getElem?_push]
  split
  · next hi =>
    rw [Array.getElem?_eq_none (Nat.le_of_eq hi.symm)]
    rfl
  · rfl

/-! ### What all bindings have in common -/

/-- Whatever the frames of a store bind satisfies a condition. -/
def Binds (s : Store) (p : FrameId → String → Value → Prop) : Prop :=
  ∀ (frame : FrameId) (x : String) (v : Value), s.binding? frame x = some v → p frame x v

namespace Binds

variable {s : Store} {p q : FrameId → String → Value → Prop}

theorem mono (h : s.Binds p) (hpq : ∀ frame x v, p frame x v → q frame x v) : s.Binds q :=
  fun frame x v hv => hpq frame x v (h frame x v hv)

theorem insert (h : s.Binds p) {frame : FrameId} {x : String} {v : Value} (hv : p frame x v) :
    (s.insert frame x v).Binds p := by
  intro i y w hw
  rcases of_binding?_insert hw with ⟨rfl, rfl, rfl⟩ | hw
  · exact hv
  · exact h i y w hw

theorem spawn (h : s.Binds p) (parent : FrameId) : (s.spawn parent).2.Binds p := by
  intro i y w hw
  rw [binding?_spawn] at hw
  exact h i y w hw

theorem find? (h : s.Binds p) {frame : FrameId} {x : String} {v : Value}
    (hv : s.find? frame x = some v) : ∃ i, p i x v := by
  obtain ⟨i, hi⟩ := exists_binding?_of_find? hv
  exact ⟨i, h i x v hi⟩

end Binds

/-! ### Fresh stores -/

theorem of_get?_insertAll {b : Bindings} {pairs : List (String × Value)} {x : String} {v : Value}
    (h : (b.insertAll pairs).get? x = some v) : (x, v) ∈ pairs ∨ b.get? x = some v := by
  induction pairs generalizing b with
  | nil => exact Or.inr h
  | cons p pairs ih =>
    rcases ih (b := b.insert p.1 p.2) h with hmem | h
    · exact Or.inl (List.mem_cons_of_mem p hmem)
    · rw [Bindings.get?_insert] at h
      split at h
      · next hx =>
        cases h
        subst hx
        exact Or.inl List.mem_cons_self
      · exact Or.inr h

/-- What a fresh store binds: each primitive under its name, in the root, with its number as
identity. -/
theorem primitive_of_binding?_fresh {settings : Settings} {i : FrameId} {x : String} {v : Value}
    (h : (fresh settings).binding? i x = some v) :
    i = rootFrame ∧
      ∃ j p, v = .primitive .builtin j p ∧ x = p.name ∧ Primitive.all[j]? = some p := by
  have hi : i < 1 := by
    obtain ⟨f, hf, _⟩ := Option.bind_eq_some_iff.mp h
    exact (Array.getElem?_eq_some_iff.mp hf).1
  obtain rfl : i = 0 := Nat.lt_one_iff.mp hi
  refine ⟨rfl, ?_⟩
  have h : primitives.get? x = some v := h
  rcases of_get?_insertAll h with hmem | h
  · obtain ⟨⟨p, j⟩, hpj, hp⟩ := List.mem_map.mp hmem
    cases hp
    exact ⟨j, p, rfl, rfl, List.mem_zipIdx_iff_getElem?.mp hpj⟩
  · cases h

/-- What a fresh store binds has an identity that has been given out. -/
theorem of_binding?_fresh {settings : Settings} {i : FrameId} {x : String} {v : Value}
    (h : (fresh settings).binding? i x = some v) :
    i = rootFrame ∧ ∃ j p, v = .primitive .builtin j p ∧ x = p.name ∧ j < Primitive.all.length := by
  obtain ⟨hi, j, p, hv, hx, hp⟩ := primitive_of_binding?_fresh h
  exact ⟨hi, j, p, hv, hx, (List.getElem?_eq_some_iff.mp hp).1⟩

end MiniLisp.Store
