import Mathlib.Data.Set.Basic
import MiniLisp.Proofs.Eval.Yields
import MiniLisp.Proofs.Reader.Written

/-!
# Scopes

A value is scoped in a set of names if evaluating it looks up no other name.  What is quoted does not
count, since it is not evaluated; a lambda and local bindings add the names that they bind.  The two
names under which primitives get their operands unevaluated must keep their meaning, so a scoped value
neither refers to them as values nor binds them.

A store is well scoped if the same holds of every closure in it, whose body is evaluated in the frame
that the closure was made in.

* `Value.Scoped`: values that look up certain names only.
* `Trait.sound`: every closure looks up only names that are visible where it was made.
* `Store.WellScoped`: the stores in which scoped values can be evaluated.
-/

namespace MiniLisp

/-- The names of the primitives that get their operands unevaluated. -/
def Reserved (x : String) : Prop :=
  x = Primitive.lambda.name ∨ x = Primitive.quote.name

instance (x : String) : Decidable (Reserved x) :=
  inferInstanceAs (Decidable (_ ∨ _))

/-- The names that give a list with them at its head a meaning of its own. -/
def formNames : List String :=
  [defineName, letName, Primitive.lambda.name, Primitive.quote.name]

/-- The kinds of value that stand for themselves, but for functions. -/
def Tag.isAtom : Tag → Bool
  | .number | .keyword | .string | .bool | .nil | .nop => true
  | _ => false

/-- A value that looks up only names of a set when it is evaluated. -/
inductive Value.Scoped : Set String → Value → Prop
  | symbol {G : Set String} (l : Location) {x : String} : x ∈ G → ¬ Reserved x →
      Scoped G (.symbol l x)
  | atom {G : Set String} {v : Value} : v.tag.isAtom = true → Scoped G v
  | empty {G : Set String} (l : Location) : Scoped G (.list l [])
  | vector {G : Set String} (l : Location) {vs : List Value} : (∀ v ∈ vs, Scoped G v) →
      Scoped G (.vector l vs)
  | map {G : Set String} (l : Location) {es : List (Value × Value)} : (∀ e ∈ es, Scoped G e.2) →
      Scoped G (.map l es)
  | quote {G : Set String} (l : Location) {head : Value} (vs : List Value) :
      head.symbol? = some Primitive.quote.name → Scoped G (.list l (head :: vs))
  | lambda {G : Set String} (l : Location) {head v body : Value} {vs rest : List Value}
      {names : List String} : head.symbol? = some Primitive.lambda.name → v.elements? = some vs →
      vs.map Value.symbol? = names.map some → (∀ x ∈ names, ¬ Reserved x) →
      Scoped (G ∪ {x | x ∈ names ∧ x ≠ Parameters.ampersand}) body →
      Scoped G (.list l (head :: v :: body :: rest))
  | define {G : Set String} (l : Location) {head key v : Value} {x : String} :
      head.symbol? = some defineName → key.symbol? = some x → ¬ Reserved x → Scoped G v →
      Scoped G (.list l [head, key, v])
  | locals {G : Set String} (l : Location) {head bindings body : Value} {es : List (Value × Value)}
      {names : List String} : head.symbol? = some letName →
      bindings.elements? = some (es.flatMap fun e => [e.1, e.2]) →
      es.map (fun e => e.1.symbol?) = names.map some → (∀ x ∈ names, ¬ Reserved x) →
      (∀ (i : Nat) (e : Value × Value), es[i]? = some e → Scoped (G ∪ {x | x ∈ names.take i}) e.2) →
      Scoped (G ∪ {x | x ∈ names}) body → Scoped G (.list l [head, bindings, body])
  | call {G : Set String} (l : Location) {head : Value} {vs : List Value} :
      (∀ x ∈ formNames, head.symbol? ≠ some x) → Scoped G head → (∀ v ∈ vs, Scoped G v) →
      Scoped G (.list l (head :: vs))

/-- More names do no harm. -/
theorem Value.Scoped.mono {G H : Set String} {v : Value} (h : v.Scoped G) (hGH : G ⊆ H) :
    v.Scoped H := by
  induction h generalizing H with
  | symbol l hx hr => exact .symbol l (hGH hx) hr
  | atom hv => exact .atom hv
  | empty l => exact .empty l
  | vector l _ ih => exact .vector l fun v hv => ih v hv hGH
  | map l _ ih => exact .map l fun e he => ih e he hGH
  | quote l vs hhead => exact .quote l vs hhead
  | lambda l hhead hv hvs hnames _ ih =>
    exact .lambda l hhead hv hvs hnames (ih (Set.union_subset_union_left _ hGH))
  | define l hhead hkey hx _ ih => exact .define l hhead hkey hx (ih hGH)
  | locals l hhead hbindings hes hnames _ _ ih ihbody =>
    refine .locals l hhead hbindings hes hnames (fun i e he => ?_) ?_
    · exact ih i e he (Set.union_subset_union_left _ hGH)
    · exact ihbody (Set.union_subset_union_left _ hGH)
  | call l hhead _ _ ih ihs => exact .call l hhead (ih hGH) fun v hv => ihs v hv hGH

/-! ### Visible names -/

/-- The names that are found from a frame. -/
def Store.visible (s : Store) (frame : FrameId) : Set String :=
  {x | (s.find? frame x).isSome = true}

namespace Store

variable {s t : Store} {frame : FrameId}

theorem Grows.visible_subset (h : s.Grows t) (frame : FrameId) : s.visible frame ⊆ t.visible frame :=
  fun _ hx => h.isSome_find? hx

/-- A name that a frame itself binds is visible from it. -/
theorem mem_visible_of_binding? {x : String} (h : (s.binding? frame x).isSome = true) :
    x ∈ s.visible frame := by
  obtain ⟨v, hv⟩ := Option.isSome_iff_exists.mp h
  show (s.find? frame x).isSome = true
  rw [find?_of_binding? hv]
  rfl

theorem mem_visible_insert (hframe : frame < s.frames.size) (x : String) (v : Value) :
    x ∈ (s.insert frame x v).visible frame := by
  refine mem_visible_of_binding? ?_
  rw [binding?_insert, if_pos ⟨rfl, rfl, hframe⟩]
  rfl

theorem mem_visible_insertAll {x : String} {pairs : List (String × Value)}
    (hx : x ∈ pairs.map Prod.fst) (hframe : frame < s.frames.size) :
    x ∈ (s.insertAll frame pairs).visible frame := by
  induction pairs generalizing s with
  | nil => cases hx
  | cons p pairs ih =>
    rcases List.mem_cons.mp hx with rfl | hx
    · exact (grows_insertAll _ frame pairs).visible_subset frame (mem_visible_insert hframe p.1 p.2)
    · exact ih (s := s.insert frame p.1 p.2) hx (by rw [size_insert]; exact hframe)

/-- What is visible from a frame is visible from a new frame inside it. -/
theorem visible_subset_spawn (hframe : frame < s.frames.size) :
    s.visible frame ⊆ (s.spawn frame).2.visible s.frames.size := by
  intro x hx
  have hx := (s.grows_spawn frame).visible_subset frame hx
  show ((s.spawn frame).2.find? s.frames.size x).isSome = true
  rw [find?, frames_spawn, Array.getElem?_push_size]
  simp only [Bindings.get?_empty]
  rw [if_pos hframe]
  exact hx

end Store

/-! ### Sound values -/

/-- A closure was made in a frame of the store, and its body looks up only what it binds or what is
visible from there.  The primitive that makes closures is not to be had. -/
def Value.Vouched (s : Store) : Value → Prop
  | .closure _ _ parameters body frame => frame < s.frames.size ∧
      (∀ x ∈ parameters.names, ¬ Reserved x) ∧
      body.Scoped (s.visible frame ∪ {x | x ∈ parameters.names})
  | .primitive _ _ code => code ≠ .lambda
  | _ => True

/-- The trait that makes it safe to call the functions in a value. -/
def Trait.sound : Trait where
  node s v := v.Vouched s
  mono {s t v} hst h := by
    cases v with
    | closure l i p body frame =>
      obtain ⟨hframe, hnames, hbody⟩ := h
      refine ⟨hst.lt_size hframe, hnames, hbody.mono ?_⟩
      exact Set.union_subset_union_left _ (hst.visible_subset frame)
    | _ => exact h
  moveTo {_ v} l h := by cases v <;> exact h
  plain _ {v} h := by
    cases v with
    | primitive l i code => cases h
    | closure l i p body frame => cases h
    | _ => trivial

/-- Every function in a value, at any depth, is safe to call. -/
def Value.Sound (s : Store) (v : Value) : Prop :=
  Trait.sound.Holds s v

/-- What a text denotes is sound: it holds no functions. -/
theorem sound_readFirst {text : String} {v : Value} (h : readFirst text = .ok v) (s : Store) :
    v.Sound s := by
  rcases written_readFirst h with ⟨hv, _⟩ | ⟨⟨l, rfl⟩, _⟩
  · refine Value.Everywhere.mono hv fun w hw => ?_
    cases w with
    | primitive l i code => exact absurd rfl hw.1
    | closure l i p body frame => exact absurd rfl hw.1
    | _ => trivial
  · exact .intro trivial (by simp [Value.parts])

/-- The stores in which scoped values can be evaluated: the parents of each frame lead to the root, the
reserved names have their meaning there and are bound nowhere else, and all other names are bound to
sound values. -/
structure Store.WellScoped (s : Store) : Prop where
  rooted : ∀ frame : FrameId, frame < s.frames.size → (s.chain frame).getLast? = some rootFrame
  seeded : ∀ p : Primitive, Reserved p.name →
    ∃ l i, s.binding? rootFrame p.name = some (.primitive l i p)
  unshadowed : ∀ (frame : FrameId) (x : String), Reserved x → frame ≠ rootFrame →
    s.binding? frame x = none
  sound : ∀ (frame : FrameId) (x : String) (v : Value), ¬ Reserved x →
    s.binding? frame x = some v → v.Sound s

namespace Store.WellScoped

variable {s : Store} {frame : FrameId}

/-- The reserved names mean the same everywhere. -/
theorem find?_reserved (h : s.WellScoped) {p : Primitive} (hp : Reserved p.name)
    (hframe : frame < s.frames.size) : ∃ l i, s.find? frame p.name = some (.primitive l i p) := by
  induction frame using Nat.strongRecOn with
  | ind frame ih =>
    obtain ⟨l, i, hseed⟩ := h.seeded p hp
    have hchain := h.rooted frame hframe
    rw [find?]
    rw [chain] at hchain
    cases hf : s.frames[frame]? with
    | none => rw [hf] at hchain; cases hchain
    | some f =>
      rw [hf] at hchain
      dsimp only at hchain ⊢
      by_cases hroot : frame = rootFrame
      · subst hroot
        rw [binding?, hf, Option.bind_some] at hseed
        rw [hseed]
        exact ⟨l, i, rfl⟩
      · have hnone := h.unshadowed frame p.name hp hroot
        rw [binding?, hf, Option.bind_some] at hnone
        rw [hnone]
        -- The chain ends in the root, so there is a parent to go on with.
        cases hparent : f.parent with
        | none =>
          rw [hparent] at hchain
          exact absurd (Option.some.inj hchain) hroot
        | some parent =>
          rw [hparent] at hchain
          dsimp only at hchain ⊢
          split at hchain
          · next hlt =>
            rw [if_pos hlt]
            exact ih parent hlt (Nat.lt_trans hlt hframe)
          · exact absurd (Option.some.inj hchain) hroot

theorem insert (h : s.WellScoped) {x : String} (hx : ¬ Reserved x) {v : Value} (hv : v.Sound s)
    (frame : FrameId) : (s.insert frame x v).WellScoped := by
  have hgrows := s.grows_insert frame x v
  have hother : ∀ i y, Reserved y → (s.insert frame x v).binding? i y = s.binding? i y := by
    intro i y hy
    rw [binding?_insert, if_neg]
    rintro ⟨_, rfl, _⟩
    exact hx hy
  refine ⟨fun i hi => ?_, fun p hp => ?_, fun i y hy hi => ?_, fun i y w hy hw => ?_⟩
  · rw [size_insert] at hi
    rw [hgrows.chain_eq hi]
    exact h.rooted i hi
  · rw [hother _ _ hp]
    exact h.seeded p hp
  · rw [hother _ _ hy]
    exact h.unshadowed i y hy hi
  · refine Trait.Holds.grows ?_ hgrows
    rcases of_binding?_insert hw with ⟨_, _, rfl⟩ | hw
    · exact hv
    · exact h.sound i y w hy hw

theorem insertAll {pairs : List (String × Value)} (h : s.WellScoped)
    (hpairs : ∀ q ∈ pairs, ¬ Reserved q.1 ∧ q.2.Sound s) (frame : FrameId) :
    (s.insertAll frame pairs).WellScoped := by
  induction pairs generalizing s with
  | nil => exact h
  | cons q pairs ih =>
    obtain ⟨⟨hq, hv⟩, hpairs⟩ := List.forall_mem_cons.mp hpairs
    refine ih (h.insert hq hv frame) fun r hr => ⟨(hpairs r hr).1, ?_⟩
    exact Trait.Holds.grows (hpairs r hr).2 (s.grows_insert frame q.1 q.2)

theorem spawn (h : s.WellScoped) (hframe : frame < s.frames.size) :
    (s.spawn frame).2.WellScoped := by
  have hgrows := s.grows_spawn frame
  refine ⟨fun i hi => ?_, fun p hp => ?_, fun i y hy hi => ?_, fun i y w hy hw => ?_⟩
  · rw [size_spawn] at hi
    by_cases hlt : i < s.frames.size
    · rw [hgrows.chain_eq hlt]
      exact h.rooted i hlt
    · obtain rfl : i = s.frames.size := Nat.le_antisymm (Nat.le_of_lt_succ hi) (Nat.le_of_not_lt hlt)
      rw [chain, frames_spawn, Array.getElem?_push_size]
      dsimp only
      rw [if_pos hframe, hgrows.chain_eq hframe, List.getLast?_cons, h.rooted frame hframe]
      rfl
  · rw [binding?_spawn]
    exact h.seeded p hp
  · rw [binding?_spawn]
    exact h.unshadowed i y hy hi
  · rw [binding?_spawn] at hw
    exact (h.sound i y w hy hw).grows hgrows

theorem newFunction (h : s.WellScoped) : s.newFunction.2.WellScoped := by
  have hgrows : s.Grows s.newFunction.2 := Grows.refl s
  refine ⟨fun i hi => ?_, h.seeded, h.unshadowed, fun i y w hy hw => ?_⟩
  · rw [hgrows.chain_eq hi]
    exact h.rooted i hi
  · exact (h.sound i y w hy hw).grows hgrows

end Store.WellScoped

/-- A fresh store is well scoped. -/
theorem Store.wellScoped_fresh (settings : Settings) : (Store.fresh settings).WellScoped := by
  refine ⟨fun i hi => ?_, fun p hp => ?_, fun i x hx hi => ?_, fun i x v hx hv => ?_⟩
  · obtain rfl : i = 0 := Nat.lt_one_iff.mp hi
    rw [chain]
    rfl
  · rcases hp with hp | hp
    · obtain rfl := Primitive.name_injective hp
      exact ⟨_, _, rfl⟩
    · obtain rfl := Primitive.name_injective hp
      exact ⟨_, _, rfl⟩
  · cases hv : (Store.fresh settings).binding? i x with
    | none => rfl
    | some v => exact absurd (of_binding?_fresh hv).1 hi
  · obtain ⟨_, j, p, rfl, rfl, _⟩ := of_binding?_fresh hv
    refine .intro (fun hp => hx ?_) (by simp [Value.parts])
    rw [hp]
    exact Or.inl rfl

end MiniLisp
