import MiniLisp.Value.Basic

/-!
# What holds everywhere in a value

A value contains other values: the elements of a sequence, the keys and values of a hash-map, the body
of a closure.  A property holds everywhere in a value if it holds of the value itself, of what the
value contains, of what that contains in turn, and so on.

* `Value.parts`: what a value contains, one level down.
* `Value.Everywhere`: **a property that holds at every depth**.
* `Value.everywhere_iff`: that is, the property holds of all that the value contains.
* `Value.parts_induction`: induction over what a value contains.
-/

namespace MiniLisp.Value

/-- What a value contains, one level down. -/
def parts : Value → List Value
  | .list _ elements => elements
  | .vector _ elements => elements
  | .map _ entries => entries.flatMap fun e => [e.1, e.2]
  | .closure _ _ _ body _ => [body]
  | _ => []

/-- A property that a value has at every depth. -/
inductive Everywhere (p : Value → Prop) : Value → Prop
  | intro {v : Value} : p v → (∀ w ∈ v.parts, Everywhere p w) → Everywhere p v

variable {p q : Value → Prop} {v : Value}

@[simp] theorem parts_moveTo (v : Value) (l : Location) : (v.moveTo l).parts = v.parts := by
  cases v <;> rfl

theorem mem_parts_map {l : Location} {entries : List (Value × Value)} {w : Value} :
    w ∈ (Value.map l entries).parts ↔ ∃ e ∈ entries, w = e.1 ∨ w = e.2 := by
  simp [parts]

namespace Everywhere

theorem self (h : v.Everywhere p) : p v := by
  cases h with
  | intro hv _ => exact hv

theorem part (h : v.Everywhere p) {w : Value} (hw : w ∈ v.parts) : w.Everywhere p := by
  cases h with
  | intro _ hparts => exact hparts w hw

theorem atom (hv : p v) (hparts : v.parts = []) : v.Everywhere p :=
  .intro hv (by simp [hparts])

theorem mono (h : v.Everywhere p) (hpq : ∀ w, p w → q w) : v.Everywhere q := by
  induction h with
  | intro hv _ ih => exact .intro (hpq _ hv) ih

theorem of_forall (h : ∀ w, p w) (v : Value) : v.Everywhere p := by
  induction v with
  | list l vs ih => exact .intro (h _) ih
  | vector l vs ih => exact .intro (h _) ih
  | map l es ih =>
    refine .intro (h _) fun w hw => ?_
    obtain ⟨e, he, rfl | rfl⟩ := mem_parts_map.mp hw
    · exact (ih e he).1
    · exact (ih e he).2
  | closure l i parameters body frame ih => exact .intro (h _) (List.forall_mem_singleton.mpr ih)
  | _ => exact .intro (h _) nofun

theorem moveTo (h : v.Everywhere p) {l : Location} (hl : p (v.moveTo l)) :
    (v.moveTo l).Everywhere p := by
  refine .intro hl fun w hw => ?_
  rw [parts_moveTo] at hw
  exact h.part hw

theorem elements? (h : v.Everywhere p) {vs : List Value} (hvs : v.elements? = some vs) :
    ∀ w ∈ vs, w.Everywhere p := by
  intro w hw
  cases v with
  | list l elements => cases hvs; exact h.part hw
  | vector l elements => cases hvs; exact h.part hw
  | _ => cases hvs

end Everywhere

/-- **Induction over what a value contains**: what holds of a value if it holds of its parts, holds of
every value. -/
theorem parts_induction {motive : Value → Prop}
    (step : ∀ v, (∀ w ∈ v.parts, motive w) → motive v) (v : Value) : motive v := by
  have hv : v.Everywhere fun _ => True := .of_forall (fun _ => trivial) v
  induction hv with
  | intro _ _ ih => exact step _ ih

/-- A value contains another one at some depth; it contains itself too. -/
inductive Contains : Value → Value → Prop
  | refl (v : Value) : Contains v v
  | part {v w u : Value} : w ∈ v.parts → Contains w u → Contains v u

/-- **A property holds everywhere in a value just if it holds of all that the value contains.** -/
theorem everywhere_iff : v.Everywhere p ↔ ∀ w, v.Contains w → p w := by
  constructor
  · intro h w hw
    induction hw with
    | refl v => exact h.self
    | part hpart _ ih => exact ih (h.part hpart)
  · intro h
    induction v using parts_induction with
    | step v ih => exact .intro (h _ (.refl _)) fun w hw => ih w hw fun u hu => h u (.part hw hu)

theorem mem_of_pairs : ∀ {vs : List Value} {es : List (Value × Value)},
    pairs vs = .ok es → ∀ e ∈ es, e.1 ∈ vs ∧ e.2 ∈ vs
  | [], _, h => by cases h; simp
  | [_], _, h => by cases h
  | key :: value :: rest, es, h => by
    rw [pairs] at h
    cases hrest : pairs rest with
    | error v => rw [hrest] at h; cases h
    | ok es' =>
      rw [hrest] at h
      cases h
      intro e he
      rcases List.mem_cons.mp he with rfl | he
      · simp
      · have hmem := mem_of_pairs hrest e he
        simp [hmem]

/-- What holds everywhere in the elements of a sequence holds everywhere in its pairs. -/
theorem everywhere_pairs {vs : List Value} {es : List (Value × Value)} (h : pairs vs = .ok es)
    (hvs : ∀ v ∈ vs, v.Everywhere p) : ∀ e ∈ es, e.1.Everywhere p ∧ e.2.Everywhere p := by
  intro e he
  have hmem := mem_of_pairs h e he
  exact ⟨hvs _ hmem.1, hvs _ hmem.2⟩

end MiniLisp.Value
