import MiniLisp.Proofs.Session.Orderly

/-!
# Shadowing

A lookup goes up the parents of a frame and takes the first binding that it meets.  So a new binding is
found from a frame exactly if the way up from there comes to it before any other binding of the name.
From all other frames, be they farther up, on another branch, or below a nearer binding, each name keeps
its value.

* `Store.Exposed`: a frame on the way up that no nearer one hides.
* `Store.find?_insert`: **what is found after a name was bound**, from any frame.
* `read_over_write`: the same for symbols, and what else can come of looking up and binding.
-/

namespace MiniLisp

open Eval

theorem Value.symbol?_eq_none_iff {v : Value} : v.symbol? = none ↔ v.tag ≠ .symbol := by
  cases v <;> simp [symbol?, tag]

namespace Store

variable {s : Store} {x y : String} {f g i : FrameId} {way : List FrameId} {l : Location}

/-! ### The way up -/

/-- Lookups go through frames of the store only. -/
theorem lt_size_of_mem_chain (hi : i ∈ s.chain g) : i < s.frames.size :=
  Nat.lt_of_le_of_lt (le_of_mem_chain hi) (start_lt_size hi)

/-- Binding a name changes no parent. -/
theorem chain_insert (s : Store) (f : FrameId) (x : String) (v : Value) (g : FrameId) :
    (s.insert f x v).chain g = s.chain g := by
  by_cases hg : g < s.frames.size
  · exact (s.grows_insert f x v).chain_eq hg
  · have hsize := Nat.le_of_not_lt hg
    rw [chain_eq_nil hsize, chain_eq_nil (by rwa [size_insert])]

theorem find?_eq_none_iff :
    s.find? g x = none ↔ ∀ i ∈ s.chain g, s.binding? i x = none := by
  rw [find?_eq_findSome?, List.findSome?_eq_none_iff]

/-! ### Nearer bindings -/

/-- A frame lies on a way up, and no frame before it binds a name. -/
def Exposed (s : Store) (x : String) (f : FrameId) (way : List FrameId) : Prop :=
  ∃ nearer farther, way = nearer ++ f :: farther ∧ ∀ i ∈ nearer, s.binding? i x = none

theorem not_exposed_nil : ¬ s.Exposed x f [] := by
  rintro ⟨nearer, farther, hway, _⟩
  cases nearer <;> cases hway

/-- One step up: a frame is exposed from itself, and from below wherever the name is not bound. -/
theorem exposed_cons :
    s.Exposed x f (i :: way) ↔ i = f ∨ s.binding? i x = none ∧ s.Exposed x f way := by
  constructor
  · rintro ⟨nearer, farther, hway, hnone⟩
    cases nearer with
    | nil =>
      cases hway
      exact Or.inl rfl
    | cons j nearer =>
      cases hway
      obtain ⟨hi, hnearer⟩ := List.forall_mem_cons.mp hnone
      exact Or.inr ⟨hi, nearer, farther, rfl, hnearer⟩
  · rintro (rfl | ⟨hi, nearer, farther, rfl, hnearer⟩)
    · exact ⟨[], way, rfl, by simp⟩
    · exact ⟨i :: nearer, farther, rfl, List.forall_mem_cons.mpr ⟨hi, hnearer⟩⟩

instance decidableExposed (s : Store) (x : String) (f : FrameId) :
    ∀ way, Decidable (s.Exposed x f way)
  | [] => isFalse not_exposed_nil
  | _ :: way =>
    have := decidableExposed s x f way
    decidable_of_iff _ exposed_cons.symm

/-! ### Reading after writing -/

/-- The nearest binding of the name that was bound anew. -/
theorem findSome?_insert_self (v : Value) (hway : ∀ i ∈ way, i < s.frames.size) :
    (way.findSome? fun i => (s.insert f x v).binding? i x) =
      if s.Exposed x f way then some v else way.findSome? fun i => s.binding? i x := by
  induction way with
  | nil => rw [if_neg not_exposed_nil]; rfl
  | cons i way ih =>
    obtain ⟨hi, hway⟩ := List.forall_mem_cons.mp hway
    rw [List.findSome?_cons, List.findSome?_cons, binding?_insert, ih hway]
    by_cases hif : i = f
    · subst hif
      rw [if_pos ⟨rfl, rfl, hi⟩, if_pos (exposed_cons.mpr (Or.inl rfl))]
    · rw [if_neg fun h => hif h.1]
      cases hbinding : s.binding? i x with
      | none =>
        -- The frame is passed by, before and after.
        have hpassed : s.Exposed x f (i :: way) ↔ s.Exposed x f way := by
          simp [exposed_cons, hbinding, hif]
        simp only [hpassed]
      | some w =>
        -- The frame binds the name, so it hides all that is farther up.
        have hhidden : ¬ s.Exposed x f (i :: way) := by
          simp [exposed_cons, hbinding, hif]
        rw [if_neg hhidden]

/-- **What is found after a name was bound**: the new value, if the name is asked for and its frame is
exposed, and what was found before in all other cases. -/
theorem find?_insert (s : Store) (f g : FrameId) (x y : String) (v : Value) :
    (s.insert f x v).find? g y =
      if y = x ∧ s.Exposed x f (s.chain g) then some v else s.find? g y := by
  rw [find?_eq_findSome?, find?_eq_findSome?, chain_insert]
  by_cases hy : y = x
  · subst hy
    rw [findSome?_insert_self v fun i hi => lt_size_of_mem_chain hi]
    simp only [true_and]
  · have hsame : ∀ i, (s.insert f x v).binding? i y = s.binding? i y := by
      intro i
      rw [binding?_insert, if_neg fun h => hy h.2.1]
    simp only [hsame, hy, false_and, if_false]

/-! ### Symbols -/

theorem get_symbol (s : Store) (g : FrameId) (l : Location) (y : String) :
    s.get g (.symbol l y) =
      match s.find? g y with
      | some v => .ok (v.moveTo l)
      | none => .error ⟨.undefinedSymbol y, l⟩ := rfl

theorem get_symbol_eq_ok_iff {w : Value} :
    s.get g (.symbol l y) = .ok w ↔ ∃ u, s.find? g y = some u ∧ w = u.moveTo l := by
  rw [get_symbol]
  cases s.find? g y with
  | none => simp
  | some u => simp [eq_comm]

/-- A symbol has no value exactly if no frame on the way up binds it. -/
theorem get_symbol_eq_error_iff {e : Fault} :
    s.get g (.symbol l y) = .error e ↔
      e = ⟨.undefinedSymbol y, l⟩ ∧ ∀ i ∈ s.chain g, s.binding? i y = none := by
  rw [← find?_eq_none_iff, get_symbol]
  cases s.find? g y with
  | none => simp [eq_comm]
  | some u => simp

theorem get_symbol_insert (s : Store) (f g : FrameId) (x y : String) (v : Value) (l : Location) :
    (s.insert f x v).get g (.symbol l y) =
      if y = x ∧ s.Exposed x f (s.chain g) then .ok (v.moveTo l) else s.get g (.symbol l y) := by
  rw [get_symbol, get_symbol, find?_insert]
  by_cases h : y = x ∧ s.Exposed x f (s.chain g)
  · rw [if_pos h, if_pos h]
  · rw [if_neg h, if_neg h]

end Store

/-! ### Other values -/

section

variable {key : Value} (hkey : key.tag ≠ .symbol) (f : FrameId) (m : Machine)

include hkey

theorem run_lookup_of_tag_ne :
    (lookup f key).run m =
      (.error (.failed (.fault ⟨.typeMismatch "get" .symbol key.tag, key.location⟩)), m) := by
  have hget : m.store.get f key = .error ⟨.typeMismatch "get" .symbol key.tag, key.location⟩ := by
    rw [Store.get, Value.symbol?_eq_none_iff.mpr hkey]
    rfl
  show (lift (m.store.get f key)).run m = _
  rw [hget]
  rfl

theorem run_set_of_tag_ne (v : Value) (depth : Nat) :
    ((Operation.set f key v).evaluation depth).run m =
      (.error (.failed (.fault ⟨.typeMismatch "set" .symbol key.tag, key.location⟩)), m) := by
  have hset : m.store.set f key v = .error ⟨.typeMismatch "set" .symbol key.tag, key.location⟩ := by
    rw [Store.set, Value.symbol?_eq_none_iff.mpr hkey]
    rfl
  show (lift (m.store.set f key v) >>= _).run m = _
  rw [hset]
  rfl

end

/-- **Reading after writing.**  Take any store and any two frames.  If every parent is an older frame,
the chain of a frame consists of its parents as they are recorded, up to one that has none.  After a
name was bound in the first frame, a lookup from the second one finds the new value if it is for that
name, the first frame lies on the chain of the second, and no frame on the chain before it binds the
name; in every other case it finds what it found before.  A symbol has the value that is found, located
where the symbol stands, and is reported as undefined there exactly if no frame on the chain binds it.
Binding a symbol is binding its name.  With any other value, both binding and looking up fail, and
nothing changes. -/
theorem read_over_write (s : Store) (f g : FrameId) (x y : String) (v : Value) :
    (s.Founded → g < s.frames.size → s.Ascends g (s.chain g)) ∧
    (s.insert f x v).find? g y =
      (if y = x ∧ s.Exposed x f (s.chain g) then some v else s.find? g y) ∧
    (∀ l, (s.insert f x v).get g (.symbol l y) =
      if y = x ∧ s.Exposed x f (s.chain g) then .ok (v.moveTo l) else s.get g (.symbol l y)) ∧
    (∀ l w, s.get g (.symbol l y) = .ok w ↔ ∃ u, s.find? g y = some u ∧ w = u.moveTo l) ∧
    (∀ l e, s.get g (.symbol l y) = .error e ↔
      e = ⟨.undefinedSymbol y, l⟩ ∧ ∀ i ∈ s.chain g, s.binding? i y = none) ∧
    (∀ l, s.set f (.symbol l x) v = .ok (s.insert f x v)) ∧
    ∀ (key : Value) (depth : Nat) (log : List Event), key.tag ≠ .symbol →
      (lookup g key).run ⟨s, log⟩ =
        (.error (.failed (.fault ⟨.typeMismatch "get" .symbol key.tag, key.location⟩)), ⟨s, log⟩) ∧
      ((Operation.set f key v).evaluation depth).run ⟨s, log⟩ =
        (.error (.failed (.fault ⟨.typeMismatch "set" .symbol key.tag, key.location⟩)), ⟨s, log⟩) := by
  refine ⟨fun hs hg => hs.ascends_chain hg, s.find?_insert f g x y v, s.get_symbol_insert f g x y v,
    fun l w => Store.get_symbol_eq_ok_iff, fun l e => Store.get_symbol_eq_error_iff, fun l => rfl, ?_⟩
  intro key depth log hkey
  exact ⟨run_lookup_of_tag_ne hkey g _, run_set_of_tag_ne hkey f _ v depth⟩

/-- A tree with two branches under the root.  A name is bound anew in the root.  One branch, which binds
it too, keeps its value; the other one sees the new value.  A keyword cannot be bound. -/
theorem read_over_write_branches :
    ∃ s : Store, s.Founded ∧ s.Ascends 2 [2, 1, 0] ∧ s.Ascends 3 [3, 0] ∧
      (s.insert 0 "x" (.keyword ⟨1, 1⟩ "new")).find? 2 "x" = some (.keyword ⟨1, 1⟩ "near") ∧
      (s.insert 0 "x" (.keyword ⟨1, 1⟩ "new")).find? 3 "x" = some (.keyword ⟨1, 1⟩ "new") ∧
      (s.insert 0 "x" (.keyword ⟨1, 1⟩ "new")).get 3 (.symbol ⟨4, 2⟩ "x") =
        .ok (.keyword ⟨4, 2⟩ "new") ∧
      s.get 3 (.symbol ⟨4, 2⟩ "y") = .error ⟨.undefinedSymbol "y", ⟨4, 2⟩⟩ ∧
      ((Operation.set 3 (.keyword ⟨4, 2⟩ "k") (.nil ⟨1, 1⟩)).evaluation 0).run ⟨s, []⟩ =
        (.error (.failed (.fault ⟨.typeMismatch "set" .symbol .keyword, ⟨4, 2⟩⟩)), ⟨s, []⟩) := by
  obtain ⟨s, hs⟩ : ∃ s, s = (((((Store.fresh .default).spawn 0).2.spawn 1).2.spawn 0).2.insert 0 "x"
      (.keyword ⟨1, 1⟩ "far")).insert 1 "x" (.keyword ⟨1, 1⟩ "near") := ⟨_, rfl⟩
  have hfounded : s.Founded := by
    have hrooted : (((Store.fresh .default).spawn 0).2.spawn 1).2.Rooted .default :=
      ((Store.rooted_fresh .default).spawn (by decide)).spawn (by decide)
    rw [hs]
    exact (((hrooted.spawn (by decide)).insert 0 "x" _).insert 1 "x" _).founded
  have hsize : s.frames.size = 4 := by rw [hs]; rfl
  have hchain₂ : s.chain 2 = [2, 1, 0] := by rw [hs]; cbv
  have hchain₃ : s.chain 3 = [3, 0] := by rw [hs]; cbv
  have hhidden : ¬ s.Exposed "x" 0 [2, 1, 0] := by rw [hs]; decide +kernel
  have hexposed : s.Exposed "x" 0 [3, 0] := by rw [hs]; decide +kernel
  have hbefore : s.find? 2 "x" = some (.keyword ⟨1, 1⟩ "near") := by rw [hs]; cbv
  have hunbound : ∀ i ∈ [3, 0], s.binding? i "y" = none := by rw [hs]; decide +kernel
  obtain ⟨hup₂, hfind₂, _⟩ := read_over_write s 0 2 "x" "x" (.keyword ⟨1, 1⟩ "new")
  obtain ⟨hup₃, hfind₃, hget₃, _⟩ := read_over_write s 0 3 "x" "x" (.keyword ⟨1, 1⟩ "new")
  obtain ⟨_, _, _, _, hundefined, _, hother⟩ := read_over_write s 3 3 "x" "y" (.nil ⟨1, 1⟩)
  rw [hchain₂] at hup₂ hfind₂
  rw [hchain₃] at hup₃ hfind₃ hundefined
  refine ⟨s, hfounded, hup₂ hfounded (by rw [hsize]; decide), hup₃ hfounded (by rw [hsize]; decide),
    ?_, ?_, ?_, (hundefined _ _).mpr ⟨rfl, hunbound⟩, (hother _ 0 [] (by decide)).2⟩
  · rw [hfind₂, if_neg fun h => hhidden h.2, hbefore]
  · rw [hfind₃, if_pos ⟨rfl, hexposed⟩]
  · rw [hget₃, hchain₃, if_pos ⟨rfl, hexposed⟩]
    rfl

end MiniLisp
