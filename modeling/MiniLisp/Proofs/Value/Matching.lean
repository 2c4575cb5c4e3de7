import Mathlib.Data.List.Forall2
import MiniLisp.Proofs.Value.Everywhere
import MiniLisp.Store
import MiniLisp.Value.Equality
import MiniLisp.Value.Text

/-!
# Values that match

Two runs of a program may differ in things that the program cannot see: where its values stand, or
which numbers its functions are known by.  A `Correspondence` says which of these things go together,
and two values match if they are the same but for them, at any depth and also inside closures.

What the language can tell of a value is the same for matching values.

* `Value.Matches.equal_eq`: whether two values are equal.
* `Value.Matches.spell_eq`: how a value is printed.
* `Value.matches_self`: a value matches itself if its functions go with themselves.
* `Value.eq_of_matches`: if nothing may differ, matching values are the same.
-/

namespace MiniLisp

/-- What goes together in two runs: the locations, the identities of functions and the settings.  A
function of one run goes with one function of the other.  The second run is at most as strict as the
first. -/
structure Correspondence where
  location : Location → Location → Prop
  identity : FunctionId → FunctionId → Prop
  settings : Settings → Settings → Prop
  identity_iff : ∀ {i i' j j' : FunctionId}, identity i i' → identity j j' → (i = j ↔ i' = j')
  settings_default : settings .default .default
  strict_of_strict : ∀ {a b : Settings}, settings a b → b.strictArity = true → a.strictArity = true

/-- Functions that are the same in both runs go together one by one. -/
theorem eq_iff_of_eq {i i' j j' : FunctionId} (hi : i = i') (hj : j = j') : i = j ↔ i' = j' := by
  rw [hi, hj]

/-- Two pairs whose parts are related. -/
inductive Both {α : Type} (R : α → α → Prop) : α × α → α × α → Prop
  | mk {a a' b b' : α} : R a a' → R b b' → Both R (a, b) (a', b')

/-- Two values that are the same but for what goes together in a correspondence. -/
inductive Value.Matches (C : Correspondence) : Value → Value → Prop
  | list {l l' : Location} {vs vs' : List Value} : C.location l l' →
      List.Forall₂ (Value.Matches C) vs vs' → Matches C (.list l vs) (.list l' vs')
  | vector {l l' : Location} {vs vs' : List Value} : C.location l l' →
      List.Forall₂ (Value.Matches C) vs vs' → Matches C (.vector l vs) (.vector l' vs')
  | map {l l' : Location} {es es' : List (Value × Value)} : C.location l l' →
      List.Forall₂ (Both (Value.Matches C)) es es' → Matches C (.map l es) (.map l' es')
  | number {l l' : Location} (x : Float) : C.location l l' →
      Matches C (.number l x) (.number l' x)
  | symbol {l l' : Location} (name : String) : C.location l l' →
      Matches C (.symbol l name) (.symbol l' name)
  | keyword {l l' : Location} (name : String) : C.location l l' →
      Matches C (.keyword l name) (.keyword l' name)
  | string {l l' : Location} (text : String) : C.location l l' →
      Matches C (.string l text) (.string l' text)
  | bool {l l' : Location} (b : Bool) : C.location l l' → Matches C (.bool l b) (.bool l' b)
  | nil {l l' : Location} : C.location l l' → Matches C (.nil l) (.nil l')
  | primitive {l l' : Location} {i i' : FunctionId} (code : Primitive) : C.location l l' →
      C.identity i i' → Matches C (.primitive l i code) (.primitive l' i' code)
  | closure {l l' : Location} {i i' : FunctionId} (parameters : Parameters) {body body' : Value}
      (frame : FrameId) : C.location l l' → C.identity i i' → Matches C body body' →
      Matches C (.closure l i parameters body frame) (.closure l' i' parameters body' frame)
  | nop {l l' : Location} (message : String) : C.location l l' →
      Matches C (.nop l message) (.nop l' message)

namespace Value.Matches

variable {C : Correspondence} {u u' v v' : Value} {l l' : Location}

/-! ### What can be told of a value -/

theorem location (h : v.Matches C v') : C.location v.location v'.location := by
  cases h <;> assumption

theorem moveTo (h : v.Matches C v') (hl : C.location l l') :
    (v.moveTo l).Matches C (v'.moveTo l') := by
  cases h with
  | list _ hvs => exact .list hl hvs
  | vector _ hvs => exact .vector hl hvs
  | map _ hes => exact .map hl hes
  | number x _ => exact .number x hl
  | symbol name _ => exact .symbol name hl
  | keyword name _ => exact .keyword name hl
  | string text _ => exact .string text hl
  | bool b _ => exact .bool b hl
  | nil _ => exact .nil hl
  | primitive code _ hi => exact .primitive code hl hi
  | closure parameters frame _ hi hbody => exact .closure parameters frame hl hi hbody
  | nop message _ => exact .nop message hl

theorem tag_eq (h : v.Matches C v') : v.tag = v'.tag := by
  cases h <;> rfl

theorem number?_eq (h : v.Matches C v') : v.number? = v'.number? := by
  cases h <;> rfl

theorem symbol?_eq (h : v.Matches C v') : v.symbol? = v'.symbol? := by
  cases h <;> rfl

theorem isNop_eq (h : v.Matches C v') : v.isNop = v'.isNop := by
  cases h <;> rfl

theorem truthy_eq (h : v.Matches C v') : v.truthy = v'.truthy := by
  cases h <;> rfl

theorem elements? (h : v.Matches C v') :
    Option.Rel (List.Forall₂ (Matches C)) v.elements? v'.elements? := by
  cases h with
  | list _ hvs => exact .some hvs
  | vector _ hvs => exact .some hvs
  | _ => exact .none

/-! ### Equality and printing -/

theorem equalElements_eq {us us' vs vs' : List Value} (hu : List.Forall₂ (Matches C) us us')
    (ih : ∀ u ∈ us, ∀ {u' v v' : Value}, u.Matches C u' → v.Matches C v' →
      u.equal v = u'.equal v')
    (hv : List.Forall₂ (Matches C) vs vs') : equalElements us vs = equalElements us' vs' := by
  induction hu generalizing vs vs' with
  | nil => cases hv <;> rfl
  | cons hu hus ih' =>
    cases hv with
    | nil => rfl
    | cons hv hvs =>
      rw [equalElements, equalElements, ih _ List.mem_cons_self hu hv,
        ih' (fun u hu => ih u (List.mem_cons_of_mem _ hu)) hvs]

theorem equalEntries_eq {us us' vs vs' : List (Value × Value)}
    (hu : List.Forall₂ (Both (Matches C)) us us')
    (ih : ∀ e ∈ us, (∀ {u' v v' : Value}, e.1.Matches C u' → v.Matches C v' →
        e.1.equal v = u'.equal v') ∧
      ∀ {u' v v' : Value}, e.2.Matches C u' → v.Matches C v' → e.2.equal v = u'.equal v')
    (hv : List.Forall₂ (Both (Matches C)) vs vs') : equalEntries us vs = equalEntries us' vs' := by
  induction hu generalizing vs vs' with
  | nil => cases hv <;> rfl
  | cons hu hus ih' =>
    cases hv with
    | nil => rfl
    | cons hv hvs =>
      obtain ⟨hk, hu⟩ := hu
      obtain ⟨hl, hv⟩ := hv
      rw [equalEntries, equalEntries, (ih _ List.mem_cons_self).1 hk hl,
        (ih _ List.mem_cons_self).2 hu hv,
        ih' (fun e he => ih e (List.mem_cons_of_mem _ he)) hvs]

/-- **Matching values are equal to matching values alike.** -/
theorem equal_eq (hu : u.Matches C u') (hv : v.Matches C v') : u.equal v = u'.equal v' := by
  have beq_eq : ∀ {i i' j j' : FunctionId}, C.identity i i' → C.identity j j' →
      (i == j) = (i' == j') := by
    intro i i' j j' hi hj
    rw [Bool.eq_iff_iff, beq_iff_eq, beq_iff_eq]
    exact C.identity_iff hi hj
  induction u generalizing u' v v' with
  | list l us ih =>
    cases hu with
    | list _ hus =>
      cases hv with
      | list _ hvs => exact equalElements_eq hus ih hvs
      | _ => rfl
  | vector l us ih =>
    cases hu with
    | vector _ hus =>
      cases hv with
      | vector _ hvs => exact equalElements_eq hus ih hvs
      | _ => rfl
  | map l us ih =>
    cases hu with
    | map _ hus =>
      cases hv with
      | map _ hvs => exact equalEntries_eq hus ih hvs
      | _ => rfl
  | primitive l i code =>
    cases hu with
    | primitive _ _ hi =>
      cases hv with
      | primitive _ _ hj => exact beq_eq hi hj
      | closure _ _ _ hj _ => exact beq_eq hi hj
      | _ => rfl
  | closure l i parameters body frame =>
    cases hu with
    | closure _ _ _ hi _ =>
      cases hv with
      | primitive _ _ hj => exact beq_eq hi hj
      | closure _ _ _ hj _ => exact beq_eq hi hj
      | _ => rfl
  | _ => cases hu; cases hv <;> rfl

theorem map_spell_eq {vs vs' : List Value} (h : List.Forall₂ (Matches C) vs vs')
    (ih : ∀ v ∈ vs, ∀ {v' : Value}, v.Matches C v' → v.spell = v'.spell) :
    vs.map spell = vs'.map spell := by
  induction h with
  | nil => rfl
  | cons hv hvs ih' =>
    rw [List.map_cons, List.map_cons, ih _ List.mem_cons_self hv,
      ih' fun v hv => ih v (List.mem_cons_of_mem _ hv)]

/-- **Matching values are printed alike.** -/
theorem spell_eq (h : v.Matches C v') : v.spell = v'.spell := by
  induction v generalizing v' with
  | list l vs ih =>
    cases h with
    | list _ hvs => rw [spell_list, spell_list, map_spell_eq hvs ih]
  | vector l vs ih =>
    cases h with
    | vector _ hvs => rw [spell_vector, spell_vector, map_spell_eq hvs ih]
  | map l es ih =>
    cases h with
    | @map _ _ _ es' _ hes =>
      have hflat : List.Forall₂ (Matches C) (es.flatMap fun e => [e.1, e.2])
          (es'.flatMap fun e => [e.1, e.2]) := by
        clear ih
        induction hes with
        | nil => exact .nil
        | cons he _ ih =>
          obtain ⟨hk, hv⟩ := he
          exact .cons hk (.cons hv ih)
      rw [spell_map, spell_map, map_spell_eq hflat]
      intro v hv
      obtain ⟨e, he, hv⟩ := List.mem_flatMap.mp hv
      rcases List.mem_pair.mp hv with rfl | rfl
      · exact (ih e he).1
      · exact (ih e he).2
  | _ => cases h; rfl

end Value.Matches

/-! ### Where nothing may differ -/

/-- A value matches itself if its functions go with themselves. -/
theorem Value.matches_self {C : Correspondence} (hl : ∀ l, C.location l l) {v : Value}
    (hv : v.Everywhere fun w => ∀ i, w.identity? = some i → C.identity i i) : v.Matches C v := by
  induction hv with
  | @intro v hi _ ih =>
    cases v with
    | list l vs => exact .list (hl l) (List.forall₂_same.mpr ih)
    | vector l vs => exact .vector (hl l) (List.forall₂_same.mpr ih)
    | map l es =>
      refine .map (hl l) (List.forall₂_same.mpr fun e he => ?_)
      exact .mk (ih _ (mem_parts_map.mpr ⟨e, he, Or.inl rfl⟩))
        (ih _ (mem_parts_map.mpr ⟨e, he, Or.inr rfl⟩))
    | number l x => exact .number x (hl l)
    | symbol l name => exact .symbol name (hl l)
    | keyword l name => exact .keyword name (hl l)
    | string l text => exact .string text (hl l)
    | bool l b => exact .bool b (hl l)
    | nil l => exact .nil (hl l)
    | primitive l i code => exact .primitive code (hl l) (hi i rfl)
    | closure l i parameters body frame =>
      exact .closure parameters frame (hl l) (hi i rfl) (ih body List.mem_cons_self)
    | nop l message => exact .nop message (hl l)

theorem Value.matches_refl {C : Correspondence} (hl : ∀ l, C.location l l)
    (hi : ∀ i, C.identity i i) (v : Value) : v.Matches C v :=
  matches_self hl (Everywhere.of_forall (fun _ i _ => hi i) v)

theorem eq_of_forall₂ {α : Type} {R : α → α → Prop} {as as' : List α} (h : List.Forall₂ R as as')
    (hR : ∀ a ∈ as, ∀ {a'}, R a a' → a = a') : as = as' := by
  induction h with
  | nil => rfl
  | cons ha _ ih =>
    rw [hR _ List.mem_cons_self ha, ih fun a ha => hR a (List.mem_cons_of_mem _ ha)]

theorem Value.eq_of_matches {C : Correspondence} (hl : ∀ {l l'}, C.location l l' → l = l')
    (hi : ∀ {i i'}, C.identity i i' → i = i') {v v' : Value} (h : v.Matches C v') : v = v' := by
  induction v generalizing v' with
  | list l vs ih =>
    cases h with
    | list h hvs => rw [hl h, eq_of_forall₂ hvs ih]
  | vector l vs ih =>
    cases h with
    | vector h hvs => rw [hl h, eq_of_forall₂ hvs ih]
  | map l es ih =>
    cases h with
    | map h hes =>
      rw [hl h, eq_of_forall₂ hes]
      intro e he e' hee'
      obtain ⟨hk, hv⟩ := hee'
      exact Prod.ext ((ih _ he).1 hk) ((ih _ he).2 hv)
  | number l x =>
    cases h with
    | number x h => rw [hl h]
  | symbol l name =>
    cases h with
    | symbol name h => rw [hl h]
  | keyword l name =>
    cases h with
    | keyword name h => rw [hl h]
  | string l text =>
    cases h with
    | string text h => rw [hl h]
  | bool l b =>
    cases h with
    | bool b h => rw [hl h]
  | nil l =>
    cases h with
    | nil h => rw [hl h]
  | primitive l i code =>
    cases h with
    | primitive code h hid => rw [hl h, hi hid]
  | closure l i parameters body frame ih =>
    cases h with
    | closure parameters frame h hid hbody => rw [hl h, hi hid, ih hbody]
  | nop l message =>
    cases h with
    | nop message h => rw [hl h]

end MiniLisp
