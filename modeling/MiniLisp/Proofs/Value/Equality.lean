import MiniLisp.Proofs.Decimal.Double
import MiniLisp.Proofs.Eval.Matching
import MiniLisp.Proofs.Reader.Relocation

/-!
# The laws of equality

Equality of values goes down through lists, vectors and hash-maps in step, compares functions by
their identity and numbers as doubles, and never looks at a location.  So it is symmetric and
transitive, and a value fails to be equal to itself only because of a part that is not a number.  A
function is not looked into: what its body contains does not count.

* `Value.equal_iff_sameContents`: what two equal values have in common, one level down.
* `Value.equal_symm`, `Value.equal_trans`: equality goes both ways, and from one value to the next.
* `Value.equal_self_iff`: **a value is equal to itself just if no part of it is not a number**.
* `Value.equal_of_bare_eq`: values that differ in nothing but locations are equal.
* `equality_laws`: all of them together.
-/

namespace MiniLisp

/-! ### Rows in step -/

theorem forall₂_symm {α : Type} {R : α → α → Prop} {as bs : List α} (h : List.Forall₂ R as bs)
    (hR : ∀ a ∈ as, ∀ {b}, R a b → R b a) : List.Forall₂ R bs as := by
  induction h with
  | nil => exact .nil
  | cons ha _ ih =>
    exact .cons (hR _ List.mem_cons_self ha) (ih fun a ha => hR a (List.mem_cons_of_mem _ ha))

theorem forall₂_trans {α : Type} {R : α → α → Prop} {as bs cs : List α} (h : List.Forall₂ R as bs)
    (h' : List.Forall₂ R bs cs) (hR : ∀ a ∈ as, ∀ {b c}, R a b → R b c → R a c) :
    List.Forall₂ R as cs := by
  induction h generalizing cs with
  | nil => exact h'
  | cons ha _ ih =>
    cases h' with
    | cons hb hbs =>
      exact .cons (hR _ List.mem_cons_self ha hb)
        (ih hbs fun a ha => hR a (List.mem_cons_of_mem _ ha))

namespace Value

/-! ### One level down -/

/-- Equality as a relation. -/
def Equals (u v : Value) : Prop :=
  u.equal v = true

theorem equalElements_iff {us vs : List Value} :
    equalElements us vs = true ↔ List.Forall₂ Equals us vs := by
  induction us generalizing vs with
  | nil =>
    cases vs with
    | nil => exact iff_of_true rfl .nil
    | cons v vs => exact iff_of_false nofun nofun
  | cons u us ih =>
    cases vs with
    | nil => exact iff_of_false nofun nofun
    | cons v vs =>
      rw [equalElements, Bool.and_eq_true, List.forall₂_cons, ih]
      rfl

theorem equalEntries_iff {es fs : List (Value × Value)} :
    equalEntries es fs = true ↔ List.Forall₂ (Both Equals) es fs := by
  induction es generalizing fs with
  | nil =>
    cases fs with
    | nil => exact iff_of_true rfl .nil
    | cons f fs => exact iff_of_false nofun nofun
  | cons e es ih =>
    cases fs with
    | nil => exact iff_of_false nofun nofun
    | cons f fs =>
      obtain ⟨k, u⟩ := e
      obtain ⟨l, v⟩ := f
      rw [equalEntries, Bool.and_eq_true, Bool.and_eq_true, List.forall₂_cons, ih]
      refine and_congr_left fun _ => ⟨fun h => .mk h.1 h.2, ?_⟩
      rintro ⟨hk, hu⟩
      exact ⟨hk, hu⟩

/-- Two values of one kind with equal contents. -/
inductive SameContents : Value → Value → Prop
  | list {l l' : Location} {us vs : List Value} : List.Forall₂ Equals us vs →
      SameContents (.list l us) (.list l' vs)
  | vector {l l' : Location} {us vs : List Value} : List.Forall₂ Equals us vs →
      SameContents (.vector l us) (.vector l' vs)
  | map {l l' : Location} {es fs : List (Value × Value)} : List.Forall₂ (Both Equals) es fs →
      SameContents (.map l es) (.map l' fs)
  | number {l l' : Location} {x y : Float} : (x == y) = true →
      SameContents (.number l x) (.number l' y)
  | symbol {l l' : Location} (name : String) : SameContents (.symbol l name) (.symbol l' name)
  | keyword {l l' : Location} (name : String) : SameContents (.keyword l name) (.keyword l' name)
  | string {l l' : Location} (text : String) : SameContents (.string l text) (.string l' text)
  | bool {l l' : Location} (b : Bool) : SameContents (.bool l b) (.bool l' b)
  | nil {l l' : Location} : SameContents (.nil l) (.nil l')
  | function {u v : Value} {i : FunctionId} : u.identity? = some i → v.identity? = some i →
      SameContents u v
  | nop {l l' : Location} (message : String) : SameContents (.nop l message) (.nop l' message)

theorem sameContents_of_equal {u v : Value} (h : u.equal v = true) : SameContents u v := by
  -- Values of two kinds are not equal, and functions of both sorts are of one kind.
  cases u with
  | list l us =>
    cases v with
    | list l' vs => exact .list (equalElements_iff.mp h)
    | _ => cases h
  | vector l us =>
    cases v with
    | vector l' vs => exact .vector (equalElements_iff.mp h)
    | _ => cases h
  | map l es =>
    cases v with
    | map l' fs => exact .map (equalEntries_iff.mp h)
    | _ => cases h
  | number l x =>
    cases v with
    | number l' y => exact .number h
    | _ => cases h
  | symbol l x =>
    cases v with
    | symbol l' y => cases eq_of_beq (α := String) h; exact .symbol x
    | _ => cases h
  | keyword l x =>
    cases v with
    | keyword l' y => cases eq_of_beq (α := String) h; exact .keyword x
    | _ => cases h
  | string l x =>
    cases v with
    | string l' y => cases eq_of_beq (α := String) h; exact .string x
    | _ => cases h
  | bool l b =>
    cases v with
    | bool l' c => cases eq_of_beq (α := Bool) h; exact .bool b
    | _ => cases h
  | nil l =>
    cases v with
    | nil l' => exact .nil
    | _ => cases h
  | primitive l i code =>
    cases v with
    | primitive l' j code' => cases eq_of_beq (α := FunctionId) h; exact .function rfl rfl
    | closure l' j parameters body frame =>
      cases eq_of_beq (α := FunctionId) h; exact .function rfl rfl
    | _ => cases h
  | closure l i parameters body frame =>
    cases v with
    | primitive l' j code => cases eq_of_beq (α := FunctionId) h; exact .function rfl rfl
    | closure l' j parameters' body' frame' =>
      cases eq_of_beq (α := FunctionId) h; exact .function rfl rfl
    | _ => cases h
  | nop l x =>
    cases v with
    | nop l' y => cases eq_of_beq (α := String) h; exact .nop x
    | _ => cases h

theorem SameContents.equal {u v : Value} (h : SameContents u v) : u.equal v = true := by
  cases h with
  | list h => exact equalElements_iff.mpr h
  | vector h => exact equalElements_iff.mpr h
  | map h => exact equalEntries_iff.mpr h
  | number h => exact h
  | symbol name => exact beq_self_eq_true name
  | keyword name => exact beq_self_eq_true name
  | string text => exact beq_self_eq_true text
  | bool b => exact beq_self_eq_true b
  | nil => rfl
  | function hu hv =>
    cases u <;> cases hu <;> cases v <;> cases hv <;> exact beq_self_eq_true (α := FunctionId) _
  | nop message => exact beq_self_eq_true message

/-- **Equal values are of one kind and have equal contents.** -/
theorem equal_iff_sameContents {u v : Value} : u.equal v = true ↔ SameContents u v :=
  ⟨sameContents_of_equal, SameContents.equal⟩

/-! ### Symmetry and transitivity -/

theorem SameContents.symm {u v : Value} (h : SameContents u v)
    (ih : ∀ w ∈ u.parts, ∀ {w'}, w.Equals w' → w'.Equals w) : SameContents v u := by
  cases h with
  | list h => exact .list (forall₂_symm h ih)
  | vector h => exact .vector (forall₂_symm h ih)
  | map h =>
    refine .map (forall₂_symm h fun e he f hef => ?_)
    obtain ⟨hk, hv⟩ := hef
    exact .mk (ih _ (mem_parts_map.mpr ⟨_, he, Or.inl rfl⟩) hk)
      (ih _ (mem_parts_map.mpr ⟨_, he, Or.inr rfl⟩) hv)
  | number h => exact .number (BEq.symm h)
  | symbol name => exact .symbol name
  | keyword name => exact .keyword name
  | string text => exact .string text
  | bool b => exact .bool b
  | nil => exact .nil
  | function hu hv => exact .function hv hu
  | nop message => exact .nop message

/-- **Equality goes both ways.** -/
theorem equal_symm {u v : Value} (h : u.equal v = true) : v.equal u = true := by
  induction u using parts_induction generalizing v with
  | step u ih => exact ((equal_iff_sameContents.mp h).symm fun w hw _ => ih w hw).equal

theorem SameContents.trans {u v w : Value} (h : SameContents u v) (h' : SameContents v w)
    (ih : ∀ a ∈ u.parts, ∀ {b c}, a.Equals b → b.Equals c → a.Equals c) : SameContents u w := by
  cases h with
  | list h =>
    cases h' with
    | list h' => exact .list (forall₂_trans h h' ih)
    | function hv _ => cases hv
  | vector h =>
    cases h' with
    | vector h' => exact .vector (forall₂_trans h h' ih)
    | function hv _ => cases hv
  | map h =>
    cases h' with
    | map h' =>
      refine .map (forall₂_trans h h' fun d hd e f hde hef => ?_)
      obtain ⟨hk, hv⟩ := hde
      obtain ⟨hk', hv'⟩ := hef
      exact .mk (ih _ (mem_parts_map.mpr ⟨_, hd, Or.inl rfl⟩) hk hk')
        (ih _ (mem_parts_map.mpr ⟨_, hd, Or.inr rfl⟩) hv hv')
    | function hv _ => cases hv
  | number h =>
    cases h' with
    | number h' => exact .number (BEq.trans h h')
    | function hv _ => cases hv
  | function hu hv =>
    cases h' with
    | function hv' hw =>
      cases hv.symm.trans hv'
      exact .function hu hw
    | _ => cases hv
  -- The contents of the other kinds are the same, so what holds of one value holds of the other.
  | symbol name =>
    cases h' with
    | symbol name => exact .symbol name
    | function hv _ => cases hv
  | keyword name =>
    cases h' with
    | keyword name => exact .keyword name
    | function hv _ => cases hv
  | string text =>
    cases h' with
    | string text => exact .string text
    | function hv _ => cases hv
  | bool b =>
    cases h' with
    | bool b => exact .bool b
    | function hv _ => cases hv
  | nil =>
    cases h' with
    | nil => exact .nil
    | function hv _ => cases hv
  | nop message =>
    cases h' with
    | nop message => exact .nop message
    | function hv _ => cases hv

/-- **Equality goes from one value to the next.** -/
theorem equal_trans {u v w : Value} (h : u.equal v = true) (h' : v.equal w = true) :
    u.equal w = true := by
  induction u using parts_induction generalizing v w with
  | step u ih =>
    exact ((equal_iff_sameContents.mp h).trans (equal_iff_sameContents.mp h')
      fun a ha _ _ => ih a ha).equal

instance : PartialEquivBEq Value where
  symm := equal_symm
  trans := equal_trans

/-! ### Values that are not equal to themselves -/

/-- A value that is not a number, or that has such a one in it: in a list, in a vector, or among the
keys and values of a hash-map. -/
inductive ContainsNaN : Value → Prop
  | number {l : Location} {x : Float} : x.isNaN = true → ContainsNaN (.number l x)
  | list {l : Location} {vs : List Value} {v : Value} : v ∈ vs → ContainsNaN v →
      ContainsNaN (.list l vs)
  | vector {l : Location} {vs : List Value} {v : Value} : v ∈ vs → ContainsNaN v →
      ContainsNaN (.vector l vs)
  | key {l : Location} {es : List (Value × Value)} {e : Value × Value} : e ∈ es →
      ContainsNaN e.1 → ContainsNaN (.map l es)
  | value {l : Location} {es : List (Value × Value)} {e : Value × Value} : e ∈ es →
      ContainsNaN e.2 → ContainsNaN (.map l es)

theorem equalElements_self_iff {vs : List Value} :
    equalElements vs vs = true ↔ ∀ v ∈ vs, v.equal v = true := by
  rw [equalElements_iff, List.forall₂_same]
  rfl

theorem equalEntries_self_iff {es : List (Value × Value)} :
    equalEntries es es = true ↔ ∀ e ∈ es, e.1.equal e.1 = true ∧ e.2.equal e.2 = true := by
  rw [equalEntries_iff, List.forall₂_same]
  refine forall₂_congr fun e _ => ⟨?_, fun h => .mk h.1 h.2⟩
  rintro ⟨hk, hv⟩
  exact ⟨hk, hv⟩

/-- **A value is equal to itself just if no part of it is not a number.** -/
theorem equal_self_iff {v : Value} : v.equal v = true ↔ ¬ v.ContainsNaN := by
  induction v with
  | list l vs ih =>
    refine equalElements_self_iff.trans ⟨fun h hnan => ?_, fun h v hv => ?_⟩
    · cases hnan with
      | list hv hnan => exact (ih _ hv).mp (h _ hv) hnan
    · exact (ih v hv).mpr fun hnan => h (.list hv hnan)
  | vector l vs ih =>
    refine equalElements_self_iff.trans ⟨fun h hnan => ?_, fun h v hv => ?_⟩
    · cases hnan with
      | vector hv hnan => exact (ih _ hv).mp (h _ hv) hnan
    · exact (ih v hv).mpr fun hnan => h (.vector hv hnan)
  | map l es ih =>
    refine equalEntries_self_iff.trans ⟨fun h hnan => ?_, fun h e he => ⟨?_, ?_⟩⟩
    · cases hnan with
      | key he hnan => exact (ih _ he).1.mp (h _ he).1 hnan
      | value he hnan => exact (ih _ he).2.mp (h _ he).2 hnan
    · exact (ih e he).1.mpr fun hnan => h (.key he hnan)
    · exact (ih e he).2.mpr fun hnan => h (.value he hnan)
  | number l x =>
    refine Decimal.beq_self_iff.trans ⟨fun h hnan => ?_, fun h => ?_⟩
    · cases hnan with
      | number hx => rw [h] at hx; cases hx
    · exact Bool.eq_false_iff.mpr fun hx => h (.number hx)
  | symbol l name => exact iff_of_true (SameContents.symbol name).equal nofun
  | keyword l name => exact iff_of_true (SameContents.keyword name).equal nofun
  | string l text => exact iff_of_true (SameContents.string text).equal nofun
  | bool l b => exact iff_of_true (SameContents.bool b).equal nofun
  | nil l => exact iff_of_true rfl nofun
  | primitive l i code => exact iff_of_true (SameContents.function rfl rfl).equal nofun
  | closure l i parameters body frame =>
    exact iff_of_true (SameContents.function rfl rfl).equal nofun
  | nop l message => exact iff_of_true (SameContents.nop message).equal nofun

/-! ### Locations -/

/-- A relocated value is the same but for locations. -/
theorem matches_relocate (f : Location → Location) (v : Value) :
    (v.relocate f).Matches .places v := by
  induction v with
  | list l vs ih =>
    rw [relocate_list]
    exact .list trivial (List.forall₂_map_left_iff.mpr (List.forall₂_same.mpr ih))
  | vector l vs ih =>
    rw [relocate_vector]
    exact .vector trivial (List.forall₂_map_left_iff.mpr (List.forall₂_same.mpr ih))
  | map l es ih =>
    rw [relocate_map]
    refine .map trivial (List.forall₂_map_left_iff.mpr (List.forall₂_same.mpr fun e he => ?_))
    exact .mk (ih e he).1 (ih e he).2
  | number l x => exact .number x trivial
  | symbol l name => exact .symbol name trivial
  | keyword l name => exact .keyword name trivial
  | string l text => exact .string text trivial
  | bool l b => exact .bool b trivial
  | nil l => exact .nil trivial
  | primitive l i code => exact .primitive code trivial rfl
  | closure l i parameters body frame ih => exact .closure parameters frame trivial rfl ih
  | nop l message => exact .nop message trivial

/-- A value without its locations. -/
def bare (v : Value) : Value :=
  v.relocate fun _ => .start

theorem bare_list (l : Location) (vs : List Value) :
    (list l vs).bare = list .start (vs.map bare) :=
  relocate_list _ l vs

/-- **Values that differ in nothing but locations are equal**, unless they contain what is not a
number. -/
theorem equal_of_bare_eq {u v : Value} (h : u.bare = v.bare) (hv : ¬ v.ContainsNaN) :
    u.equal v = true := by
  have hu : v.bare.Matches .places u := by
    rw [← h]
    exact matches_relocate _ u
  have hself : v.bare.Matches .places v := matches_relocate _ v
  calc u.equal v = v.bare.equal v.bare := (hu.equal_eq hself).symm
    _ = v.equal v := hself.equal_eq hself
    _ = true := equal_self_iff.mpr hv

end Value

/-- **The laws of equality.**  Equality of values is symmetric and transitive; a value is equal to
itself just if it contains nothing that is not a number; and two values that are written elsewhere, at
any depth, are equal just if they were. -/
theorem equality_laws :
    (∀ u v : Value, (u == v) = (v == u)) ∧
    (∀ u v w : Value, (u == v) = true → (v == w) = true → (u == w) = true) ∧
    (∀ v : Value, (v == v) = true ↔ ¬ v.ContainsNaN) ∧
    ∀ u u' v v' : Value, u.Matches .places u' → v.Matches .places v' →
      (u == v) = (u' == v') := by
  refine ⟨fun u v => BEq.comm, fun u v w => BEq.trans, fun v => Value.equal_self_iff, ?_⟩
  intro u u' v v' hu hv
  exact hu.equal_eq hv

/-- The two zeros in lists at three places, and a hash-map whose key holds what is not a number. -/
theorem equality_laws_zeros :
    (Value.list ⟨1, 1⟩ [.number ⟨1, 2⟩ 0.0] == .list ⟨7, 1⟩ [.number ⟨9, 4⟩ 0.0]) = true ∧
    (Value.list ⟨7, 1⟩ [.number ⟨9, 4⟩ (-0.0)] == .list ⟨1, 1⟩ [.number ⟨1, 2⟩ 0.0]) = true ∧
    (Value.map ⟨1, 1⟩ [(.vector ⟨1, 2⟩ [.number ⟨1, 3⟩ (0.0 / 0.0)], .nil ⟨1, 9⟩)] ==
      .map ⟨1, 1⟩ [(.vector ⟨1, 2⟩ [.number ⟨1, 3⟩ (0.0 / 0.0)], .nil ⟨1, 9⟩)]) = false := by
  obtain ⟨hcomm, htrans, hself, hplaces⟩ := equality_laws
  have hzeros : (Value.list ⟨1, 1⟩ [.number ⟨1, 2⟩ 0.0] ==
      .list ⟨7, 1⟩ [.number ⟨9, 4⟩ (-0.0)]) = true := by decide
  have hback := (hcomm _ _).symm.trans hzeros
  refine ⟨htrans _ _ _ hzeros ?_, hback, ?_⟩
  · refine (hplaces _ _ _ _ ?_ ?_).symm.trans hback
    · exact .list trivial (.cons (.number _ trivial) .nil)
    · exact .list trivial (.cons (.number _ trivial) .nil)
  · refine Bool.eq_false_iff.mpr fun h => (hself _).mp h ?_
    exact .key List.mem_cons_self (.vector List.mem_cons_self (.number (by decide)))

end MiniLisp
