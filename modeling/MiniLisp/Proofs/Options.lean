import Mathlib
import MiniLisp.Options

/-!
# The arguments of the program

Arguments are read from the first to the last, and reading stops at the first one that does not fit what
came before.  So what was read so far says it all: a list of arguments is understood or not, and if it is,
the options are the ones that it asks for, in whatever order.

* `Options.Understood`: the lists of arguments that make sense, and `Options.asked`: what they ask for.
* `Options.accept_asked`, `Options.accept_refused`: one more argument.
* `Options.parse_understood`: **arguments that are understood give the options that they ask for**.
* `Options.parse_refused`: the first argument that is not understood is refused.
* `options_of_arguments`: **what becomes of the arguments**.
-/

namespace MiniLisp

namespace Options

/-- The arguments that do not begin with two hyphens. -/
def paths (arguments : List String) : List String :=
  arguments.filter fun a => ¬ ['-', '-'] <+: a.toList

/-- The lists of arguments that make sense: only the flag begins with two hyphens, and at most one
argument does not. -/
def Understood (arguments : List String) : Prop :=
  (∀ a ∈ arguments, ['-', '-'] <+: a.toList → a = "--strict-arity") ∧ (paths arguments).length ≤ 1

instance : DecidablePred Understood :=
  fun arguments => inferInstanceAs (Decidable ((∀ a ∈ arguments, _) ∧ _))

/-- The options that arguments ask for. -/
def asked (arguments : List String) : Options :=
  ⟨⟨"--strict-arity" ∈ arguments⟩, (paths arguments).head?⟩

variable {arguments front : List String} {a : String}

theorem isFlag_iff : isFlag a = true ↔ ['-', '-'] <+: a.toList := by
  rw [isFlag]
  split
  · next h =>
    rw [h]
    exact iff_of_true rfl ⟨_, rfl⟩
  · next h =>
    refine iff_of_false nofun ?_
    rintro ⟨cs, hcs⟩
    exact h cs hcs.symm

theorem mem_paths : a ∈ paths arguments ↔ a ∈ arguments ∧ ¬ ['-', '-'] <+: a.toList := by
  simp [paths]

theorem paths_concat_of_flag (ha : ['-', '-'] <+: a.toList) : paths (front ++ [a]) = paths front := by
  simp [paths, ha]

theorem paths_concat (ha : ¬ ['-', '-'] <+: a.toList) : paths (front ++ [a]) = paths front ++ [a] := by
  simp [paths, ha]

theorem understood_concat_of_flag (ha : ['-', '-'] <+: a.toList) :
    Understood (front ++ [a]) ↔ Understood front ∧ a = "--strict-arity" := by
  simp only [Understood, paths_concat_of_flag ha, List.forall_mem_append, List.forall_mem_singleton]
  tauto

theorem understood_concat (ha : ¬ ['-', '-'] <+: a.toList) :
    Understood (front ++ [a]) ↔ Understood front ∧ paths front = [] := by
  simp only [Understood, paths_concat ha, List.forall_mem_append, List.forall_mem_singleton,
    List.length_append, List.length_singleton, ← List.length_eq_zero_iff]
  constructor
  · rintro ⟨⟨hflags, -⟩, hlength⟩
    exact ⟨⟨hflags, by omega⟩, by omega⟩
  · rintro ⟨⟨hflags, -⟩, hlength⟩
    exact ⟨⟨hflags, fun h => absurd h ha⟩, by omega⟩

/-- What was read before other arguments is understood if it is understood with them. -/
theorem Understood.of_append {rest : List String} (h : Understood (front ++ rest)) :
    Understood front := by
  refine ⟨fun a ha => h.1 a (List.mem_append_left rest ha), le_trans ?_ h.2⟩
  rw [paths, paths, List.filter_append, List.length_append]
  exact Nat.le_add_right _ _

/-! ### One more argument -/

theorem strictFlag_begins : ['-', '-'] <+: strictFlag.toList := by decide

/-- **An argument that is understood is taken into account.** -/
theorem accept_asked (h : Understood (front ++ [a])) :
    (asked front).accept a = .ok (asked (front ++ [a])) := by
  by_cases ha : ['-', '-'] <+: a.toList
  · have hstrict : a = strictFlag := ((understood_concat_of_flag ha).mp h).2
    subst hstrict
    rw [accept, if_pos rfl, asked, asked, paths_concat_of_flag ha]
    simp [strictFlag]
  · have hnone : paths front = [] := ((understood_concat ha).mp h).2
    have hstrict : a ≠ strictFlag := by
      rintro rfl
      exact ha strictFlag_begins
    have hopen : ¬ (isFlag a || (asked front).script.isSome) = true := by
      simp [asked, hnone, isFlag_iff, ha]
    have hmem : "--strict-arity" ≠ a := hstrict.symm
    rw [accept, if_neg hstrict, if_neg hopen, asked, asked, paths_concat ha, hnone]
    simp [hmem]

/-- **An argument that is not understood is refused.** -/
theorem accept_refused (hfront : Understood front) (h : ¬ Understood (front ++ [a])) :
    (asked front).accept a = .error ⟨a⟩ := by
  have hstrict : a ≠ strictFlag := by
    rintro rfl
    exact h ((understood_concat_of_flag strictFlag_begins).mpr ⟨hfront, rfl⟩)
  rw [accept, if_neg hstrict, if_pos]
  by_cases ha : ['-', '-'] <+: a.toList
  · rw [isFlag_iff.mpr ha]
    rfl
  · have hsome : paths front ≠ [] := fun hnone => h ((understood_concat ha).mpr ⟨hfront, hnone⟩)
    obtain ⟨p, ps, hp⟩ := List.exists_cons_of_ne_nil hsome
    rw [asked, hp]
    simp

/-! ### All arguments -/

theorem parse_append (rest : List String) :
    parse (front ++ rest) = parse front >>= fun o => rest.foldlM accept o :=
  List.foldlM_append

/-- **Arguments that are understood give the options that they ask for.** -/
theorem parse_understood (h : Understood arguments) : parse arguments = .ok (asked arguments) := by
  induction arguments using List.reverseRecOn with
  | nil => rfl
  | append_singleton front a ih =>
    rw [parse_append, ih h.of_append]
    show (accept (asked front) a >>= pure) = _
    rw [accept_asked h]
    rfl

/-- **The first argument that is not understood is refused**, whatever comes behind. -/
theorem parse_refused (hfront : Understood front) (h : ¬ Understood (front ++ [a]))
    (rest : List String) : parse (front ++ a :: rest) = .error ⟨a⟩ := by
  rw [parse_append, parse_understood hfront]
  show (accept (asked front) a >>= fun o => rest.foldlM accept o) = _
  rw [accept_refused hfront h]
  rfl

theorem script_asked (h : Understood arguments) {path : String} :
    (asked arguments).script = some path ↔
      path ∈ arguments ∧ ¬ ['-', '-'] <+: path.toList := by
  rw [← mem_paths, asked]
  have hlength := h.2
  match paths arguments, hlength with
  | [], _ => simp
  | [p], _ => simp [eq_comm]

theorem Understood.perm {others : List String} (h : Understood arguments)
    (hperm : arguments.Perm others) : Understood others := by
  refine ⟨fun a ha => h.1 a (hperm.mem_iff.mpr ha), ?_⟩
  have hlength := (hperm.filter fun a => ¬ ['-', '-'] <+: a.toList).length_eq
  exact hlength ▸ h.2

/-- The options do not depend on the order of the arguments. -/
theorem asked_perm {others : List String} (h : Understood arguments)
    (hperm : arguments.Perm others) : asked others = asked arguments := by
  have hscript : (asked others).script = (asked arguments).script := by
    refine Option.ext fun path => ?_
    rw [script_asked h, script_asked (h.perm hperm), hperm.mem_iff]
  have hstrict : (asked others).settings = (asked arguments).settings := by
    simp only [asked, hperm.mem_iff]
  exact congrArg₂ Options.mk hstrict hscript

/-- Arguments that are not understood have a first one that is refused. -/
theorem exists_first_refused (h : ¬ Understood arguments) :
    ∃ front a rest, arguments = front ++ a :: rest ∧ Understood front ∧
      ¬ Understood (front ++ [a]) := by
  induction arguments using List.reverseRecOn with
  | nil => exact absurd ⟨by simp, by simp [paths]⟩ h
  | append_singleton init a ih =>
    by_cases hinit : Understood init
    · exact ⟨init, a, [], rfl, hinit, h⟩
    · obtain ⟨front, b, rest, rfl, hfront, hb⟩ := ih hinit
      exact ⟨front, b, rest ++ [a], by simp, hfront, hb⟩

/-- **Arguments give the options that they ask for, just if they are understood.** -/
theorem parse_eq_ok_iff {o : Options} :
    parse arguments = .ok o ↔ Understood arguments ∧ o = asked arguments := by
  constructor
  · intro ho
    have h : Understood arguments := by
      by_contra h
      obtain ⟨front, a, rest, rfl, hfront, ha⟩ := exists_first_refused h
      cases ho.symm.trans (parse_refused hfront ha rest)
    exact ⟨h, Except.ok.inj (ho.symm.trans (parse_understood h))⟩
  · rintro ⟨h, rfl⟩
    exact parse_understood h

end Options

open Options

/-- **What becomes of the arguments.**  They give options just if they are understood: only the flag
begins with two hyphens, and at most one argument does not.  Then the arity is strict if the flag is among
them, the script is the argument that does not begin with two hyphens if there is one, and any other order
gives the same.  Otherwise the argument is refused up to which, and no earlier, they are not understood. -/
theorem options_of_arguments (arguments : List String) :
    ((∃ o, Options.parse arguments = .ok o) ↔ Understood arguments) ∧
    (∀ o, Options.parse arguments = .ok o →
      (o.settings.strictArity = true ↔ "--strict-arity" ∈ arguments) ∧
      (∀ path, o.script = some path ↔ path ∈ arguments ∧ ¬ ['-', '-'] <+: path.toList) ∧
      ∀ others, arguments.Perm others → Options.parse others = .ok o) ∧
    (¬ Understood arguments → ∃ i a, arguments[i]? = some a ∧
      ¬ Understood (arguments.take (i + 1)) ∧ (∀ j < i, Understood (arguments.take (j + 1))) ∧
      Options.parse arguments = .error ⟨a⟩) := by
  refine ⟨⟨?_, fun h => ⟨_, parse_understood h⟩⟩, fun o ho => ?_, fun h => ?_⟩
  · rintro ⟨o, ho⟩
    exact (parse_eq_ok_iff.mp ho).1
  · obtain ⟨h, rfl⟩ := parse_eq_ok_iff.mp ho
    refine ⟨by simp [asked], fun path => script_asked h, fun others hperm => ?_⟩
    exact parse_eq_ok_iff.mpr ⟨h.perm hperm, (asked_perm h hperm).symm⟩
  · obtain ⟨front, a, rest, rfl, hfront, ha⟩ := exists_first_refused h
    refine ⟨front.length, a, by simp, ?_, fun j hj => ?_, parse_refused hfront ha rest⟩
    · rw [List.take_append, List.take_of_length_le (by omega)]
      simpa using ha
    · rw [List.take_append_of_le_length hj]
      rw [← List.take_append_drop (j + 1) front] at hfront
      exact hfront.of_append

/-- The flag twice behind a script, and a second script before a flag that there is not. -/
theorem options_of_arguments_samples :
    Options.parse ["a", "--strict-arity", "--strict-arity"] = .ok ⟨⟨true⟩, some "a"⟩ ∧
    Options.parse ["a", "--strict-arity", "b", "--fast"] = .error ⟨"b"⟩ := by
  have hfirst : Options.parse ["--strict-arity", "a", "--strict-arity"] = .ok ⟨⟨true⟩, some "a"⟩ := by
    decide
  obtain ⟨i, a, ha, hrefused, hbefore, herror⟩ :=
    (options_of_arguments ["a", "--strict-arity", "b", "--fast"]).2.2 (by decide)
  have hle : i ≤ 2 := by
    by_contra h
    exact absurd (hbefore 2 (by omega)) (by decide)
  have hi : i = 2 := by
    interval_cases i
    · exact absurd (by decide) hrefused
    · exact absurd (by decide) hrefused
    · rfl
  subst hi
  cases ha
  exact ⟨((options_of_arguments _).2.1 _ hfirst).2.2 _ (.swap _ _ _), herror⟩

end MiniLisp
