import MiniLisp.Proofs.Reader.Placement
import MiniLisp.Proofs.Session.History
import MiniLisp.Proofs.Store.Growth

/-!
# Blame points into a text

The primitives of a fresh session are the only values that were never read.  They are bound in the root
frame and located at `0:0`, but a lookup moves what it finds to the symbol it was asked for.  So all that
evaluation handles is located where something was read, and it is there that a fault is blamed.

* `Located`: something that was read from one of the given texts stands at a location.
* `Store.Sourced`: what a store binds is located in this way, the primitives of a fresh session apart.
* `Discipline.blame`: evaluation keeps that.
* `Reader.Stands.everywhere`, `Reader.beginsForm_of_contains`: what a datum contains begins where a form
  of the text begins.
* `blame_in_source`: **blame always points into a text**.
-/

namespace MiniLisp

open Eval

/-! ### Forms of a text -/

namespace Reader

/-- **What a datum contains is located where something is written.**  The head of a short notation is
where the notation is. -/
theorem Stands.everywhere {cs : List Char} {p e : Nat} {v : Value} (h : Stands cs p e v) :
    v.Everywhere fun w => ∃ q r u, Stands cs q r u ∧ w.location = .ofOffset cs q := by
  have hself : ∀ {q r : Nat} {u : Value}, Stands cs q r u →
      ∃ q' r' u', Stands cs q' r' u' ∧ Location.ofOffset cs q = .ofOffset cs q' :=
    fun hu => ⟨_, _, _, hu, rfl⟩
  induction h with
  | list hopen hlaid hxs hclose ih =>
    exact .intro (hself (.list hopen hlaid hxs hclose)) (List.forall_mem_map.mpr ih)
  | vector hopen hlaid hxs hclose ih =>
    exact .intro (hself (.vector hopen hlaid hxs hclose)) (List.forall_mem_map.mpr ih)
  | @map _ _ xs hopen hlaid hxs hclose heven ih =>
    have hlength : (xs.map Noted.value).length % 2 = 0 := by rw [List.length_map, heven]
    have hpairs := pairs_of_even hlength
    refine .intro (hself (.map hopen hlaid hxs hclose heven)) fun w hw => ?_
    obtain ⟨e, he, rfl | rfl⟩ := Value.mem_parts_map.mp hw
    · exact (Value.everywhere_pairs hpairs (List.forall_mem_map.mpr ih) e he).1
    · exact (Value.everywhere_pairs hpairs (List.forall_mem_map.mpr ih) e he).2
  | sugar hne hmark hgap hv ih =>
    have hform := hself (.sugar hne hmark hgap hv)
    exact .intro hform (List.forall_mem_cons.mpr ⟨.atom hform rfl, List.forall_mem_singleton.mpr ih⟩)
  | withMeta hmark hdata hgap hv ihdata ih =>
    have hform := hself (.withMeta hmark hdata hgap hv)
    refine .intro hform (List.forall_mem_cons.mpr ⟨.atom hform rfl, ?_⟩)
    exact List.forall_mem_cons.mpr ⟨ih, List.forall_mem_singleton.mpr ihdata⟩
  | number hliteral hne => exact .atom (hself (.number hliteral hne)) rfl
  | keyword hspan hchars hends => exact .atom (hself (.keyword hspan hchars hends)) rfl
  | string hopen hbody hclose => exact .atom (hself (.string hopen hbody hclose)) rfl
  | symbol hname hother => exact .atom (hself (.symbol hname hother)) rfl
  | bool hname => exact .atom (hself (.bool hname)) rfl
  | nil hname => exact .atom (hself (.nil hname)) rfl

/-- A form of a text begins at a location: it is the location of a datum of the text or of what a datum
contains, and something is written there. -/
def BeginsForm (text : String) (l : Location) : Prop :=
  ∃ d ∈ (Reading.ofText text).data, ∃ w, d.Contains w ∧ w.location = l ∧
    ∃ p e v, Stands text.toList p e v ∧ l = .ofOffset text.toList p

/-- What a datum of a text contains begins a form of the text. -/
theorem beginsForm_of_contains {text : String} {d w : Value} (hd : d ∈ (Reading.ofText text).data)
    (hw : d.Contains w) : BeginsForm text w.location := by
  obtain ⟨p, e, hstands⟩ := stands_data hd
  exact ⟨d, hd, w, hw, rfl, Value.everywhere_iff.mp hstands.everywhere w hw⟩

/-- The rows of a text count from one. -/
theorem BeginsForm.ne_builtin {text : String} {l : Location} (h : BeginsForm text l) :
    l ≠ .builtin := by
  obtain ⟨_, _, _, _, _, p, e, v, _, rfl⟩ := h
  simp [Location.ofOffset, Location.builtin]

end Reader

/-! ### What was read -/

/-- Something that was read from the text of a request stands at a location: a datum or what it
contains. -/
def Located (requests : List Request) (history : List Event) (l : Location) : Prop :=
  ∃ r ∈ requests, ∃ d ∈ r.reading.data, .read d ∈ history ∧ ∃ w, d.Contains w ∧ w.location = l

namespace Located

variable {requests requests' : List Request} {history history' : List Event} {l : Location}

theorem mono (h : Located requests history l) (hrequests : requests ⊆ requests')
    (hhistory : history ⊆ history') : Located requests' history' l := by
  obtain ⟨r, hr, d, hd, hread, hl⟩ := h
  exact ⟨r, hrequests hr, d, hd, hhistory hread, hl⟩

/-- What was read stays read. -/
theorem later {past log log' : List Event} (h : Located requests (past ++ log.reverse) l)
    (hlog : log ⊆ log') : Located requests (past ++ log'.reverse) l := by
  refine h.mono (List.Subset.refl _) fun e he => ?_
  rcases List.mem_append.mp he with he | he
  · exact List.mem_append_left _ he
  · exact List.mem_append_right _ (List.mem_reverse.mpr (hlog (List.mem_reverse.mp he)))

/-- **A form of one of the texts begins there.** -/
theorem beginsForm (h : Located requests history l) :
    ∃ r ∈ requests, Reader.BeginsForm r.text l := by
  obtain ⟨r, hr, d, hd, _, w, hw, rfl⟩ := h
  exact ⟨r, hr, Reader.beginsForm_of_contains hd hw⟩

theorem ne_builtin (h : Located requests history l) : l ≠ .builtin := by
  obtain ⟨r, _, hform⟩ := h.beginsForm
  exact hform.ne_builtin

theorem everywhere {r : Request} {d : Value} (hr : r ∈ requests) (hd : d ∈ r.reading.data)
    (hread : .read d ∈ history) : d.Everywhere fun w => Located requests history w.location :=
  Value.everywhere_iff.mpr fun w hw => ⟨r, hr, d, hd, hread, w, hw, rfl⟩

end Located

/-! ### What a store binds -/

namespace Store

/-- What the root frame of a fresh session binds. -/
def Seeded (frame : FrameId) (x : String) (v : Value) : Prop :=
  frame = rootFrame ∧ ∃ i code, x = code.name ∧ v = .primitive .builtin i code

/-- Whatever a store binds has locations of a certain kind, at every depth, unless a fresh session
binds it. -/
def Sourced (s : Store) (p : Location → Prop) : Prop :=
  s.Binds fun frame x v => Seeded frame x v ∨ v.Everywhere fun w => p w.location

theorem Sourced.mono {s : Store} {p q : Location → Prop} (h : s.Sourced p) (hpq : ∀ l, p l → q l) :
    s.Sourced q :=
  Binds.mono h fun _ _ _ hv => hv.imp_right fun hv => Value.Everywhere.mono hv fun w => hpq w.location

/-- **A lookup moves what it finds**, so that nothing stays where the primitives of a fresh session
are. -/
theorem Sourced.find {s : Store} {p : Location → Prop} (h : s.Sourced p) {frame : FrameId} {x : String}
    {v : Value} {l : Location} (hl : p l) (hv : s.find? frame x = some v) :
    (v.moveTo l).Everywhere fun w => p w.location := by
  obtain ⟨i, ⟨_, j, code, _, rfl⟩ | hv⟩ := Binds.find? h hv
  · exact .atom hl rfl
  · exact hv.moveTo (by simpa using hl)

theorem sourced_fresh (settings : Settings) (p : Location → Prop) : (fresh settings).Sourced p := by
  intro frame x v hv
  obtain ⟨hframe, i, code, rfl, rfl, _⟩ := of_binding?_fresh hv
  exact Or.inl ⟨hframe, i, code, rfl, rfl⟩

end Store

/-! ### What evaluation handles -/

/-- A fault is blamed on a value that is at hand. -/
theorem Fault.Due.exists_location {p : Value → Prop} {f : Fault} (h : f.Due p) :
    ∃ u, p u ∧ f.location = u.location := by
  cases h with
  | undefinedSymbol hx => exact ⟨_, hx, rfl⟩
  | typeMismatch _ _ _ hu => exact ⟨_, hu, rfl⟩
  | fixed _ hu => exact ⟨_, hu, rfl⟩

section

variable (requests : List Request) (past : List Event)

/-- All that evaluation handles is located where something was read, and so is all that it blames.
The requests and the events of the past count too. -/
def Discipline.blame : Discipline where
  node log v := Located requests (past ++ log.reverse) v.location
  machine m := m.store.Sourced (Located requests (past ++ m.log.reverse))
  stop m stop := m.store.Sourced (Located requests (past ++ m.log.reverse)) ∧
    ∀ f, stop = .failed (.fault f) → Located requests (past ++ m.log.reverse) f.location
  node_emit e h := h.later (by simp)
  node_plain h _ hl := by rw [hl]; exact h
  find h hl hv := h.find hl hv
  emit h _ _ := h.mono fun l hl => hl.later (by simp)
  insert frame x h hv := Store.Binds.insert h (Or.inr hv)
  spawn frame h := Store.Binds.spawn h frame
  returned _ h _ _ := h.mono fun l hl => hl.later (by simp)
  made _ _ h hhead _ _ := ⟨h.mono fun l hl => hl.later (by simp), hhead.later (by simp)⟩
  failed h _ hf := by
    refine ⟨h.mono fun l hl => hl.later (by simp), fun f' hf' => ?_⟩
    cases hf'
    obtain ⟨u, hu, hl⟩ := hf.exists_location
    rw [hl]
    exact hu.later (by simp)
  fault h hf := by
    refine ⟨h, fun f' hf' => ?_⟩
    cases hf'
    obtain ⟨u, hu, hl⟩ := hf.exists_location
    rw [hl]
    exact hu
  tooDeep h := ⟨h, nofun⟩

theorem Discipline.admits_blame {r : Request} (hr : r ∈ requests) :
    (Discipline.blame requests past).Admits r where
  datum hd h := ⟨h.mono fun l hl => hl.later (by simp), Located.everywhere hr hd (by simp)⟩
  ending _ h := h.mono fun l hl => hl.later (by simp)
  nothing _ h := h.mono fun l hl => hl.later (by simp)
  unreadable _ h := ⟨h, nofun⟩

end

/-! ### Sessions -/

section

variable {settings : Settings} {requests : List Request} {past : List Event} {s : Session}

/-- A session that knows one request more may begin with it. -/
theorem Store.Sourced.begin (h : s.store.Sourced (Located requests past)) (r : Request) :
    (Discipline.blame (requests ++ [r]) past).machine ⟨s.store, []⟩ :=
  h.mono fun _ hl => hl.mono (List.subset_append_left _ _) (by simp)

/-- **What a session binds is located where something was read.** -/
theorem Session.Past.sourced (h : s.Past settings requests past) :
    s.store.Sourced (Located requests past) := by
  induction h with
  | fresh => exact Store.sourced_fresh settings _
  | @request requests past s depth r _ ih =>
    have hadmits := Discipline.admits_blame (requests ++ [r]) past (r := r) (by simp)
    have hmachine := Discipline.machine_perform hadmits depth (fun hstop => hstop.1) (ih.begin r)
    simpa [Discipline.blame] using hmachine

/-- **Blame always points into a text.**  Let a session have gone through any requests.  What its frames
bind is located, at every depth, where something was read from one of the texts; only the primitives
that the root frame began with are not.  The next request, whatever it is, comes to a value, to a fault or
to neither.  The fault, the value, and the value of every datum on the way are located, at every depth,
where something was read as well, and never at the place of the primitives.  And a fault of a run in a
fresh session is blamed on the beginning of a form of the text. -/
theorem blame_in_source (hs : s.Past settings requests past) :
    (∀ frame x v, s.store.binding? frame x = some v →
      (frame = Store.rootFrame ∧ ∃ i code, x = code.name ∧ v = .primitive .builtin i code) ∨
      v.Everywhere fun w => Located requests past w.location) ∧
    (∀ depth r,
      let o := s.perform (r.attempt depth)
      let located := Located (requests ++ [r]) (past ++ o.log)
      (∀ f, o.result = .error (.failed (.fault f)) →
        located f.location ∧ f.location ≠ .builtin) ∧
      (∀ v, o.result = .ok v →
        (v.Everywhere fun w => located w.location ∧ w.location ≠ .builtin) ∨
        r.reading.data = [])) ∧
    (∀ depth r vs, vs ≠ [] → vs <+: r.reading.data →
      let o := s.perform (evaluateData depth (.nop .start "") vs)
      ∀ v, o.result = .ok v →
        v.Everywhere fun w => Located (requests ++ [r]) (past ++ o.log) w.location ∧
          w.location ≠ .builtin) ∧
    ∀ depth text f,
      ((Session.fresh settings).perform (runText depth text)).result =
        .error (.failed (.fault f)) →
      Reader.BeginsForm text f.location := by
  have hadmits := fun requests past r =>
    Discipline.admits_blame (requests ++ [r]) past (r := r) (by simp)
  have hvalue : ∀ {requests history} {v : Value},
      (v.Everywhere fun w => Located requests history w.location) →
      v.Everywhere fun w => Located requests history w.location ∧ w.location ≠ .builtin :=
    fun hv => Value.Everywhere.mono hv fun _ hw => ⟨hw, hw.ne_builtin⟩
  refine ⟨hs.sourced, fun depth r => ?_, fun depth r vs hne hvs => ?_,
    fun depth text f hf => ?_⟩
  · have hends := Discipline.obeys_attempt (hadmits requests past r) depth (hs.sourced.begin r)
    refine ⟨fun f hf => ?_, fun v hv => ?_⟩
    · have hf := (hends.stopped hf).2 f rfl
      exact ⟨hf, hf.ne_builtin⟩
    · rcases (hends.value hv).2 with hv | ⟨hnil, _⟩
      · exact Or.inl (hvalue hv)
      · exact Or.inr hnil
  · intro o v hv
    have hends := Discipline.obeys_evaluateData (hadmits requests past r) depth (fun _ _ h => h)
      hvs.subset (.nop .start "") (hs.sourced.begin r) fun hnil => absurd hnil hne
    exact hvalue (hends.value hv).2
  · have hends := Discipline.obeys_attempt (hadmits [] [] (.run text)) depth
      ((Store.sourced_fresh settings _).begin (.run text))
    obtain ⟨r, hr, hform⟩ := ((hends.stopped hf).2 f rfl).beginsForm
    rw [List.mem_singleton.mp hr] at hform
    exact hform

end

/-- A closure that was defined in one text and fails in another.  The blame is on its body, which stands
in the first text. -/
theorem blame_in_source_earlier :
    let text := "(def! f (fn* (a) (g a)))"
    let s := ((Session.fresh .default).perform (runText 4 text)).session
    let o := s.perform (evaluateFirst 4 "(f :k)")
    o.result = .error (.failed (.fault ⟨.undefinedSymbol "g", ⟨1, 19⟩⟩)) ∧
    ∃ past, Located [.run text, .answer "(f :k)"] past ⟨1, 19⟩ := by
  have hs : Session.Past .default _ _ _ := .request 4 (.run "(def! f (fn* (a) (g a)))") .fresh
  have hfault : (((Session.fresh .default).perform
      (runText 4 "(def! f (fn* (a) (g a)))")).session.perform (evaluateFirst 4 "(f :k)")).result =
      .error (.failed (.fault ⟨.undefinedSymbol "g", ⟨1, 19⟩⟩)) := by cbv
  exact ⟨hfault, _, (((blame_in_source hs).2.1 4 (.answer "(f :k)")).1 _ hfault).1⟩

end MiniLisp
