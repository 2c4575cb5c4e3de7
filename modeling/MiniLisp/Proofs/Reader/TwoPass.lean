import MiniLisp.Proofs.Reader.Tokenize

/-!
# Reading in two passes

The reader finds tokens and data in one pass, with a stack of open forms.  Cutting the text into tokens
first and then making data of them by recursive descent comes to the same, for every text: the same
data with the same locations, or the same error at the same place.

* `closes_closer`, `bracketDatum_eq`: the same brackets make the same data.
* `drive_parseDatum` and its companions: driving through tokens with a stack is parsing the next datum
  and delivering it to the stack.
* `readAll_eq_parseAll`: **reading a text is parsing its tokens**.
-/

namespace MiniLisp.Reader

/-! ### Brackets -/

theorem closes_closer (c : Char) (l : Location) (bracket : Bracket) :
    (Located.mk (.closer c) l).closes bracket = decide (c = bracket.closer) := by
  cases bracket <;> rfl

/-- Data between brackets make the same datum if they are where they are said to begin. -/
theorem bracketDatum_eq {bracket : Bracket} {start : Location} {elements : List (Location × Value)}
    (h : ∀ p ∈ elements, p.2.location = p.1) :
    bracketDatum bracket start elements = build bracket start (elements.map Prod.snd) := by
  cases bracket with
  | list => rfl
  | vector => rfl
  | map =>
    have hlength : (elements.map Prod.snd).length = elements.length := List.length_map _
    rw [bracketDatum, build]
    split
    · next heven => rw [pairs_of_even (hlength ▸ heven)]
    · next hodd =>
      obtain ⟨key, hlast, hpairs⟩ := pairs_of_odd (hlength ▸ hodd)
      rw [List.getLast?_map, Option.map_eq_some_iff] at hlast
      obtain ⟨p, hlast, rfl⟩ := hlast
      rw [hpairs, hlast]
      dsimp only
      rw [h p (List.mem_of_getLast? hlast)]
      rfl

theorem location_bracketDatum {bracket : Bracket} {start : Location}
    {elements : List (Location × Value)} {v : Value}
    (h : bracketDatum bracket start elements = .ok v) : v.location = start := by
  unfold bracketDatum at h
  split at h
  · cases h; rfl
  · cases h; rfl
  · split at h
    · cases h; rfl
    · cases h

theorem location_parseBracket {bracket : Bracket} {start : Location} {ts : List Located} {v : Value}
    {rest : Rest ts} (h : parseBracket bracket start ts = .ok (v, rest)) : v.location = start := by
  rw [parseBracket] at h
  split at h
  · cases h
  · split at h
    · cases h
    · next hdatum => cases h; exact location_bracketDatum hdatum

theorem location_nameDatum (l : Location) (name : String) : (nameDatum l name).location = l := by
  unfold nameDatum
  split <;> rfl

/-- A datum is where its first token is. -/
theorem location_parseDatum {t : Located} {ts : List Located} {v : Value} {rest : Rest ts}
    (h : parseDatum t ts = .ok (v, rest)) : v.location = t.location := by
  rw [parseDatum] at h
  split at h
  · cases h; rfl
  · cases h; rfl
  · cases h; rfl
  · cases h; exact location_nameDatum _ _
  · exact location_parseBracket h
  · cases h
  · split at h
    · cases h
    · cases h; rfl
  · split at h
    · cases h
    · split at h
      · cases h
      · cases h; rfl
  · cases h

/-- Data between brackets are where they are said to begin. -/
theorem location_parseElements {bracket : Bracket} {start : Location} {ts : List Located}
    {elements : List (Location × Value)} {rest : Rest ts}
    (h : parseElements bracket start ts = .ok (elements, rest)) :
    ∀ p ∈ elements, p.2.location = p.1 := by
  induction hn : ts.length using Nat.strongRecOn generalizing ts elements with
  | ind n ih =>
    rw [parseElements.eq_def] at h
    split at h
    · cases h
    · next t ts =>
      split at h
      · cases h; simp
      · split at h
        · cases h
        · next v rest hrest hdatum =>
          split at h
          · cases h
          · next vs rest' hrest' helements =>
            cases h
            have hlt : rest.length < n := by
              rw [← hn]
              exact Nat.lt_succ_of_le hrest
            exact List.forall_mem_cons.mpr ⟨location_parseDatum hdatum, ih _ hlt helements rfl⟩

/-! ### Driving and parsing -/

/-- What comes of driving on with a datum that was parsed. -/
def driveAfter {ts : List Located} (k : List Open) :
    Except ReadError (Value × Rest ts) → Except ReadError (List Value)
  | .ok (v, rest) => (deliver v k).drive rest.val
  | .error e => .error e

/-- The step that a closed pair of brackets leads to. -/
def built (bracket : Bracket) (start : Location) (elements : List Value) (k : List Open) : Step :=
  match build bracket start elements with
  | .ok v => deliver v k
  | .error e => .failed e

mutual

/-- A token that closes nothing begins a datum, which is delivered. -/
theorem drive_parseDatum (t : Located) (ts : List Located) (k : List Open)
    (ht : ∀ bracket start elements k', k = .bracket bracket start elements :: k' →
      t.closes bracket = false) :
    drive k (t :: ts) = driveAfter k (parseDatum t ts) := by
  obtain ⟨token, l⟩ := t
  rw [drive_cons, parseDatum]
  cases token with
  | opener bracket => exact drive_parseBracket bracket l ts k
  | closer c =>
    show (close c l k).drive ts = .error ⟨.unexpectedCloser c, l⟩
    have hclose : close c l k = .failed ⟨.unexpectedCloser c, l⟩ := by
      cases k with
      | nil => rfl
      | cons form k =>
        cases form with
        | bracket bracket start elements =>
          have hc : c ≠ bracket.closer :=
            of_decide_eq_false (closes_closer c l bracket ▸ ht bracket start elements k rfl)
          rw [close, if_neg hc]
        | caret start => rfl
        | target sugar start extra => rfl
    rw [hclose]
    rfl
  | mark sugar =>
    show drive (.target sugar l [] :: k) ts = _
    rw [drive_parseTarget sugar l ts [] k, headOf_eq]
    dsimp only
    cases parseTarget sugar l ts with
    | ok p => rfl
    | error e => rfl
  | caret =>
    show drive (.bracket .map (l.next '^') [] :: .caret l :: k) ts = _
    rw [drive_parseBracket, ← l.beyond_singleton]
    dsimp only
    cases parseBracket .map (l.beyond ['^']) ts with
    | error e => rfl
    | ok p =>
      obtain ⟨data, rest, hrest⟩ := p
      show drive (.target .withMeta l [data] :: k) rest = _
      rw [drive_parseTarget .withMeta l rest [data] k, headOf_eq]
      dsimp only
      cases parseTarget .withMeta l rest with
      | ok p => rfl
      | error e => rfl
  | string text => rfl
  | keyword name => rfl
  | number x => rfl
  | name name =>
    show _ = (deliver (nameDatum l name) k).drive ts
    rw [nameDatum_eq]
    rfl
  | error e => rfl
termination_by 3 * ts.length + 2

theorem drive_parseTarget (sugar : Sugar) (start : Location) (ts : List Located)
    (extra : List Value) (k : List Open) :
    drive (.target sugar start extra :: k) ts =
      driveAfter (.target sugar start extra :: k) (parseTarget sugar start ts) := by
  rw [parseTarget.eq_def]
  cases ts with
  | nil => rfl
  | cons t ts =>
    rw [drive_parseDatum t ts _ (by simp)]
    dsimp only
    cases parseDatum t ts with
    | ok p => rfl
    | error e => rfl
termination_by 3 * ts.length

theorem drive_parseBracket (bracket : Bracket) (start : Location) (ts : List Located)
    (k : List Open) :
    drive (.bracket bracket start [] :: k) ts = driveAfter k (parseBracket bracket start ts) := by
  rw [drive_parseElements, parseBracket]
  cases helements : parseElements bracket start ts with
  | error e => rfl
  | ok p =>
    obtain ⟨elements, rest⟩ := p
    show (built bracket start (elements.map Prod.snd) k).drive rest.val = _
    dsimp only
    rw [built, bracketDatum_eq (location_parseElements helements)]
    cases build bracket start (elements.map Prod.snd) with
    | ok v => rfl
    | error e => rfl
termination_by 3 * ts.length + 1

theorem drive_parseElements (bracket : Bracket) (start : Location) (ts : List Located)
    (elements : List Value) (k : List Open) :
    drive (.bracket bracket start elements :: k) ts =
      match parseElements bracket start ts with
      | .ok (vs, rest) =>
        (built bracket start (elements.reverse ++ vs.map Prod.snd) k).drive rest.val
      | .error e => .error e := by
  rw [parseElements.eq_def]
  cases ts with
  | nil => rfl
  | cons t ts =>
    dsimp only
    cases hcloses : t.closes bracket with
    | true =>
      obtain ⟨token, l⟩ := t
      cases token with
      | closer c =>
        rw [closes_closer] at hcloses
        have hc : c = bracket.closer := of_decide_eq_true hcloses
        rw [if_pos rfl, drive_cons]
        show (close c l (.bracket bracket start elements :: k)).drive ts =
          (built bracket start (elements.reverse ++ []) k).drive ts
        rw [close, if_pos hc, List.append_nil]
        rfl
      | _ => cases hcloses
    | false =>
      rw [if_neg Bool.false_ne_true, drive_parseDatum t ts]
      · cases parseDatum t ts with
        | error e => rfl
        | ok p =>
          obtain ⟨v, rest, hrest⟩ := p
          show drive (.bracket bracket start (v :: elements) :: k) rest = _
          rw [drive_parseElements bracket start rest (v :: elements) k]
          dsimp only
          cases parseElements bracket start rest with
          | error e => rfl
          | ok q =>
            obtain ⟨vs, rest', hrest'⟩ := q
            dsimp only
            rw [List.reverse_cons, List.append_assoc]
            rfl
      · rintro bracket' start' elements' k' hk
        cases hk
        exact hcloses
termination_by 3 * ts.length

end

/-- With no form open, driving through tokens parses them all. -/
theorem drive_parseAll (ts : List Located) : drive [] ts = parseAll ts := by
  cases ts with
  | nil => rw [parseAll]; rfl
  | cons t ts =>
    rw [drive_parseDatum t ts [] (by simp), parseAll]
    cases parseDatum t ts with
    | error e => rfl
    | ok p =>
      obtain ⟨v, rest, hrest⟩ := p
      show (drive [] rest).map (v :: ·) = (parseAll rest).map (v :: ·)
      rw [drive_parseAll rest]
termination_by ts.length

end MiniLisp.Reader

namespace MiniLisp

/-- **Reading a text is parsing its tokens**: the data are the same, with their locations, and if
there is an error, it is the first one that parsing meets. -/
theorem readAll_eq_parseAll (text : String) :
    readAll text = Reader.parseAll (Reader.tokens ⟨1, 1⟩ text.toList) := by
  rw [← Reader.drive_parseAll]
  exact Reader.outcome_scan [] .start text.toList

end MiniLisp
