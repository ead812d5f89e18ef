import RecordCuration.Proofs.Repair.Pass

/-!
What the standard rules do to the value at the place of an issue.

`Mend` lists the changes by the kind of the issue. One treatment either leaves the document, or
puts a mended value where the issue points; a standard fix is always written and read back.
-/

namespace RecordCuration

open Json

/-- How a standard rule changes the value at the place of an issue of a kind. -/
inductive Mend : IssueKind → Json → Json → Prop where
  | wrap {actual : String} {v : Json} (h : v.items? = none) :
    Mend (.typeMismatch "array" actual) v (.arr [v])
  | stopDate {ms : List (String × Json)} {start : Json} (hstop : ms.lookup "StopDate" = none)
    (hstart : ms.lookup "StartDate" = some start) :
    Mend (.missingRequired "StopDate") (.obj ms) (.obj (Members.insert "StopDate" start ms))
  | utc {text : String} (h : text.toList.getLast? ≠ some 'Z') :
    Mend (.formatViolation "date-time") (.str text) (.str (text ++ "Z"))
  | first {actual : String} {x : Json} {xs : List Json} :
    Mend (.typeMismatch "string" actual) (.arr (x :: xs)) (.str (Rule.asText x))

namespace Mend

variable {kind : IssueKind} {v w : Json}

lemma wellFormed (h : Mend kind v w) (hv : v.WellFormed) : w.WellFormed := by
  cases h with
  | wrap _ => simpa using hv
  | stopDate _ hstart =>
    exact wellFormed_insert ((wellFormed_obj.mp hv).2 _ (mem_of_lookup hstart)) hv
  | utc _ => trivial
  | first => trivial

lemma length_insert {α : Type} {name : String} {ms : List (String × α)}
    (h : ms.lookup name = none) (a : α) : (Members.insert name a ms).length = ms.length + 1 := by
  have hk := congrArg List.length (Members.keys_insert name a ms)
  have hn : name ∉ ms.map Prod.fst := by
    rw [← lookup_isSome_iff, h]; simp
  simpa [hn] using hk

/-- A mended value agrees with nothing that the value before agreed with. -/
lemma not_same (h : Mend kind v w) {u : Json} (hv : v.same u = true) : ¬ w.same u = true := by
  intro hw
  cases h with
  | wrap h =>
    obtain ⟨ys, rfl⟩ := arr_of_same hw
    cases v <;> simp [same, items?] at hv h
  | stopDate hstop _ =>
    obtain ⟨ns, rfl⟩ := obj_of_same hv
    have h1 := (same_obj.mp hv).1
    have h2 := (same_obj.mp hw).1
    rw [length_insert hstop] at h2
    omega
  | utc _ =>
    cases u <;> simp only [same, Bool.false_eq_true, beq_iff_eq] at hv hw
    have hl := congrArg String.length (hw.trans hv.symm)
    simp [String.length_append] at hl
  | first =>
    obtain ⟨ys, rfl⟩ := arr_of_same hv
    simp [same] at hw

/-- Whether a value can be mended depends on it only up to the order of members. -/
lemma exists_of_same (h : Mend kind v w) {u : Json} (hv : v.WellFormed) (hu : u.WellFormed)
    (hs : v.same u = true) : ∃ x, Mend kind u x := by
  cases h with
  | wrap h =>
    refine ⟨_, .wrap ?_⟩
    cases u <;> cases v <;> simp_all [same, items?]
  | @stopDate ms start hstop hstart =>
    obtain ⟨ns, rfl⟩ := obj_of_same hs
    obtain ⟨start', hstart', -⟩ := (same_obj.mp hs).2 _ (mem_of_lookup hstart)
    refine ⟨_, .stopDate ?_ hstart'⟩
    by_contra hne
    obtain ⟨stop, hstop'⟩ := Option.ne_none_iff_exists'.mp hne
    obtain ⟨x, hx, -⟩ := (same_obj.mp (same_symm hv hu hs)).2 _ (mem_of_lookup hstop')
    rw [hx] at hstop; cases hstop
  | @utc text h =>
    cases u <;> simp only [same, Bool.false_eq_true, beq_iff_eq] at hs
    exact ⟨_, .utc (hs ▸ h)⟩
  | first =>
    obtain ⟨ys, rfl⟩ := arr_of_same hs
    cases ys with
    | nil => rw [same_arr] at hs; cases hs
    | cons y ys => exact ⟨_, .first⟩

lemma unique (hw : Mend kind v w) {x : Json} (hx : Mend kind v x) : w = x := by
  generalize hk : kind = kind' at hx
  cases hw <;> cases hx <;> simp_all

end Mend

/-! ### Proposals -/

/-- The ways to write a mended value: whole, or as a new last member. -/
inductive Fix.Writes (path : Path) : Json → Json → Fix → Prop where
  | whole {v w : Json} : Fix.Writes path v w ⟨path, w⟩
  | member {ms : List (String × Json)} {name : String} {v : Json} :
    Fix.Writes path (.obj ms) (.obj (Members.insert name v ms)) ⟨path ++ [.key name], v⟩

lemma Fix.Writes.wellFormed {path : Path} {v w : Json} {fix : Fix} (h : Fix.Writes path v w fix)
    (hw : w.WellFormed) : fix.value.WellFormed := by
  cases h with
  | whole => exact hw
  | member => exact (wellFormed_obj.mp hw).2 _ (mem_of_lookup (Members.lookup_insert_self _ _ _))

namespace Rule

variable {i : Issue} {v : Json} {fix : Fix}

lemma mend_of_wrapInArray (h : wrapInArray.propose i v = some fix) :
    ∃ w, Mend i.kind v w ∧ Fix.Writes i.path v w fix := by
  obtain ⟨path, kind, expected, found, message⟩ := i
  simp only [wrapInArray] at h
  split at h <;> try cases h
  split_ifs at h with hc
  cases h
  obtain ⟨rfl, hv⟩ := hc
  exact ⟨_, .wrap (by simpa using hv), .whole⟩

lemma mend_of_stopDateFromStartDate (h : stopDateFromStartDate.propose i v = some fix) :
    ∃ w, Mend i.kind v w ∧ Fix.Writes i.path v w fix := by
  obtain ⟨path, kind, expected, found, message⟩ := i
  simp only [stopDateFromStartDate] at h
  split at h <;> try cases h
  split_ifs at h with hc
  obtain ⟨rfl, hstop⟩ := hc
  obtain ⟨start, hstart, rfl⟩ := Option.map_eq_some_iff.mp h
  exact ⟨_, .stopDate (by simpa using hstop) hstart, .member⟩

lemma mend_of_utcSuffix (h : utcSuffix.propose i v = some fix) :
    ∃ w, Mend i.kind v w ∧ Fix.Writes i.path v w fix := by
  obtain ⟨path, kind, expected, found, message⟩ := i
  simp only [utcSuffix] at h
  split at h <;> try cases h
  split_ifs at h with hc
  cases h
  obtain ⟨rfl, hz⟩ := hc
  exact ⟨_, .utc hz, .whole⟩

lemma mend_of_firstElementAsString (h : firstElementAsString.propose i v = some fix) :
    ∃ w, Mend i.kind v w ∧ Fix.Writes i.path v w fix := by
  obtain ⟨path, kind, expected, found, message⟩ := i
  simp only [firstElementAsString] at h
  split at h <;> try cases h
  split_ifs at h with hc
  cases h
  subst hc
  exact ⟨_, .first, .whole⟩

end Rule

namespace Catalogue

variable {i : Issue} {v w : Json}

/-- Standard rules propose mends, in whatever order and number they stand. -/
lemma mend_of_propose_of_subset {c : Catalogue} (hc : c ⊆ standard) {rule : String} {fix : Fix}
    (h : c.propose i v = some (rule, fix)) :
    ∃ w, Mend i.kind v w ∧ Fix.Writes i.path v w fix := by
  obtain ⟨r, hr, hp⟩ := List.exists_of_findSome?_eq_some h
  obtain ⟨fix', hf, he⟩ := Option.map_eq_some_iff.mp hp
  cases he
  have hstandard := hc hr
  simp only [standard, List.mem_cons, List.not_mem_nil, or_false] at hstandard
  rcases hstandard with rfl | rfl | rfl | rfl
  · exact Rule.mend_of_wrapInArray hf
  · exact Rule.mend_of_stopDateFromStartDate hf
  · exact Rule.mend_of_utcSuffix hf
  · exact Rule.mend_of_firstElementAsString hf

lemma mend_of_propose {rule : String} {fix : Fix} (h : standard.propose i v = some (rule, fix)) :
    ∃ w, Mend i.kind v w ∧ Fix.Writes i.path v w fix :=
  mend_of_propose_of_subset (List.Subset.refl standard) h

lemma writesWellFormedFor_of_subset {c : Catalogue} (hc : c ⊆ standard) (i : Issue) :
    c.WritesWellFormedFor i := by
  intro v rule fix hv h
  obtain ⟨w, hm, hw⟩ := mend_of_propose_of_subset hc h
  exact hw.wellFormed (hm.wellFormed hv)

lemma exists_propose {r : Rule} (hr : r ∈ standard) (h : (r.propose i v).isSome) :
    ∃ rule fix, standard.propose i v = some (rule, fix) := by
  cases hp : standard.propose i v with
  | some p => exact ⟨p.1, p.2, rfl⟩
  | none =>
    have hn := List.findSome?_eq_none_iff.mp hp r hr
    rw [Option.map_eq_none_iff] at hn
    simp [hn] at h

lemma propose_of_mend (h : Mend i.kind v w) :
    ∃ rule fix, standard.propose i v = some (rule, fix) := by
  obtain ⟨path, kind, expected, found, message⟩ := i
  cases h with
  | wrap h =>
    exact exists_propose (r := .wrapInArray) (by simp [standard]) (by simp [Rule.wrapInArray, h])
  | stopDate hstop hstart =>
    exact exists_propose (r := .stopDateFromStartDate) (by simp [standard])
      (by simp [Rule.stopDateFromStartDate, hstop, hstart])
  | utc h =>
    exact exists_propose (r := .utcSuffix) (by simp [standard]) (by simp [Rule.utcSuffix, h])
  | first =>
    exact exists_propose (r := .firstElementAsString) (by simp [standard])
      (by simp [Rule.firstElementAsString])

/-! ### Treatments -/

/-- A mended value can be written wherever the value before it could be read. -/
lemma set_of_writes {doc : Json} {path : Path} {fix : Fix} (hd : doc.place? path = some v)
    (h : Fix.Writes path v w fix) :
    ∃ old, doc.set fix.path fix.value = .ok ⟨old, put path w doc⟩ := by
  cases h with
  | whole => exact ⟨_, set_of_place hd w⟩
  | @member ms name x => exact ⟨_, set_member hd name x⟩

lemma write_of_writes {doc : Json} (rule : String) {path : Path} {fix : Fix}
    (hd : doc.place? path = some v) (hw : w.WellFormed) (h : Fix.Writes path v w fix) :
    write doc rule fix = .fixed ⟨rule, fix.path⟩ (put path w doc) := by
  obtain ⟨old, hset⟩ := set_of_writes hd h
  exact write_of_set (h.wellFormed hw) hset

/-- What a treatment by the standard rules can do. -/
theorem treat_cases {doc : Json} (hd : doc.WellFormed) (i : Issue) :
    (standard.treat doc i = .outstanding ∧
      ∀ v w, doc.place? i.path = some v → v.same i.found = true → ¬ Mend i.kind v w) ∨
    ∃ v w fix, doc.place? i.path = some v ∧ v.same i.found = true ∧ Mend i.kind v w ∧
      standard.treat doc i = .fixed fix (put i.path w doc) := by
  unfold treat proposeAt
  cases hg : doc.get i.path with
  | error e =>
    refine Or.inl ⟨rfl, fun v w hv => ?_⟩
    rw [get_eq_ok_iff.mpr hv] at hg; cases hg
  | ok v =>
    have hv := get_eq_ok_iff.mp hg
    by_cases hs : v.same i.found = true
    · simp only [hs, ↓reduceIte]
      cases hp : standard.propose i v with
      | none =>
        refine Or.inl ⟨rfl, fun v' w hv' _ hm => ?_⟩
        obtain rfl : v = v' := Option.some.inj (hv.symm.trans hv')
        obtain ⟨rule, fix, hp'⟩ := propose_of_mend hm
        rw [hp] at hp'; cases hp'
      | some p =>
        obtain ⟨rule, fix⟩ := p
        obtain ⟨w, hm, hw⟩ := mend_of_propose hp
        exact Or.inr ⟨v, w, _, hv, hs, hm,
          write_of_writes rule hv (hm.wellFormed (wellFormed_place hd hv)) hw⟩
    · simp only [hs, Bool.false_eq_true, ↓reduceIte]
      refine Or.inl ⟨trivial, fun v' w hv' hs' => ?_⟩
      obtain rfl : v = v' := Option.some.inj (hv.symm.trans hv')
      exact absurd hs' hs

/-- A treatment mends what can be mended. -/
lemma treat_of_mend {doc : Json} (hd : doc.WellFormed) (hv : doc.place? i.path = some v)
    (hs : v.same i.found = true) (hm : Mend i.kind v w) :
    ∃ fix, standard.treat doc i = .fixed fix (put i.path w doc) := by
  rcases treat_cases hd i with ⟨-, hno⟩ | ⟨v', w', fix, hv', -, hm', ht⟩
  · exact absurd hm (hno v w hv hs)
  · obtain rfl : v = v' := Option.some.inj (hv.symm.trans hv')
    obtain rfl := hm.unique hm'
    exact ⟨fix, ht⟩

end Catalogue

end RecordCuration
