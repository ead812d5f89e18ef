import RecordCuration.Proofs.Repair.Mend

/-!
How a pass fails.

A pass fails at the first issue whose treatment fails, and leaves the document that the issues
before it left. Since what was written reads back, a treatment fails only when the place of its
fix cannot be written. The standard rules write where the issue points, or one member below, and
what can be read can be written; so passes of these rules never fail.
-/

namespace RecordCuration

open Json

namespace Catalogue

variable {c : Catalogue} {i : Issue} {issues : List Issue} {doc last next : Json}
  {fault : RepairFault}

/-- The value of an issue still stands at its place, and the fix that is proposed for it cannot be
written. -/
inductive CannotWrite (c : Catalogue) (doc : Json) (i : Issue) : RepairFault → Prop where
  | intro {v : Json} {rule : String} {fix : Fix} {cause : PathError} {after : Json}
    (hread : doc.get i.path = .ok v) (hfound : v.same i.found = true)
    (hpropose : c.propose i v = some (rule, fix))
    (hset : doc.set fix.path fix.value = .error ⟨cause, after⟩) :
    CannotWrite c doc i (.unwritable rule fix.path cause)

/-! ### Treatments -/

/-- Writing fails only for want of a place, and then nothing is written. -/
lemma write_eq_failed_iff {rule : String} {fix : Fix} (hfix : fix.value.WellFormed) :
    write doc rule fix = .failed fault next ↔ next = doc ∧
      ∃ lost, doc.set fix.path fix.value = .error lost ∧
        fault = .unwritable rule fix.path lost.cause := by
  cases hset : doc.set fix.path fix.value with
  | ok w => simp [write_of_set hfix hset]
  | error lost => simp [write, hset, document_of_set_error hset, and_comm, eq_comm]

lemma treat_eq_failed_iff (hc : c.WritesWellFormedFor i) (hdoc : doc.WellFormed) :
    c.treat doc i = .failed fault next ↔ next = doc ∧ c.CannotWrite doc i fault := by
  have hvalue : ∀ {v rule fix}, doc.get i.path = .ok v → c.propose i v = some (rule, fix) →
      fix.value.WellFormed := fun hv hp =>
    hc _ _ _ (wellFormed_place hdoc (get_eq_ok_iff.mp hv)) hp
  constructor
  · intro h
    unfold treat at h
    cases hp : c.proposeAt doc i with
    | none => simp [hp] at h
    | some proposal =>
      obtain ⟨rule, fix⟩ := proposal
      obtain ⟨v, hv, hs, hpropose⟩ := proposeAt_eq_some_iff.mp hp
      simp only [hp] at h
      obtain ⟨rfl, lost, hset, rfl⟩ := (write_eq_failed_iff (hvalue hv hpropose)).mp h
      exact ⟨rfl, .intro hv hs hpropose hset⟩
  · rintro ⟨rfl, ⟨hv, hs, hpropose, hset⟩⟩
    have hp := proposeAt_eq_some_iff.mpr ⟨_, hv, hs, hpropose⟩
    simp only [treat, hp]
    exact (write_eq_failed_iff (hvalue hv hpropose)).mpr ⟨rfl, _, hset, rfl⟩

/-- The standard rules propose nothing that cannot be written. -/
lemma not_cannotWrite_of_subset (hc : c ⊆ standard) : ¬ c.CannotWrite doc i fault := by
  rintro ⟨hv, -, hpropose, hset⟩
  obtain ⟨w, -, hw⟩ := mend_of_propose_of_subset hc hpropose
  obtain ⟨old, hok⟩ := set_of_writes (get_eq_ok_iff.mp hv) hw
  cases hset.symm.trans hok

/-! ### Passes -/

/-- After a treatment that did not fail the pass goes on with the other issues alone. -/
lemma exists_pass_rest (h : ∀ fault next, c.treat doc i ≠ .failed fault next) :
    ∃ next, ∀ is last,
      (∀ fault, c.pass (i :: is) doc = (last, .error fault) ↔
        c.pass is next = (last, .error fault)) ∧
      ((∃ p, c.pass (i :: is) doc = (last, .ok p)) ↔ ∃ p, c.pass is next = (last, .ok p)) := by
  cases ht : c.treat doc i with
  | failed fault next => exact absurd ht (h fault next)
  | outstanding =>
    refine ⟨doc, fun is last => ?_⟩
    rcases hrun : c.pass is doc with ⟨doc', result⟩
    cases result <;> simp [pass, ht, hrun, Except.map]
  | fixed fix next =>
    refine ⟨next, fun is last => ?_⟩
    rcases hrun : c.pass is next with ⟨doc', result⟩
    cases result <;> simp [pass, ht, hrun, Except.map]

/-- **The first failure ends the pass**: a pass fails when the treatment of some issue does, in
the document that a pass over the issues before it leaves. -/
theorem pass_eq_error_iff : c.pass issues doc = (last, .error fault) ↔
    ∃ before i after mid, issues = before ++ i :: after ∧
      (∃ p, c.pass before doc = (mid, .ok p)) ∧ c.treat mid i = .failed fault last := by
  induction issues generalizing doc with
  | nil => simp [pass]
  | cons i is ih =>
    simp only [List.cons_eq_append_iff]
    by_cases hfails : ∃ fault next, c.treat doc i = .failed fault next
    · obtain ⟨fault', next, ht⟩ := hfails
      constructor
      · intro h
        simp only [pass, ht, Prod.mk.injEq, Except.error.injEq] at h
        obtain ⟨rfl, rfl⟩ := h
        exact ⟨[], i, is, doc, Or.inl ⟨rfl, rfl⟩, ⟨_, rfl⟩, ht⟩
      · rintro ⟨before, j, after, mid, ⟨rfl, h⟩ | ⟨tail, rfl, -⟩, ⟨p, hp⟩, hj⟩
        · cases h
          cases hp
          simp [pass, hj]
        · simp [pass, ht] at hp
    · push Not at hfails
      obtain ⟨next, hrest⟩ := exists_pass_rest hfails
      rw [(hrest is last).1, ih]
      constructor
      · rintro ⟨before, j, after, mid, rfl, hp, hj⟩
        exact ⟨i :: before, j, after, mid, Or.inr ⟨before, rfl, rfl⟩,
          (hrest before mid).2.mpr hp, hj⟩
      · rintro ⟨before, j, after, mid, ⟨rfl, h⟩ | ⟨tail, rfl, rfl⟩, ⟨p, hp⟩, hj⟩
        · cases h
          cases hp
          exact absurd hj (hfails fault last)
        · exact ⟨tail, j, after, mid, rfl, (hrest tail mid).2.mp ⟨p, hp⟩, hj⟩

/-- Where rules write well-formed values, a pass fails only for want of a place. -/
lemma pass_eq_error_iff_cannotWrite (hc : ∀ i ∈ issues, c.WritesWellFormedFor i)
    (hdoc : doc.WellFormed) : c.pass issues doc = (last, .error fault) ↔
      ∃ before i after, issues = before ++ i :: after ∧
        (∃ p, c.pass before doc = (last, .ok p)) ∧ c.CannotWrite last i fault := by
  have hfails : ∀ {before i after mid p}, issues = before ++ i :: after →
      c.pass before doc = (mid, .ok p) → ∀ {next}, c.treat mid i = .failed fault next ↔
        next = mid ∧ c.CannotWrite mid i fault := by
    rintro before i after mid p rfl hp next
    exact treat_eq_failed_iff (hc i (by simp))
      (wellFormed_of_pass (fun j hj => hc j (by simp [hj])) hdoc hp)
  rw [pass_eq_error_iff]
  constructor
  · rintro ⟨before, i, after, mid, hsplit, ⟨p, hp⟩, hi⟩
    obtain ⟨rfl, hcannot⟩ := (hfails hsplit hp).mp hi
    exact ⟨before, i, after, hsplit, ⟨p, hp⟩, hcannot⟩
  · rintro ⟨before, i, after, hsplit, ⟨p, hp⟩, hcannot⟩
    exact ⟨before, i, after, last, hsplit, ⟨p, hp⟩, (hfails hsplit hp).mpr ⟨rfl, hcannot⟩⟩

/-- **How a pass fails.** Passes of the standard rules, in any order and number, never fail. A pass
of other rules never finds that a fix which was written does not read back; it fails exactly when
the fix that is proposed for some issue cannot be written in the document as it is then, and leaves
the document that the issues before that one left.

Rules are taken to write well-formed values, that is documents. -/
theorem pass_fails_iff_cannotWrite (hdoc : doc.WellFormed) (c : Catalogue)
    (issues : List Issue) :
    (c ⊆ standard → ∃ last p, c.pass issues doc = (last, .ok p)) ∧
    ((∀ i ∈ issues, c.WritesWellFormedFor i) → ∀ last,
      (∀ rule path, c.pass issues doc ≠ (last, .error (.unreadable rule path))) ∧
      ∀ fault, c.pass issues doc = (last, .error fault) ↔
        ∃ before i after, issues = before ++ i :: after ∧
          (∃ p, c.pass before doc = (last, .ok p)) ∧ c.CannotWrite last i fault) := by
  refine ⟨fun hstandard => ?_, fun hc last => ⟨fun rule path h => ?_, fun fault =>
    pass_eq_error_iff_cannotWrite hc hdoc⟩⟩
  · rcases hrun : c.pass issues doc with ⟨last, fault | p⟩
    · obtain ⟨before, i, after, -, -, hcannot⟩ := (pass_eq_error_iff_cannotWrite
        (fun i _ => writesWellFormedFor_of_subset hstandard i) hdoc).mp hrun
      exact absurd hcannot (not_cannotWrite_of_subset hstandard)
    · exact ⟨last, p, rfl⟩
  · obtain ⟨before, i, after, -, -, hcannot⟩ := (pass_eq_error_iff_cannotWrite hc hdoc).mp h
    cases hcannot

/-- A rule that writes below every value, where there may be no place. -/
def noteBelow : Rule where
  name := "note-below"
  propose i _ := some ⟨i.path ++ [.key "Note"], .str "to be checked"⟩

/-- A list where a string is wanted, and a number. -/
def soundings : Json := .obj [("Name", .arr [.str "Fram"]), ("Depth", .int 3850)]

def nameIssue : Issue :=
  ⟨[.key "Name"], .typeMismatch "string" "array", .str "string", .arr [.str "Fram"], ""⟩

def depthIssue : Issue := ⟨[.key "Depth"], .enumMismatch, .null, .int 3850, ""⟩

def namedSoundings : Json := .obj [("Name", .str "Fram"), ("Depth", .int 3850)]

lemma notes_writesWellFormedFor (i : Issue) :
    Catalogue.WritesWellFormedFor [.firstElementAsString, noteBelow] i := by
  intro v rule fix hv h
  obtain ⟨r, hr, hp⟩ := List.exists_of_findSome?_eq_some h
  obtain ⟨fix', hf, he⟩ := Option.map_eq_some_iff.mp hp
  cases he
  simp only [List.mem_cons, List.not_mem_nil, or_false] at hr
  rcases hr with rfl | rfl
  · obtain ⟨w, hm, hw⟩ := Rule.mend_of_firstElementAsString hf
    exact hw.wellFormed (hm.wellFormed hv)
  · cases hf
    trivial

lemma cannotWrite_namedSoundings :
    CannotWrite [.firstElementAsString, noteBelow] namedSoundings depthIssue
      (.unwritable "note-below" [.key "Depth", .key "Note"]
        (.typeMismatch "/Depth" "integer")) :=
  .intro (v := .int 3850) rfl (by decide)
    (show _ = some ("note-below", ⟨[.key "Depth", .key "Note"], .str "to be checked"⟩) from rfl) rfl

/-- The name is mended; below the depth there is no place for a note. -/
theorem soundings_pass_fails : soundings.WellFormed ∧
    (∃ last p, Catalogue.pass standard.reverse [nameIssue, depthIssue] soundings =
      (last, .ok p)) ∧
    Catalogue.pass [.firstElementAsString, noteBelow] [nameIssue, depthIssue] soundings =
      (namedSoundings, .error (.unwritable "note-below" [.key "Depth", .key "Note"]
        (.typeMismatch "/Depth" "integer"))) := by
  have hdoc : soundings.WellFormed := by simp [soundings, WellFormed, WellFormedItems]
  have hstandard := (pass_fails_iff_cannotWrite hdoc standard.reverse [nameIssue, depthIssue]).1
    (List.reverse_subset.mpr (List.Subset.refl standard))
  have hother := ((pass_fails_iff_cannotWrite hdoc [.firstElementAsString, noteBelow]
    [nameIssue, depthIssue]).2 (fun i _ => notes_writesWellFormedFor i) namedSoundings).2
  exact ⟨hdoc, hstandard, (hother _).mpr
    ⟨[nameIssue], depthIssue, [], rfl, ⟨_, rfl⟩, cannotWrite_namedSoundings⟩⟩

end Catalogue

end RecordCuration
