import RecordCuration.Proofs.Repair.Pass
import RecordCuration.Proofs.Repair.Tally

/-!
One step of a repair run, and runs as derivations.

A run is done with a valid document, ends where no pass is left or after a pass that wrote nothing,
fails with a pass, and goes on after one that wrote something. `Runs` has a rule for each way to an
answer, and the runs that give one are exactly its derivations.
-/

namespace RecordCuration

namespace Repairer

variable {validator : Validator} {c : Catalogue} {left : Nat} {doc next : Json} {p : Pass}

theorem runWith_of_valid (passes : Nat) (h : validator.validate doc = []) :
    runWith validator c passes doc = .ok ⟨.valid, doc, 0, [], []⟩ := by
  unfold runWith
  cases passes <;> simp [goOn, h, Tally.ended, Tally.zero]

theorem runWith_of_limit (h : validator.validate doc ≠ []) :
    runWith validator c 0 doc = .ok ⟨.passLimit (validator.validate doc), doc, 0, [], []⟩ := by
  rw [runWith, goOn]
  cases hv : validator.validate doc with
  | nil => exact absurd hv h
  | cons i is => rfl

theorem runWith_of_stuck (h : validator.validate doc ≠ [])
    (hp : c.pass (validator.validate doc) doc = (next, .ok p)) (hnone : p.fixes = []) :
    runWith validator c (left + 1) doc =
      .ok ⟨.unrepairable (validator.validate doc), next, 1, [], []⟩ := by
  have happlied : p.applied = false := by simpa [hnone] using Catalogue.applied_iff hp
  rw [runWith, goOn]
  cases hv : validator.validate doc with
  | nil => exact absurd hv h
  | cons i is =>
    rw [hv] at hp
    simp [hp, happlied, Tally.begun, Tally.zero, Tally.ended]

theorem runWith_of_applied (hp : c.pass (validator.validate doc) doc = (next, .ok p))
    (hsome : p.fixes ≠ []) :
    runWith validator c (left + 1) doc =
      (runWith validator c left next).map (.after p.fixes) := by
  have happlied := (Catalogue.applied_iff hp).mpr hsome
  rw [runWith, goOn]
  cases hv : validator.validate doc with
  | nil =>
    -- no issue, no fix
    rw [hv] at hp
    cases hp
    exact absurd rfl hsome
  | cons i is =>
    rw [hv] at hp
    simp only [hp, happlied, if_true]
    exact goOn_eq left _ next

theorem runWith_of_failed {fault : RepairFault}
    (hp : c.pass (validator.validate doc) doc = (next, .error fault)) :
    runWith validator c (left + 1) doc = .error fault := by
  rw [runWith, goOn]
  cases hv : validator.validate doc with
  | nil =>
    rw [hv] at hp
    cases hp
  | cons i is =>
    rw [hv] at hp
    simp [hp]

/-- What is met where a pass is left: nothing is wrong, the pass fails, it writes nothing, or it
writes something. -/
lemma step_cases (validator : Validator) (c : Catalogue) (doc : Json) :
    validator.validate doc = [] ∨
    (∃ next fault, c.pass (validator.validate doc) doc = (next, .error fault)) ∨
    (validator.validate doc ≠ [] ∧
      ∃ p, c.pass (validator.validate doc) doc = (doc, .ok p) ∧ p.fixes = []) ∨
    ∃ next p, c.pass (validator.validate doc) doc = (next, .ok p) ∧ p.fixes ≠ [] := by
  rcases hpass : c.pass (validator.validate doc) doc with ⟨next, result⟩
  by_cases hv : validator.validate doc = []
  · exact Or.inl hv
  cases result with
  | error fault => exact Or.inr (Or.inl ⟨next, fault, rfl⟩)
  | ok p =>
    by_cases hf : p.fixes = []
    · obtain ⟨rfl, -⟩ := Catalogue.pass_of_fixes_nil hpass hf
      exact Or.inr (Or.inr (Or.inl ⟨hv, p, rfl, hf⟩))
    · exact Or.inr (Or.inr (Or.inr ⟨next, p, rfl, hf⟩))

/-! ### Runs that give an answer -/

/-- A run with a number of passes left gives an answer. -/
inductive Runs (validator : Validator) (c : Catalogue) : Nat → Json → RepairRun → Prop where
  | valid {left : Nat} {doc : Json} (h : validator.validate doc = []) :
    Runs validator c left doc ⟨.valid, doc, 0, [], []⟩
  | limit {doc : Json} (h : validator.validate doc ≠ []) :
    Runs validator c 0 doc ⟨.passLimit (validator.validate doc), doc, 0, [], []⟩
  | stuck {left : Nat} {doc : Json} {p : Pass} (h : validator.validate doc ≠ [])
    (hp : c.pass (validator.validate doc) doc = (doc, .ok p)) (hnone : p.fixes = []) :
    Runs validator c (left + 1) doc ⟨.unrepairable (validator.validate doc), doc, 1, [], []⟩
  | applied {left : Nat} {doc next : Json} {p : Pass} {r : RepairRun}
    (hp : c.pass (validator.validate doc) doc = (next, .ok p)) (hsome : p.fixes ≠ [])
    (hr : Runs validator c left next r) : Runs validator c (left + 1) doc (r.after p.fixes)

lemma Runs.runWith {r : RepairRun} (h : Runs validator c left doc r) :
    runWith validator c left doc = .ok r := by
  induction h with
  | valid h => exact runWith_of_valid _ h
  | limit h => exact runWith_of_limit h
  | stuck h hp hnone => exact runWith_of_stuck h hp hnone
  | applied hp hsome _ ih => rw [runWith_of_applied hp hsome, ih]; rfl

lemma runs_of_runWith {r : RepairRun} (h : runWith validator c left doc = .ok r) :
    Runs validator c left doc r := by
  induction left generalizing doc r with
  | zero =>
    by_cases hv : validator.validate doc = []
    · rw [runWith_of_valid 0 hv] at h
      cases h
      exact .valid hv
    · rw [runWith_of_limit hv] at h
      cases h
      exact .limit hv
  | succ left ih =>
    rcases step_cases validator c doc with
      hv | ⟨next, fault, hp⟩ | ⟨hv, p, hp, hnone⟩ | ⟨next, p, hp, hsome⟩
    · rw [runWith_of_valid _ hv] at h
      cases h
      exact .valid hv
    · rw [runWith_of_failed hp] at h
      cases h
    · rw [runWith_of_stuck hv hp hnone] at h
      cases h
      exact .stuck hv hp hnone
    · rw [runWith_of_applied hp hsome] at h
      obtain ⟨s, hs, rfl⟩ := map_eq_ok_iff.mp h
      exact .applied hp hsome (ih hs)

/-- **Answers are derivations.** -/
theorem runWith_eq_ok_iff {r : RepairRun} :
    runWith validator c left doc = .ok r ↔ Runs validator c left doc r :=
  ⟨runs_of_runWith, Runs.runWith⟩

/-- **The counts of a run are those of its fixes.** -/
theorem Runs.ruleCounts_eq {r : RepairRun} (h : Runs validator c left doc r) :
    r.ruleCounts = RuleCounts.count [] r.fixes := by
  induction h with
  | @applied left doc next p r _ _ _ _ => exact (RuleCounts.count_append [] p.fixes r.fixes).symm
  | _ => rfl

end Repairer

end RecordCuration
