import RecordCuration.Proofs.Draft7.MetaSchema
import RecordCuration.Proofs.Repair.Mend
import RecordCuration.Proofs.Repair.Run

/-!
What the outcome of a run says about its document.

The issues that a run leaves are the ones of the document that it gives back. A document that is
beyond repair has no issue left for which a rule proposes anything, among those that the validator
keeps and that show the value at their place.
-/

namespace RecordCuration

open Json

namespace Repairer.Runs

variable {validator : Validator} {c : Catalogue} {left : ℕ} {doc : Json} {r : RepairRun}

/-- The issues that a run leaves are those of its document. -/
lemma validate_document (h : Runs validator c left doc r) :
    validator.validate r.document = r.outcome.remaining := by
  induction h with
  | valid hv => exact hv
  | limit _ => rfl
  | stuck _ _ _ => rfl
  | applied _ _ _ ih => exact ih

lemma isValid_iff (h : Runs validator c left doc r) :
    r.outcome.isValid = true ↔ validator.validate r.document = [] := by
  induction h with
  | valid hv => simpa [RepairOutcome.isValid] using hv
  | limit hv => simpa [RepairOutcome.isValid] using hv
  | stuck hv _ _ => simpa [RepairOutcome.isValid] using hv
  | applied _ _ _ ih => exact ih

/-- A run ends as beyond repair after a pass over the issues of its document that wrote nothing. -/
lemma exists_idle_pass (h : Runs validator c left doc r) {remaining : List Issue}
    (hout : r.outcome = .unrepairable remaining) :
    remaining = validator.validate r.document ∧ remaining ≠ [] ∧
      ∃ p, c.pass (validator.validate r.document) r.document = (r.document, .ok p) ∧
        p.fixes = [] := by
  induction h with
  | valid _ => cases hout
  | limit _ => cases hout
  | stuck hv hp hnone =>
    cases hout
    exact ⟨rfl, hv, _, hp, hnone⟩
  | applied _ _ _ ih => exact ih hout

lemma wellFormed (h : Runs validator c left doc r) (hc : c.WritesWellFormed)
    (hdoc : doc.WellFormed) : r.document.WellFormed := by
  induction h with
  | applied hp _ _ ih => exact ih (Catalogue.wellFormed_of_pass (fun i _ => hc i) hdoc hp)
  | _ => exact hdoc

end Repairer.Runs

lemma Catalogue.standard_writesWellFormed : standard.WritesWellFormed :=
  writesWellFormedFor_of_subset (List.Subset.refl standard)

/-! ### Outcomes and issues -/

/-- **Outcomes are truthful**: a run that ends as valid gives a document without issues, and any
other run leaves issues, which are those of the document that it gives, in their order. -/
theorem outcome_truthful {validator : Validator} {c : Catalogue} {passes : ℕ} {doc : Json}
    {r : RepairRun} (h : Repairer.run ⟨validator, c, passes⟩ doc = .ok r) :
    match r.outcome with
    | .valid => validator.validate r.document = []
    | .unrepairable remaining => remaining ≠ [] ∧ remaining = validator.validate r.document
    | .passLimit remaining => remaining ≠ [] ∧ remaining = validator.validate r.document := by
  have hissues := (Repairer.runWith_eq_ok_iff.mp h).validate_document
  have hvalid := (Repairer.runWith_eq_ok_iff.mp h).isValid_iff
  rw [hissues] at hvalid
  cases hout : r.outcome with
  | valid => rwa [hout] at hissues
  | unrepairable remaining =>
    rw [hout] at hissues hvalid
    exact ⟨fun hnil => absurd (hvalid.mpr hnil) Bool.false_ne_true, hissues.symm⟩
  | passLimit remaining =>
    rw [hout] at hissues hvalid
    exact ⟨fun hnil => absurd (hvalid.mpr hnil) Bool.false_ne_true, hissues.symm⟩

/-- A name is a text, and aliases are a list. -/
def namesSource : Json :=
  .obj [("properties", .obj [("Name", .obj [("type", .str "string")]),
    ("Alias", .obj [("type", .str "array")])])]

def namesEngine (maxErrors : ℕ) : Engine where
  schema := .all [.properties [("Name", .all [.type [.string]]), ("Alias", .all [.type [.array]])]]
  library := []
  config := ⟨true, maxErrors⟩

lemma namesEngine_compiled (maxErrors : ℕ) :
    Engine.compile namesSource ⟨true, maxErrors⟩ = .ok (namesEngine maxErrors) :=
  Engine.compile_of_closed (by decide +kernel) rfl rfl

/-- A name that no rule makes a text, and a lone alias. -/
def numberedNames : Json := .obj [("Name", .int 2), ("Alias", .str "Voyager")]

def numberedNamesListed : Json := .obj [("Name", .int 2), ("Alias", .arr [.str "Voyager"])]

def nameIssue (message : String) : Issue :=
  ⟨[.key "Name"], .typeMismatch "string" "integer", .str "string", .int 2, message⟩

def aliasIssue (message : String) : Issue :=
  ⟨[.key "Alias"], .typeMismatch "array" "string", .str "array", .str "Voyager", message⟩

def aliasFix : AppliedFix := ⟨"wrap-in-array", [.key "Alias"]⟩

lemma validate_numberedNames : ∃ m n,
    (namesEngine 0).validate numberedNames = [nameIssue m, aliasIssue n] := ⟨_, _, rfl⟩

lemma validate_numberedNamesListed : ∃ m,
    (namesEngine 0).validate numberedNamesListed = [nameIssue m] := ⟨_, rfl⟩

lemma pass_numberedNames : ∃ p, Catalogue.standard.pass
    ((namesEngine 0).validate numberedNames) numberedNames = (numberedNamesListed, .ok p) ∧
      p.fixes = [aliasFix] := by
  obtain ⟨m, n, hv⟩ := validate_numberedNames
  rw [hv]
  exact ⟨⟨true, [aliasFix], [nameIssue m]⟩, rfl, rfl⟩

lemma pass_numberedNamesListed : ∃ p, Catalogue.standard.pass
    ((namesEngine 0).validate numberedNamesListed) numberedNamesListed =
      (numberedNamesListed, .ok p) ∧ p.fixes = [] := by
  obtain ⟨m, hv⟩ := validate_numberedNamesListed
  rw [hv]
  exact ⟨⟨false, [], [nameIssue m]⟩, rfl, rfl⟩

lemma runs_numberedNamesListed (left : ℕ) :
    Repairer.Runs (namesEngine 0) .standard (left + 1) numberedNamesListed
      ⟨.unrepairable ((namesEngine 0).validate numberedNamesListed), numberedNamesListed, 1,
        [], []⟩ := by
  obtain ⟨p, hp, hnone⟩ := pass_numberedNamesListed
  obtain ⟨m, hv⟩ := validate_numberedNamesListed
  exact .stuck (by simp [hv]) hp hnone

/-- The alias is listed, and the name stays. -/
lemma runs_numberedNames (left : ℕ) :
    Repairer.Runs (namesEngine 0) .standard (left + 2) numberedNames
      ⟨.unrepairable ((namesEngine 0).validate numberedNamesListed), numberedNamesListed, 2,
        [("wrap-in-array", 1)], [aliasFix]⟩ := by
  obtain ⟨p, hp, hfixes⟩ := pass_numberedNames
  have hrun := Repairer.Runs.applied hp (by simp [hfixes]) (runs_numberedNamesListed left)
  rw [hfixes] at hrun
  exact hrun

theorem numberedNames_outcome_truthful : ∃ r remaining,
    Repairer.run ⟨namesEngine 0, .standard, 32⟩ numberedNames = .ok r ∧
      r.outcome = .unrepairable remaining ∧ remaining ≠ [] ∧
      remaining = (namesEngine 0).validate r.document := by
  have hrun : Repairer.run ⟨namesEngine 0, .standard, 32⟩ numberedNames = .ok _ :=
    (runs_numberedNames 30).runWith
  exact ⟨_, _, hrun, rfl, outcome_truthful hrun⟩

/-! ### Beyond repair -/

/-- **Beyond repair means that nothing is proposed**: after a run that gave up, no rule proposes
anything for an issue of the document that the validator keeps, if the path of the issue leads to
the value that it was raised for. -/
theorem propose_eq_none_of_unrepairable {validator : Validator} {c : Catalogue} {passes : ℕ}
    {doc : Json} {r : RepairRun} (hrun : Repairer.run ⟨validator, c, passes⟩ doc = .ok r)
    {remaining : List Issue} (hout : r.outcome = .unrepairable remaining) :
    ∀ i ∈ validator.validate r.document, ∀ v, r.document.get i.path = .ok v →
      v.same i.found = true → c.propose i v = none := by
  have hr := Repairer.runWith_eq_ok_iff.mp hrun
  obtain ⟨-, -, p, hp, hnone⟩ := hr.exists_idle_pass hout
  obtain ⟨-, hleft⟩ := Catalogue.pass_of_fixes_nil hp hnone
  exact fun i hi v hv hsame => Catalogue.treat_eq_outstanding_iff.mp (hleft i hi) v hv hsame

/-- The name is reported first. -/
lemma validate_numberedNames_limited : ∃ m,
    (namesEngine 1).validate numberedNames = [nameIssue m] := ⟨_, rfl⟩

lemma runs_numberedNames_limited (left : ℕ) :
    Repairer.Runs (namesEngine 1) .standard (left + 1) numberedNames
      ⟨.unrepairable ((namesEngine 1).validate numberedNames), numberedNames, 1, [], []⟩ := by
  obtain ⟨m, hv⟩ := validate_numberedNames_limited
  have hp : Catalogue.standard.pass ((namesEngine 1).validate numberedNames) numberedNames =
      (numberedNames, .ok ⟨false, [], [nameIssue m]⟩) := by
    rw [hv]
    rfl
  exact .stuck (by simp [hv]) hp rfl

theorem numberedNames_propose_eq_none : ∃ r remaining,
    Repairer.run ⟨namesEngine 1, .standard, 32⟩ numberedNames = .ok r ∧
      r.outcome = .unrepairable remaining ∧
      ∃ i ∈ (namesEngine 1).validate r.document, r.document.get i.path = .ok (.int 2) ∧
        Catalogue.standard.propose i (.int 2) = none := by
  have hrun : Repairer.run ⟨namesEngine 1, .standard, 32⟩ numberedNames = .ok _ :=
    (runs_numberedNames_limited 31).runWith
  obtain ⟨m, hv⟩ := validate_numberedNames_limited
  have hi : nameIssue m ∈ (namesEngine 1).validate numberedNames := by simp [hv]
  have hget : numberedNames.get (nameIssue m).path = .ok (.int 2) := rfl
  exact ⟨_, _, hrun, rfl, nameIssue m, hi, hget,
    propose_eq_none_of_unrepairable hrun rfl (nameIssue m) hi _ hget rfl⟩

/-- A run gives up on a document though something is proposed for one of its issues. -/
def Repairer.GivesUpEarly (rep : Repairer) (doc : Json) : Prop :=
  ∃ r remaining, rep.run doc = .ok r ∧ r.outcome = .unrepairable remaining ∧
    ∃ i ∈ rep.validator.issues r.document, ∃ v, r.document.get i.path = .ok v ∧
      (rep.catalogue.propose i v).isSome

/-- No members may be there. -/
def lockedSource : Json := .obj [("additionalProperties", .bool false)]

def lockedEngine : Engine := ⟨.all [.noMembers], [], .standard⟩

/-- Empties what may have no members. -/
def clearing : Rule where
  name := "clear"
  propose i _ :=
    if i.kind.keyword = "additionalProperties" then some ⟨i.path, .obj []⟩ else none

/-- **Beyond repair, and still a proposal**: where an engine keeps one issue, the lone alias is
never looked at; and where no members may be there, the issue shows the first member, which the
object at its path is not. -/
theorem givesUpEarly_limited_and_locked :
    Engine.compile namesSource ⟨true, 1⟩ = .ok (namesEngine 1) ∧
      Repairer.GivesUpEarly ⟨namesEngine 1, .standard, 32⟩ numberedNames ∧
      Engine.compile lockedSource .standard = .ok lockedEngine ∧
      Repairer.GivesUpEarly ⟨lockedEngine, [clearing], 32⟩ (.obj [("a", .int 1)]) := by
  refine ⟨namesEngine_compiled 1, ⟨_, _, (runs_numberedNames_limited 31).runWith, rfl, ?_⟩, ?_, ?_⟩
  · obtain ⟨m, n, hv⟩ := validate_numberedNames
    have hissues : (namesEngine 1).issues numberedNames = [nameIssue m, aliasIssue n] := hv
    exact ⟨aliasIssue n, by simp [hissues], .str "Voyager", rfl, rfl⟩
  · exact Engine.compile_of_closed (by decide +kernel) rfl rfl
  · exact ⟨_, _, rfl, rfl, _, List.mem_singleton.mpr rfl, _, rfl, rfl⟩

end RecordCuration
