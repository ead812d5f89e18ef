import RecordCuration.Proofs.Repair.Run

/-!
The order of the standard rules.

A catalogue takes the first proposal, so the order of its rules matters when two of them propose
something for one issue. Of the standard rules only one answers issues of a kind. So all catalogues
that have the same rules as the standard one, in whatever order and however often, propose the same
and repair alike.
-/

namespace RecordCuration

namespace Catalogue

variable {c d : Catalogue} {r : Rule} {i : Issue} {v : Json}

/-- The standard rule that answers issues of a kind. -/
def ruleFor : IssueKind → Option Rule
  | .typeMismatch "array" _ => some .wrapInArray
  | .missingRequired "StopDate" => some .stopDateFromStartDate
  | .formatViolation "date-time" => some .utcSuffix
  | .typeMismatch "string" _ => some .firstElementAsString
  | _ => none

lemma ruleFor_of_propose (hr : r ∈ standard) (h : (r.propose i v).isSome) :
    ruleFor i.kind = some r := by
  obtain ⟨path, kind, expected, found, message⟩ := i
  obtain ⟨fix, hfix⟩ := Option.isSome_iff_exists.mp h
  simp only [standard, List.mem_cons, List.not_mem_nil, or_false] at hr
  rcases hr with rfl | rfl | rfl | rfl
  · cases kind <;> simp only [Rule.wrapInArray, reduceCtorEq] at hfix
    split_ifs at hfix with hc
    obtain ⟨rfl, -⟩ := hc
    rfl
  · cases kind <;> cases v <;> simp only [Rule.stopDateFromStartDate, reduceCtorEq] at hfix
    split_ifs at hfix with hc
    obtain ⟨rfl, -⟩ := hc
    rfl
  · cases kind <;> cases v <;> simp only [Rule.utcSuffix, reduceCtorEq] at hfix
    split_ifs at hfix with hc
    obtain ⟨rfl, -⟩ := hc
    rfl
  · cases kind <;> rcases v with _ | _ | _ | _ | _ | (_ | ⟨x, xs⟩) | _ <;>
      simp only [Rule.firstElementAsString, reduceCtorEq] at hfix
    split_ifs at hfix with hc
    subst hc
    rfl

/-- At most one rule proposes something for an issue. -/
def Exclusive (c : Catalogue) : Prop :=
  ∀ i v, ∀ r ∈ c, ∀ s ∈ c, (r.propose i v).isSome → (s.propose i v).isSome → r = s

theorem standard_exclusive : standard.Exclusive := fun _ _ _ hr _ hs hrp hsp =>
  Option.some.inj ((ruleFor_of_propose hr hrp).symm.trans (ruleFor_of_propose hs hsp))

/-- Where at most one rule proposes something, the first proposal is the only one. -/
lemma Exclusive.propose_eq_some_iff (hc : c.Exclusive) {rule : String} {fix : Fix} :
    c.propose i v = some (rule, fix) ↔ ∃ r ∈ c, r.propose i v = some fix ∧ r.name = rule := by
  constructor
  · intro h
    obtain ⟨r, hr, hp⟩ := List.exists_of_findSome?_eq_some h
    obtain ⟨fix', hfix, he⟩ := Option.map_eq_some_iff.mp hp
    cases he
    exact ⟨r, hr, hfix, rfl⟩
  · rintro ⟨r, hr, hfix, rfl⟩
    cases hp : c.propose i v with
    | none =>
      have hnone := List.findSome?_eq_none_iff.mp hp r hr
      rw [hfix] at hnone
      cases hnone
    | some p =>
      obtain ⟨s, hs, hsp⟩ := List.exists_of_findSome?_eq_some hp
      obtain ⟨fix', hfix', rfl⟩ := Option.map_eq_some_iff.mp hsp
      obtain rfl : s = r := hc i v s hs r hr (by simp [hfix']) (by simp [hfix])
      rw [hfix] at hfix'
      cases hfix'
      rfl

/-- Then neither order nor repetition of rules changes what is proposed. -/
theorem Exclusive.propose_eq (hc : c.Exclusive) (h : ∀ r, r ∈ d ↔ r ∈ c) :
    d.propose i v = c.propose i v := by
  have hd : d.Exclusive := fun i v r hr s hs => hc i v r ((h r).mp hr) s ((h s).mp hs)
  refine Option.ext fun ⟨rule, fix⟩ => ?_
  rw [hd.propose_eq_some_iff, hc.propose_eq_some_iff]
  simp only [h]

/-! ### Catalogues that propose the same -/

lemma treat_congr (h : ∀ v, d.propose i v = c.propose i v) (doc : Json) :
    d.treat doc i = c.treat doc i := by
  simp only [treat, proposeAt, h]

lemma pass_congr (h : ∀ i v, d.propose i v = c.propose i v) (issues : List Issue) (doc : Json) :
    d.pass issues doc = c.pass issues doc := by
  induction issues generalizing doc with
  | nil => rfl
  | cons i is ih => simp only [pass, treat_congr (h i), ih]

end Catalogue

lemma Repairer.goOn_congr {c d : Catalogue} (h : ∀ i v, d.propose i v = c.propose i v)
    (validator : Validator) (left : ℕ) (t : Tally) (doc : Json) :
    goOn validator d left t doc = goOn validator c left t doc := by
  induction left generalizing t doc with
  | zero => rfl
  | succ left ih => simp only [goOn, Catalogue.pass_congr h, ih]

/-- **The order of the standard rules does not matter**: two catalogues of the standard rules, with
each of them at least once, give the same pass over any issues of any document, and the same run for
any validator and any number of passes: the same document, fixes with their rules, issues left,
outcome and counts. -/
theorem priority_irrelevant {c d : Catalogue} (hc : ∀ r, r ∈ c ↔ r ∈ Catalogue.standard)
    (hd : ∀ r, r ∈ d ↔ r ∈ Catalogue.standard) :
    (∀ issues doc, c.pass issues doc = d.pass issues doc) ∧
      ∀ validator passes doc,
        Repairer.run ⟨validator, c, passes⟩ doc = Repairer.run ⟨validator, d, passes⟩ doc := by
  have hpropose : ∀ i v, c.propose i v = d.propose i v := fun i v =>
    (Catalogue.standard_exclusive.propose_eq hc).trans
      (Catalogue.standard_exclusive.propose_eq hd).symm
  exact ⟨Catalogue.pass_congr hpropose, fun validator passes doc =>
    Repairer.goOn_congr hpropose validator passes .zero doc⟩

/-- The standard rules backwards, with one of them once more. -/
def reversedRules : Catalogue := .utcSuffix :: Catalogue.standard.reverse

/-- They repair as the standard rules do. -/
theorem reversedRules_priority_irrelevant :
    (∀ r, r ∈ reversedRules ↔ r ∈ Catalogue.standard) ∧
      (∀ issues doc, Catalogue.pass reversedRules issues doc = Catalogue.standard.pass issues doc) ∧
      ∀ validator passes doc, Repairer.run ⟨validator, reversedRules, passes⟩ doc =
        Repairer.run ⟨validator, .standard, passes⟩ doc := by
  have hsame : ∀ r, r ∈ reversedRules ↔ r ∈ Catalogue.standard := by
    intro r
    simp only [reversedRules, Catalogue.standard, List.mem_cons, List.mem_reverse]
    tauto
  exact ⟨hsame, priority_irrelevant hsame fun _ => Iff.rfl⟩

end RecordCuration
