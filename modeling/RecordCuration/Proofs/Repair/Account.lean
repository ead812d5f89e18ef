import RecordCuration.Proofs.Repair.Ending

/-!
What a run counts.

A run makes one pass after the other, each over the issues of the document that the one before
left. The counts of the rules add up to the fixes of all passes. Every pass but the last of a run
that gave up wrote something, so there are no more passes than fixes, and one more then.
-/

namespace RecordCuration

/-! ### Passes of a run -/

/-- Passes lead from one document to another, each over the issues of what it finds. -/
inductive Repairer.Chain (validator : Validator) (c : Catalogue) :
    Json → List Pass → Json → Prop where
  | done {doc : Json} : Chain validator c doc [] doc
  | pass {doc next last : Json} {p : Pass} {ps : List Pass}
    (hp : c.pass (validator.validate doc) doc = (next, .ok p))
    (h : Chain validator c next ps last) :
    Chain validator c doc (p :: ps) last

namespace Repairer

variable {validator : Validator} {c : Catalogue} {left : ℕ} {doc last : Json} {ps : List Pass}
  {r : RepairRun}

/-- A run is a chain of passes, as many as it counts, with the fixes that it lists. -/
lemma Runs.exists_chain (h : Runs validator c left doc r) :
    ∃ ps, Chain validator c doc ps r.document ∧
    r.passes = ps.length ∧ r.fixes = ps.flatMap Pass.fixes := by
  induction h with
  | valid _ => exact ⟨[], .done, rfl, rfl⟩
  | limit _ => exact ⟨[], .done, rfl, rfl⟩
  | @stuck left doc p _ hp hnone => exact ⟨[p], .pass hp .done, rfl, by simp [hnone]⟩
  | @applied left doc next p r hp _ _ ih =>
    obtain ⟨ps, hps, hlength, hfixes⟩ := ih
    exact ⟨p :: ps, .pass hp hps, by simp [hlength], by simp [hfixes]⟩

lemma Chain.mem_names (h : Chain validator c doc ps last) :
    ∀ fix ∈ ps.flatMap Pass.fixes, fix.rule ∈ c.names := by
  induction h with
  | done => simp
  | pass hp _ ih =>
    intro fix hfix
    rw [List.flatMap_cons] at hfix
    rcases List.mem_append.mp hfix with hfix | hfix
    · exact Catalogue.mem_names_of_pass hp fix hfix
    · exact ih fix hfix

lemma Runs.passes_le (h : Runs validator c left doc r) : r.passes ≤ left := by
  induction h with
  | valid _ => exact Nat.zero_le _
  | limit _ => exact le_rfl
  | stuck _ _ _ => exact Nat.le_add_left _ _
  | applied _ _ _ ih =>
    rw [RepairRun.passes_after]
    exact Nat.succ_le_succ ih

/-- The pass that wrote nothing is the last of a run that gave up. -/
lemma Runs.passes_le_fixes (h : Runs validator c left doc r) :
    match r.outcome with
    | .unrepairable _ => r.passes ≤ r.fixes.length + 1
    | _ => r.passes ≤ r.fixes.length := by
  induction h with
  | valid _ => exact le_rfl
  | limit _ => exact le_rfl
  | stuck _ _ _ => exact le_rfl
  | @applied left doc next p r _ hsome _ ih =>
    have hpos : 0 < p.fixes.length := List.length_pos_iff.mpr hsome
    cases hout : r.outcome <;>
      · simp only [RepairRun.outcome_after, RepairRun.passes_after, RepairRun.fixes_after, hout,
          List.length_append] at ih ⊢
        omega

end Repairer

/-- **What a run counts**: its passes are as many as there were, and within the limit; each count
is of a rule of the catalogue, and above zero; the counts add up to the fixes that the passes
wrote; and there are no more passes than fixes, or one more when the run gave up. -/
theorem run_accounts {validator : Validator} {c : Catalogue} {passes : ℕ} {doc : Json}
    {r : RepairRun} (h : Repairer.run ⟨validator, c, passes⟩ doc = .ok r) :
    ∃ ps, Repairer.Chain validator c doc ps r.document ∧ r.passes = ps.length ∧ r.passes ≤ passes ∧
      (∀ u ∈ r.ruleCounts, u.1 ∈ c.names ∧ u.2 ≠ 0) ∧
      (r.ruleCounts.map Prod.snd).sum = (ps.map fun p => p.fixes.length).sum ∧
      match r.outcome with
      | .unrepairable _ => r.passes ≤ (r.ruleCounts.map Prod.snd).sum + 1
      | _ => r.passes ≤ (r.ruleCounts.map Prod.snd).sum := by
  have hr := Repairer.runWith_eq_ok_iff.mp h
  obtain ⟨ps, hps, hlength, hfixes⟩ := hr.exists_chain
  have hsum : (r.ruleCounts.map Prod.snd).sum = r.fixes.length := by
    rw [hr.ruleCounts_eq, RuleCounts.total_count]
  refine ⟨ps, hps, hlength, hr.passes_le, fun u hu => ?_, ?_, ?_⟩
  · rw [hr.ruleCounts_eq] at hu
    obtain ⟨fix, hfix, hname⟩ := RuleCounts.mem_names_count (List.mem_map_of_mem hu)
    exact ⟨hname ▸ hps.mem_names fix (hfixes ▸ hfix), RuleCounts.ne_zero_count u hu⟩
  · rw [hsum, hfixes, List.length_flatMap]
  · rw [hsum]
    exact hr.passes_le_fixes

/-- Two passes and one fix: the second pass wrote nothing. -/
theorem numberedNames_run_accounts : ∃ r remaining ps,
    Repairer.run ⟨namesEngine 0, .standard, 32⟩ numberedNames = .ok r ∧
      r.outcome = .unrepairable remaining ∧ r.passes = 2 ∧ r.fixes = [aliasFix] ∧
      Repairer.Chain (namesEngine 0) .standard numberedNames ps r.document ∧ ps.length = 2 ∧
      (∀ u ∈ r.ruleCounts, u.1 ∈ Catalogue.standard.names ∧ u.2 ≠ 0) ∧
      (r.ruleCounts.map Prod.snd).sum = (ps.map fun p => p.fixes.length).sum ∧
      r.passes ≤ (r.ruleCounts.map Prod.snd).sum + 1 := by
  have hrun : Repairer.run ⟨namesEngine 0, .standard, 32⟩ numberedNames = .ok _ :=
    (runs_numberedNames 30).runWith
  obtain ⟨ps, hps, hlength, -, hcounts, hsum, hle⟩ := run_accounts hrun
  exact ⟨_, _, ps, hrun, rfl, rfl, rfl, hps, hlength.symm, hcounts, hsum, hle⟩

end RecordCuration
