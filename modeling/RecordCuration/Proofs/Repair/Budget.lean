import RecordCuration.Proofs.Repair.Account

/-!
Runs with more passes.

A run that used its passes up goes on where it stopped when it has more, and a run that ended by
itself does not use them. A run on a document that a run ended with ends at once, with the same
answer.
-/

namespace RecordCuration

/-- The third run ends as the second does, and counts what both count. -/
structure RepairRun.Sums (r s t : RepairRun) : Prop where
  outcome : t.outcome = s.outcome
  document : t.document = s.document
  passes : t.passes = r.passes + s.passes
  ruleCounts : ∀ rule, t.ruleCounts.lookup rule =
    Option.merge (· + ·) (r.ruleCounts.lookup rule) (s.ruleCounts.lookup rule)

/-- The counts of both runs, as each kept its own, add up in the run that goes on. -/
lemma RepairRun.sums_join {r s : RepairRun} (hr : r.ruleCounts = RuleCounts.count [] r.fixes)
    (hs : s.ruleCounts = RuleCounts.count [] s.fixes) : r.Sums s (r.tally.join s) where
  outcome := rfl
  document := rfl
  passes := rfl
  ruleCounts rule := by
    have hsorted : r.ruleCounts.Sorted := hr ▸ RuleCounts.sorted_nil.count r.fixes
    rw [hs]
    exact RuleCounts.lookup_count hsorted s.fixes rule

namespace Repairer

variable {validator : Validator} {c : Catalogue} {n : ℕ} {doc : Json} {r : RepairRun}
  {remaining : List Issue}

/-- A run that used its passes up, with more of them. -/
lemma Runs.runWith_add (h : Runs validator c n doc r) (hout : r.outcome = .passLimit remaining)
    (m : ℕ) : Repairer.runWith validator c (n + m) doc =
      (Repairer.runWith validator c m r.document).map r.tally.join := by
  induction h with
  | valid _ => cases hout
  | stuck _ _ _ => cases hout
  | @limit doc _ =>
    rw [Nat.zero_add]
    exact goOn_eq m .zero doc
  | @applied left doc next p r hp hsome _ ih =>
    rw [Nat.add_right_comm, runWith_of_applied hp hsome, ih hout]
    show _ = (Repairer.runWith validator c m r.document).map _
    cases Repairer.runWith validator c m r.document with
    | error fault => rfl
    | ok s => exact congrArg Except.ok (Tally.join_tally_join _ r s).symm

/-- A run that did not use its passes up, with more of them. -/
lemma runWith_add_of_ended
    (h : ∀ r remaining, runWith validator c n doc = .ok r → r.outcome ≠ .passLimit remaining)
    (m : ℕ) : runWith validator c (n + m) doc = runWith validator c n doc := by
  induction n generalizing doc with
  | zero =>
    by_cases hv : validator.validate doc = []
    · rw [runWith_of_valid _ hv, runWith_of_valid _ hv]
    · exact absurd rfl (h _ _ (runWith_of_limit hv))
  | succ n ih =>
    rw [Nat.add_right_comm]
    rcases step_cases validator c doc with
      hv | ⟨next, fault, hp⟩ | ⟨hv, p, hp, hnone⟩ | ⟨next, p, hp, hsome⟩
    · rw [runWith_of_valid _ hv, runWith_of_valid _ hv]
    · rw [runWith_of_failed hp, runWith_of_failed hp]
    · rw [runWith_of_stuck hv hp hnone, runWith_of_stuck hv hp hnone]
    · have hnext : ∀ r remaining, runWith validator c n next = .ok r →
          r.outcome ≠ .passLimit remaining := fun r remaining hr =>
        h (r.after p.fixes) remaining (by rw [runWith_of_applied hp hsome, hr]; rfl)
      rw [runWith_of_applied hp hsome, runWith_of_applied hp hsome, ih hnext]

/-- A run that gave up gives up at once on the document that it ended with. -/
lemma Runs.rerun_unrepairable (h : Runs validator c n doc r)
    (hout : r.outcome = .unrepairable remaining) :
    Runs validator c n r.document ⟨.unrepairable remaining, r.document, 1, [], []⟩ := by
  obtain ⟨rfl, hne, p, hp, hnone⟩ := h.exists_idle_pass hout
  cases n with
  | zero => cases h <;> cases hout
  | succ n => exact .stuck hne hp hnone

end Repairer

/-- **Passes only cut a run short**: a run that used up `n` passes goes on, with `m` more, as a run
of `m` passes on the document that it stopped at, and its passes and rule counts are those of both;
any other run is the same with more passes. A run on the document that a run ended with, valid or
beyond repair, ends with it again, after no pass or one. -/
theorem run_add (validator : Validator) (c : Catalogue) (n m : ℕ) (doc : Json) :
    (∀ r remaining, Repairer.run ⟨validator, c, n⟩ doc = .ok r → r.outcome = .passLimit remaining →
      (∀ s, Repairer.run ⟨validator, c, m⟩ r.document = .ok s →
        ∃ t, Repairer.run ⟨validator, c, n + m⟩ doc = .ok t ∧ r.Sums s t) ∧
      ∀ fault, Repairer.run ⟨validator, c, m⟩ r.document = .error fault →
        Repairer.run ⟨validator, c, n + m⟩ doc = .error fault) ∧
    ((∀ r remaining, Repairer.run ⟨validator, c, n⟩ doc = .ok r →
        r.outcome ≠ .passLimit remaining) →
      Repairer.run ⟨validator, c, n + m⟩ doc = Repairer.run ⟨validator, c, n⟩ doc) ∧
    (∀ r, Repairer.run ⟨validator, c, n⟩ doc = .ok r → r.outcome = .valid →
      Repairer.run ⟨validator, c, n⟩ r.document = .ok ⟨.valid, r.document, 0, [], []⟩) ∧
    ∀ r remaining, Repairer.run ⟨validator, c, n⟩ doc = .ok r →
      r.outcome = .unrepairable remaining →
      Repairer.run ⟨validator, c, n⟩ r.document =
        .ok ⟨.unrepairable remaining, r.document, 1, [], []⟩ := by
  refine ⟨fun r remaining hr hout => ?_, fun h => Repairer.runWith_add_of_ended h m,
    fun r hr hout => ?_, fun r remaining hr hout => ?_⟩
  · have hadd : Repairer.run ⟨validator, c, n + m⟩ doc =
        (Repairer.run ⟨validator, c, m⟩ r.document).map r.tally.join :=
      (Repairer.runWith_eq_ok_iff.mp hr).runWith_add hout m
    refine ⟨fun s hs => ⟨r.tally.join s, ?_, RepairRun.sums_join
      (Repairer.runWith_eq_ok_iff.mp hr).ruleCounts_eq
      (Repairer.runWith_eq_ok_iff.mp hs).ruleCounts_eq⟩, fun fault hfault => ?_⟩
    · rw [hadd, hs]
      rfl
    · rw [hadd, hfault]
      rfl
  · have hvalid := (Repairer.runWith_eq_ok_iff.mp hr).validate_document
    rw [hout] at hvalid
    exact Repairer.runWith_of_valid n hvalid
  · exact ((Repairer.runWith_eq_ok_iff.mp hr).rerun_unrepairable hout).runWith

/-- One pass lists the alias, the next gives up on the name, and neither needs a third. -/
theorem numberedNames_run_add :
    (∃ r remaining s t, Repairer.run ⟨namesEngine 0, .standard, 1⟩ numberedNames = .ok r ∧
      r.outcome = .passLimit remaining ∧
      Repairer.run ⟨namesEngine 0, .standard, 1⟩ r.document = .ok s ∧
      Repairer.run ⟨namesEngine 0, .standard, 1 + 1⟩ numberedNames = .ok t ∧ r.Sums s t) ∧
    Repairer.run ⟨namesEngine 0, .standard, 2 + 5⟩ numberedNames =
      Repairer.run ⟨namesEngine 0, .standard, 2⟩ numberedNames ∧
    Repairer.run ⟨namesEngine 0, .standard, 2⟩ numberedNamesListed =
      .ok ⟨.unrepairable ((namesEngine 0).validate numberedNamesListed), numberedNamesListed, 1,
        [], []⟩ ∧
    Repairer.run ⟨namesEngine 0, .standard, 2⟩ (.obj []) = .ok ⟨.valid, .obj [], 0, [], []⟩ := by
  obtain ⟨p, hp, hfixes⟩ := pass_numberedNames
  obtain ⟨m, hv⟩ := validate_numberedNamesListed
  have honce : Repairer.run ⟨namesEngine 0, .standard, 1⟩ numberedNames = .ok _ :=
    (Repairer.Runs.applied hp (by simp [hfixes]) (.limit (by simp [hv]))).runWith
  have hrest : Repairer.run ⟨namesEngine 0, .standard, 1⟩ numberedNamesListed = .ok _ :=
    (runs_numberedNamesListed 0).runWith
  have htwice : Repairer.run ⟨namesEngine 0, .standard, 2⟩ numberedNames = .ok _ :=
    (runs_numberedNames 0).runWith
  have hvalid : Repairer.run ⟨namesEngine 0, .standard, 2⟩ (.obj []) = .ok _ :=
    Repairer.runWith_of_valid 2 rfl
  obtain ⟨hgoes, -⟩ := run_add (namesEngine 0) .standard 1 1 numberedNames
  obtain ⟨-, hmore, -, hagain⟩ := run_add (namesEngine 0) .standard 2 5 numberedNames
  obtain ⟨-, -, hstays, -⟩ := run_add (namesEngine 0) .standard 2 5 (.obj [])
  obtain ⟨t, ht, hsums⟩ := (hgoes _ _ honce rfl).1 _ hrest
  refine ⟨⟨_, _, _, t, honce, rfl, hrest, ht, hsums⟩, hmore fun r remaining hr hout => ?_,
    hagain _ _ htwice rfl, hstays _ hvalid rfl⟩
  rw [htwice] at hr
  cases hr
  cases hout

end RecordCuration
