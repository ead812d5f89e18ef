import Mathlib.Data.String.Basic
import RecordCuration.Proofs.Outcome
import RecordCuration.Repair.Run

/-!
What a run counts as it goes on.

The counts of rules are kept in order, so one more use of a rule changes what is looked up for that
rule only. A run that goes on after other passes ends as it does alone, and counts what they counted
besides.
-/

namespace RecordCuration

/-! ### Counts of rules -/

namespace RuleCounts

variable {rule name : String} {counts : RuleCounts} {fixes : List AppliedFix}

/-- The rules are in order, each once. -/
def Sorted (counts : RuleCounts) : Prop := (counts.map Prod.fst).Pairwise (· < ·)

lemma mem_names_add :
    name ∈ (counts.add rule).map Prod.fst ↔ name = rule ∨ name ∈ counts.map Prod.fst := by
  induction counts with
  | nil => simp [add]
  | cons u counts ih =>
    obtain ⟨other, n⟩ := u
    unfold add
    split_ifs with heq hlt
    · simp [heq]
    · simp
    · rw [List.map_cons, List.mem_cons, ih, List.map_cons, List.mem_cons, or_left_comm]

lemma Sorted.add (h : counts.Sorted) (rule : String) : Sorted (counts.add rule) := by
  induction counts with
  | nil => simp [RuleCounts.add, Sorted]
  | cons u counts ih =>
    obtain ⟨other, n⟩ := u
    obtain ⟨hother, hrest⟩ := List.pairwise_cons.mp h
    unfold RuleCounts.add
    split_ifs with heq hlt
    · exact h
    · refine List.pairwise_cons.mpr ⟨fun name hname => ?_, h⟩
      rcases List.mem_cons.mp hname with rfl | hname
      · exact hlt
      · exact hlt.trans (hother name hname)
    · refine List.pairwise_cons.mpr ⟨fun name hname => ?_, ih hrest⟩
      rcases mem_names_add.mp hname with rfl | hname
      · exact lt_of_le_of_ne (not_lt.mp hlt) (Ne.symm heq)
      · exact hother name hname

lemma lookup_eq_none (h : name ∉ counts.map Prod.fst) : counts.lookup name = none := by
  rw [List.lookup_eq_none_iff]
  rintro ⟨other, n⟩ hu
  rw [bne_iff_ne]
  rintro rfl
  exact h (List.mem_map_of_mem hu)

/-- Another use counts for its rule alone. -/
lemma lookup_add (h : counts.Sorted) (rule name : String) : (counts.add rule).lookup name =
    Option.merge (· + ·) (counts.lookup name) (if name = rule then some 1 else none) := by
  induction counts with
  | nil =>
    by_cases hname : name = rule
    · simp [add, hname]
    · simp [add, List.lookup_cons, beq_false_of_ne hname, hname]
  | cons u counts ih =>
    obtain ⟨other, n⟩ := u
    obtain ⟨hother, hrest⟩ := List.pairwise_cons.mp h
    unfold add
    by_cases heq : rule = other
    · subst heq
      by_cases hname : name = rule
      · simp [hname]
      · simp [List.lookup_cons, beq_false_of_ne hname, hname]
    by_cases hlt : rule < other
    · have hnew : List.lookup rule ((other, n) :: counts) = none := by
        refine lookup_eq_none fun hmem => ?_
        rcases List.mem_cons.mp hmem with hmem | hmem
        · exact heq hmem
        · exact lt_asymm hlt (hother rule hmem)
      rw [if_neg heq, if_pos hlt]
      by_cases hname : name = rule
      · simp [hname, hnew]
      · simp [List.lookup_cons (k := rule), beq_false_of_ne hname, hname]
    · rw [if_neg heq, if_neg hlt, List.lookup_cons, List.lookup_cons, ih hrest]
      by_cases hname : name = other
      · simp [hname, Ne.symm heq]
      · simp [beq_false_of_ne hname]

lemma total_add (rule : String) (counts : RuleCounts) :
    ((counts.add rule).map Prod.snd).sum = (counts.map Prod.snd).sum + 1 := by
  induction counts with
  | nil => rfl
  | cons u counts ih =>
    unfold add
    split_ifs <;> simp [ih, Nat.add_assoc, Nat.add_comm 1]

lemma ne_zero_add (h : ∀ u ∈ counts, u.2 ≠ 0) : ∀ u ∈ counts.add rule, u.2 ≠ 0 := by
  induction counts with
  | nil => simp [add]
  | cons u counts ih =>
    obtain ⟨hu, hrest⟩ := List.forall_mem_cons.mp h
    unfold add
    split_ifs
    · exact List.forall_mem_cons.mpr ⟨Nat.succ_ne_zero _, hrest⟩
    · exact List.forall_mem_cons.mpr ⟨Nat.one_ne_zero, h⟩
    · exact List.forall_mem_cons.mpr ⟨hu, ih hrest⟩

/-! ### Counts of fixes -/

lemma count_append (counts : RuleCounts) (fixes more : List AppliedFix) :
    counts.count (fixes ++ more) = (counts.count fixes).count more := List.foldl_append

lemma count_snoc (counts : RuleCounts) (fixes : List AppliedFix) (fix : AppliedFix) :
    counts.count (fixes ++ [fix]) = (counts.count fixes).add fix.rule := count_append _ _ _

lemma Sorted.count (h : counts.Sorted) (fixes : List AppliedFix) : Sorted (counts.count fixes) := by
  induction fixes using List.reverseRecOn with
  | nil => exact h
  | append_singleton fixes fix ih => rw [count_snoc]; exact ih.add _

lemma sorted_nil : Sorted [] := .nil

lemma mem_names_count (h : name ∈ (count [] fixes).map Prod.fst) :
    ∃ fix ∈ fixes, fix.rule = name := by
  induction fixes using List.reverseRecOn with
  | nil => cases h
  | append_singleton fixes fix ih =>
    rw [count_snoc, mem_names_add] at h
    rcases h with rfl | h
    · exact ⟨fix, by simp, rfl⟩
    · obtain ⟨fix', hfix', hname⟩ := ih h
      exact ⟨fix', by simp [hfix'], hname⟩

lemma ne_zero_count : ∀ u ∈ count [] fixes, u.2 ≠ 0 := by
  induction fixes using List.reverseRecOn with
  | nil => exact List.forall_mem_nil _
  | append_singleton fixes fix ih => rw [count_snoc]; exact ne_zero_add ih

/-- Every fix is counted once. -/
theorem total_count (fixes : List AppliedFix) :
    ((count [] fixes).map Prod.snd).sum = fixes.length := by
  induction fixes using List.reverseRecOn with
  | nil => rfl
  | append_singleton fixes fix ih => rw [count_snoc, total_add, ih, List.length_append]; rfl

lemma merge_assoc (a b c : Option ℕ) : Option.merge (· + ·) (Option.merge (· + ·) a b) c =
    Option.merge (· + ·) a (Option.merge (· + ·) b c) := by
  cases a <;> cases b <;> cases c <;> simp [Nat.add_assoc]

/-- **The counts of fixes that follow each other add up**, rule by rule. -/
theorem lookup_count (h : counts.Sorted) (fixes : List AppliedFix) (rule : String) :
    (counts.count fixes).lookup rule =
      Option.merge (· + ·) (counts.lookup rule) ((count [] fixes).lookup rule) := by
  induction fixes using List.reverseRecOn with
  | nil => simp [count]
  | append_singleton fixes fix ih =>
    rw [count_snoc, count_snoc, lookup_add (h.count fixes), lookup_add (sorted_nil.count fixes), ih,
      merge_assoc]

/-- **What is counted for a rule is how often its name occurs.** -/
theorem lookup_count_nil (fixes : List AppliedFix) (rule : String) :
    (count [] fixes).lookup rule = if rule ∈ fixes.map AppliedFix.rule
      then some ((fixes.map AppliedFix.rule).count rule) else none := by
  induction fixes using List.reverseRecOn with
  | nil => rfl
  | append_singleton fixes fix ih =>
    rw [count_snoc, lookup_add (sorted_nil.count fixes), ih, List.map_append, List.count_append]
    simp only [List.mem_append, List.map_cons, List.map_nil, List.mem_singleton,
      List.count_singleton, beq_iff_eq]
    by_cases hmem : rule ∈ fixes.map AppliedFix.rule
    · by_cases hname : rule = fix.rule
      · simp [hmem, hname.symm]
      · simp [hmem, hname, Ne.symm hname]
    · have hzero := List.count_eq_zero_of_not_mem hmem
      by_cases hname : rule = fix.rule
      · simp [hmem, hzero, hname.symm]
      · simp [hmem, hname]

end RuleCounts

/-! ### Runs that go on -/

/-- What a run has counted at its end. -/
def RepairRun.tally (r : RepairRun) : Tally := ⟨r.passes, r.ruleCounts, r.fixes⟩

/-- The run that goes on after what was counted. -/
def Tally.join (t : Tally) (r : RepairRun) : RepairRun :=
  { r with
    passes := t.passes + r.passes
    ruleCounts := t.ruleCounts.count r.fixes
    fixes := t.fixes ++ r.fixes }

/-- The run that a pass with these fixes begins and `r` goes on with. -/
def RepairRun.after (fixes : List AppliedFix) : RepairRun → RepairRun :=
  (Tally.zero.begun.wrote fixes).join

namespace RepairRun

variable (fixes : List AppliedFix) (r : RepairRun)

@[simp] lemma outcome_after : (r.after fixes).outcome = r.outcome := rfl

@[simp] lemma document_after : (r.after fixes).document = r.document := rfl

@[simp] lemma passes_after : (r.after fixes).passes = r.passes + 1 := Nat.add_comm 1 r.passes

@[simp] lemma fixes_after : (r.after fixes).fixes = fixes ++ r.fixes := rfl

end RepairRun

namespace Tally

variable (t : Tally) (fixes : List AppliedFix) (r s : RepairRun)

lemma join_ended (outcome : RepairOutcome) (doc : Json) :
    t.join (zero.ended outcome doc) = t.ended outcome doc := by
  simp [join, ended, zero, RuleCounts.count]

lemma join_begun_ended (outcome : RepairOutcome) (doc : Json) :
    t.join (zero.begun.ended outcome doc) = t.begun.ended outcome doc := by
  simp [join, ended, begun, zero, RuleCounts.count]

/-- Joined from left to right or from right to left. -/
lemma join_tally_join : (t.join r).tally.join s = t.join (r.tally.join s) := by
  simp [join, RepairRun.tally, RuleCounts.count_append, Nat.add_assoc]

lemma join_after : t.join (r.after fixes) = (t.begun.wrote fixes).join r := by
  simp [RepairRun.after, join, wrote, begun, zero, RuleCounts.count_append, Nat.add_assoc]

end Tally

namespace Repairer

variable {validator : Validator} {c : Catalogue}

/-- **What was counted before does not count for how a run goes on.** -/
theorem goOn_eq (left : ℕ) (t : Tally) (doc : Json) :
    goOn validator c left t doc = (runWith validator c left doc).map t.join := by
  induction left generalizing t doc with
  | zero =>
    unfold runWith goOn
    cases validator.validate doc <;> simp [Except.map, Tally.join_ended]
  | succ left ih =>
    unfold runWith goOn
    cases validator.validate doc with
    | nil => simp [Except.map, Tally.join_ended]
    | cons i is =>
      rcases hp : c.pass (i :: is) doc with ⟨next, fault | p⟩
      · simp [hp, Except.map]
      · simp only [hp, ih]
        split
        · cases runWith validator c left next with
          | error fault => rfl
          | ok r => exact congrArg Except.ok (Tally.join_after t p.fixes r).symm
        · exact congrArg Except.ok (Tally.join_begun_ended t _ _).symm

end Repairer

end RecordCuration
