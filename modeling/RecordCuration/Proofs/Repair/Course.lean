import RecordCuration.Proofs.Path.Frame
import RecordCuration.Proofs.Repair.Run

/-!
What becomes of each issue.

A pass treats its issues in turn, each in the document that the treatments before have left.
`Treats` has a rule for each way to go on after an issue, and the passes that end well are exactly
its derivations. So every issue has a fix of its own or stays, and what is apart from all that was
written is as it was. The passes of a run follow each other in a `Course`.
-/

namespace RecordCuration

open Json

/-- An issue that was treated, the document that it was met in, and the fix that was written. -/
structure Treated where
  issue : Issue
  before : Json
  fix : Option AppliedFix

namespace Treated

/-- The account of a pass: whether there is a fix, the fixes, and the issues without one, each in
order. -/
def account (ts : List Treated) : Pass :=
  ⟨ts.any (·.fix.isSome), ts.filterMap Treated.fix, (ts.filter (·.fix.isNone)).map Treated.issue⟩

variable (i : Issue) (doc : Json) (fix : AppliedFix) (ts : List Treated)

@[simp] lemma account_left : account (⟨i, doc, none⟩ :: ts) =
    { account ts with outstanding := i :: (account ts).outstanding } := rfl

@[simp] lemma account_fixed : account (⟨i, doc, some fix⟩ :: ts) =
    { account ts with applied := true, fixes := fix :: (account ts).fixes } := rfl

end Treated

namespace Catalogue

variable {c : Catalogue} {i : Issue} {is : List Issue} {doc next last : Json} {p : Pass}
  {fix : AppliedFix} {ts : List Treated}

/-- Treatments one after the other, from a document to another. -/
inductive Treats (c : Catalogue) : Json → List Treated → Json → Prop where
  | done (doc : Json) : Treats c doc [] doc
  | left {i : Issue} {doc last : Json} {ts : List Treated} (h : c.treat doc i = .outstanding)
    (hts : Treats c doc ts last) : Treats c doc (⟨i, doc, none⟩ :: ts) last
  | fixed {i : Issue} {doc next last : Json} {fix : AppliedFix} {ts : List Treated}
    (h : c.treat doc i = .fixed fix next) (hts : Treats c next ts last) :
    Treats c doc (⟨i, doc, some fix⟩ :: ts) last

lemma Treats.pass (h : c.Treats doc ts last) :
    c.pass (ts.map Treated.issue) doc = (last, .ok (Treated.account ts)) := by
  induction h with
  | done doc => rfl
  | left h _ ih => exact (pass_outstanding_iff h).mpr ⟨_, ih, Treated.account_left ..⟩
  | fixed h _ ih => exact (pass_fixed_iff h).mpr ⟨_, ih, Treated.account_fixed ..⟩

lemma treats_of_pass (h : c.pass is doc = (last, .ok p)) :
    ∃ ts, c.Treats doc ts last ∧ ts.map Treated.issue = is ∧ Treated.account ts = p := by
  induction is generalizing doc p with
  | nil =>
    cases h
    exact ⟨[], .done _, rfl, rfl⟩
  | cons i is ih =>
    rcases pass_cons_eq_ok h with ⟨ht, q, hq, rfl⟩ | ⟨fix, next, ht, q, hq, rfl⟩
    · obtain ⟨ts, hts, rfl, rfl⟩ := ih hq
      exact ⟨⟨i, doc, none⟩ :: ts, .left ht hts, rfl, Treated.account_left ..⟩
    · obtain ⟨ts, hts, rfl, rfl⟩ := ih hq
      exact ⟨⟨i, doc, some fix⟩ :: ts, .fixed ht hts, rfl, Treated.account_fixed ..⟩

/-- **Passes are derivations**: a pass ends well when its issues can be treated one after the other,
and gives the account of the treatments. -/
theorem pass_eq_ok_iff : c.pass is doc = (last, .ok p) ↔
    ∃ ts, c.Treats doc ts last ∧ ts.map Treated.issue = is ∧ Treated.account ts = p := by
  refine ⟨treats_of_pass, ?_⟩
  rintro ⟨ts, hts, rfl, rfl⟩
  exact hts.pass

/-! ### What a pass leaves as it was -/

/-- A treatment changes nothing that is apart from its fix. -/
lemma get_of_treat (h : c.treat doc i = .fixed fix next) {q : Path} (hq : fix.path.Apart q) :
    next.get q = doc.get q := by
  obtain ⟨v, f, w, -, -, hw, rfl, hpath⟩ := treat_eq_fixed h
  exact (set_eq_ok_iff.mp hw).get_of_apart (hpath ▸ hq)

/-- Nor do treatments change anything that is apart from all their fixes. -/
theorem Treats.get_of_apart (h : c.Treats doc ts last) {q : Path}
    (hq : ∀ fix ∈ (Treated.account ts).fixes, fix.path.Apart q) : last.get q = doc.get q := by
  induction h with
  | done doc => rfl
  | left _ _ ih => exact ih hq
  | fixed h _ ih =>
    rw [Treated.account_fixed, List.forall_mem_cons] at hq
    rw [ih hq.2, get_of_treat h hq.1]

/-- **A pass loses nothing**: with any rules, the issues of a pass that ends well are treated in
their order, each with a fix or without. The fixes are those of the pass, the issues without one are
those that the pass leaves; it says that it wrote something when there is a fix. What is apart from
the places of the fixes reads as before, and without a fix the document is the same. -/
theorem pass_loses_nothing (h : c.pass is doc = (last, .ok p)) :
    (∃ ts, c.Treats doc ts last ∧ ts.map Treated.issue = is ∧
        ts.filterMap Treated.fix = p.fixes ∧
        (ts.filter (·.fix.isNone)).map Treated.issue = p.outstanding) ∧
      (p.applied = true ↔ p.fixes ≠ []) ∧
      (∀ q, (∀ fix ∈ p.fixes, fix.path.Apart q) → last.get q = doc.get q) ∧
      (p.applied = false → last = doc) := by
  have happlied := applied_iff h
  obtain ⟨ts, hts, his, rfl⟩ := treats_of_pass h
  refine ⟨⟨ts, hts, his, rfl, rfl⟩, happlied, fun q hq => hts.get_of_apart hq, fun hnone => ?_⟩
  have hnil : (Treated.account ts).fixes = [] := by
    by_contra hsome
    rw [happlied.mpr hsome] at hnone
    cases hnone
  exact (pass_of_fixes_nil h hnil).1

/-- A site that should be a list, with a depth that should be one. -/
def mooring : Json := .obj [("Site", .obj [("Depth", .int 80)]), ("Name", .str "Fram")]

def siteIssue : Issue :=
  ⟨[.key "Site"], .typeMismatch "array" "object", .null, .obj [("Depth", .int 80)], ""⟩

def siteDepthIssue : Issue :=
  ⟨[.key "Site", .key "Depth"], .typeMismatch "array" "integer", .null, .int 80, ""⟩

/-- The depth is no longer there once the site is in a list; the name is not touched. -/
theorem mooring_pass_loses_nothing : ∃ last p,
    standard.pass [siteIssue, siteDepthIssue] mooring = (last, .ok p) ∧
      p.fixes = [⟨"wrap-in-array", [.key "Site"]⟩] ∧ p.outstanding = [siteDepthIssue] ∧
      (∃ ts, standard.Treats mooring ts last ∧
        ts.map Treated.issue = [siteIssue, siteDepthIssue] ∧
        ts.filterMap Treated.fix = p.fixes ∧
        (ts.filter (·.fix.isNone)).map Treated.issue = p.outstanding) ∧
      last.get [.key "Name"] = mooring.get [.key "Name"] := by
  have hpass : standard.pass [siteIssue, siteDepthIssue] mooring =
      (.obj [("Site", .arr [.obj [("Depth", .int 80)]]), ("Name", .str "Fram")],
        .ok ⟨true, [⟨"wrap-in-array", [.key "Site"]⟩], [siteDepthIssue]⟩) := by rfl
  obtain ⟨hsplit, -, hframe, -⟩ := pass_loses_nothing hpass
  have hapart : Path.Apart [.key "Site"] [.key "Name"] :=
    Path.Apart.cons_iff.mpr (Or.inl (by decide))
  exact ⟨_, _, hpass, rfl, rfl, hsplit, hframe _ (by simpa using hapart)⟩

end Catalogue

/-! ### Runs -/

namespace Repairer

variable {validator : Validator} {c : Catalogue} {left : ℕ} {doc : Json} {r : RepairRun}

/-- Passes one after the other. Each treats issues of the document that it begins with, all or some
of them and in any order. -/
inductive Course (validator : Validator) (c : Catalogue) : Json → List Treated → Json → Prop where
  | done (doc : Json) : Course validator c doc [] doc
  | pass {doc mid last : Json} {ts us : List Treated} (hts : c.Treats doc ts mid)
    (hissues : ∀ t ∈ ts, t.issue ∈ validator.issues doc) (hrest : Course validator c mid us last) :
    Course validator c doc (ts ++ us) last

/-- A run follows a course, with the fixes that it gives. -/
lemma Runs.exists_course (h : Runs validator c left doc r) :
    ∃ ts, Course validator c doc ts r.document ∧ ts.filterMap Treated.fix = r.fixes := by
  induction h with
  | applied hp _ _ ih =>
    obtain ⟨us, hrest, hfixes⟩ := ih
    obtain ⟨ts, hts, his, rfl⟩ := Catalogue.treats_of_pass hp
    refine ⟨ts ++ us, .pass hts (fun t ht => ?_) hrest, ?_⟩
    · exact Validator.mem_issues_of_mem_validate (his ▸ List.mem_map_of_mem ht)
    · rw [List.filterMap_append, hfixes]
      rfl
  | _ => exact ⟨[], .done _, rfl⟩

end Repairer

end RecordCuration
