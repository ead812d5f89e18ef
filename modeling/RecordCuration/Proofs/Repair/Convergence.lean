import RecordCuration.Proofs.Draft7.Location
import RecordCuration.Proofs.JsonSchema.Reference
import RecordCuration.Proofs.Repair.Debt
import RecordCuration.Proofs.Repair.Run

/-!
Repair runs end by themselves.

Every fix of a pass mends a spot of the document, so a pass that writes something lowers the debt of
the document. A run with more passes than the debt ends with a valid document or with a pass that
wrote nothing.
-/

namespace RecordCuration

open Json Draft7 JsonSchema

/-- An issue at a spot, where a standard rule does what the slot allows, if it finds the value that
the issue was raised for. -/
def Located (formats : Bool) (resolver : Resolver) (array : Bool) (t : FrameType) (now : Json)
    (i : Issue) : Prop :=
  ∃ array' t' p u, i.path = p.map Segment.canonical ∧ Spot resolver array' t' u array t p now ∧
    ∀ v w, v.same i.found = true → Mend i.kind v w → Mends formats resolver array' t' v w

section Passes

variable {formats array : Bool} {resolver : Resolver} {t : FrameType} {now next : Json} {i : Issue}

lemma Located.of_mends (h : Located formats resolver array t now i)
    (hm : Mends formats resolver array t now next) : Located formats resolver array t next i := by
  obtain ⟨array', t', p, u, hp, hs, hmend⟩ := h
  obtain ⟨u', hs', -⟩ := hs.of_mends hm
  exact ⟨array', t', p, u', hp, hs', hmend⟩

/-- Every issue of a validation is located. -/
lemma located_of_mem {fault : Fault} (hnow : now.WellFormed)
    (h : fault ∈ slotFaults formats resolver array t [] now) :
    Located formats resolver array t now fault.toIssue := by
  obtain ⟨array', t', p, hp, hs, hw⟩ := stands_of_mem hnow h
  refine ⟨array', t', p, fault.found, ?_, hs, fun v w hv hm => mends_of_wrong hw hv hm⟩
  show Issue.pathOf fault.path.pointer = _
  rw [Issue.pathOf_pointer, hp]
  rfl

/-- A treatment leaves the document or mends a spot of it. -/
lemma treat_mends (h : Located formats resolver array t now i) (hnow : now.WellFormed) :
    Catalogue.standard.treat now i = .outstanding ∨ ∃ fix next,
      Catalogue.standard.treat now i = .fixed fix next ∧ next.WellFormed ∧
      Mends formats resolver array t now next := by
  obtain ⟨array', t', p, u, hp, hs, hmend⟩ := h
  rcases Catalogue.treat_cases hnow i with ⟨ht, -⟩ | ⟨v, w, fix, hv, hsame, hm, ht⟩
  · exact Or.inl ht
  · rw [hp] at hv
    obtain rfl : u = v := Option.some.inj (hs.place?.symm.trans (place?_of_canonical hv))
    rw [hp, put_canonical hv] at ht
    refine Or.inr ⟨fix, _, ht, wellFormed_put _ ?_ hnow, hs.mends (hmend _ _ hsame hm)⟩
    exact hm.wellFormed (wellFormed_place hnow hs.place?)

/-- **A pass pays off**: it ends well, and if it writes something the debt goes down. -/
theorem pass_pays {issues : List Issue} (hnow : now.WellFormed)
    (h : ∀ i ∈ issues, Located formats resolver array t now i) :
    ∃ next p, Catalogue.standard.pass issues now = (next, .ok p) ∧ next.WellFormed ∧
      debt resolver array t next ≤ debt resolver array t now ∧
      (p.fixes ≠ [] → debt resolver array t next < debt resolver array t now) := by
  induction issues generalizing now with
  | nil => exact ⟨now, _, rfl, hnow, le_rfl, fun hne => absurd rfl hne⟩
  | cons i is ih =>
    obtain ⟨hi, his⟩ := List.forall_mem_cons.mp h
    rcases treat_mends hi hnow with ht | ⟨fix, mid, ht, hmid, hm⟩
    · obtain ⟨next, p, hp, hnext, hle, hlt⟩ := ih hnow his
      exact ⟨next, _, (Catalogue.pass_outstanding_iff ht).mpr ⟨p, hp, rfl⟩, hnext, hle, hlt⟩
    · obtain ⟨next, p, hp, hnext, hle, -⟩ := ih hmid fun j hj => (his j hj).of_mends hm
      have hpay := debt_mends hm
      refine ⟨next, _, (Catalogue.pass_fixed_iff ht).mpr ⟨p, hp, rfl⟩, hnext, ?_, fun _ => ?_⟩
      all_goals omega

end Passes

/-! ### Runs -/

section Runs

variable {resolver : Resolver} {array : Bool} {t : FrameType} {engine : Engine}

/-- With more passes than there is debt a run does not use them up. -/
lemma runWith_ends (hfaults : ∀ doc, engine.faults doc =
      slotFaults engine.config.formats resolver array t [] doc) {passes : ℕ} {doc : Json}
    (hdoc : doc.WellFormed) (hlt : debt resolver array t doc < passes) :
    ∃ r, Repairer.runWith engine .standard passes doc = .ok r ∧
      ∀ issues, r.outcome ≠ .passLimit issues := by
  induction passes generalizing doc with
  | zero => omega
  | succ passes ih =>
    have hlocated : ∀ i ∈ engine.validate doc,
        Located engine.config.formats resolver array t doc i := by
      intro i hi
      obtain ⟨fault, hf, rfl⟩ := List.mem_map.mp (Engine.mem_issues_of_mem_validate hi)
      rw [hfaults] at hf
      exact located_of_mem hdoc hf
    obtain ⟨next, p, hp, hnext, -, hpay⟩ := pass_pays hdoc hlocated
    by_cases hvalid : engine.validate doc = []
    · exact ⟨_, Repairer.runWith_of_valid _ hvalid, by simp⟩
    by_cases hf : p.fixes = []
    · exact ⟨_, Repairer.runWith_of_stuck hvalid hp hf, by simp⟩
    · have hless := hpay hf
      obtain ⟨r, hr, hend⟩ := ih hnext (by omega)
      rw [Repairer.runWith_of_applied hp hf, hr]
      exact ⟨r.after p.fixes, rfl, hend⟩

end Runs

/-- **Runs converge**: for an engine compiled from the schema of a container, in which references
resolve by name, every document has a number of passes from which on a run ends before the limit,
with a valid document or because nothing more can be mended. -/
theorem run_converges {m : Model} {context : GraphContext} {g : GraphSchema}
    (h : GraphSchema.ofModel m context = .ok g) {container : String}
    (hc : container ∈ m.containers) {source : Json}
    (hsource : g.schemaForClass container = .ok source) (hrefs : ResolvesByName source)
    {config : ValidationConfig} {engine : Engine}
    (hcompile : Engine.compile source config = .ok engine) {doc : Json} (hdoc : doc.WellFormed) :
    ∃ bound, ∀ passes, bound ≤ passes →
      ∃ r, Repairer.run ⟨engine, .standard, passes⟩ doc = .ok r ∧
        ∀ issues, r.outcome ≠ .passLimit issues := by
  obtain ⟨source', root, he⟩ := exists_emitted h hc
  obtain rfl : source' = source := Except.ok.inj (he.schema.symm.trans hsource)
  obtain ⟨rfl, hfaults⟩ := faults_of_compile h he hrefs hcompile
  refine ⟨debt g.frame false (.classRef container) doc + 1, fun passes hle => ?_⟩
  exact runWith_ends hfaults hdoc hle

/-- A mission that needs everything mended: a lone time span without an end, which names another
such mission. -/
def brokenMission : Json :=
  .obj [("Name", .arr [.str "Voyager"]), ("TimeSpan", .obj [("StartDate", .str "1977-09-05"),
    ("Mission", .obj [("TimeSpan", .obj [("StartDate", .arr [.arr []])])])])]

theorem brokenMission_run_converges :
    ∃ bound, ∀ passes, bound ≤ passes →
      ∃ r, Repairer.run ⟨sampleEngine, .standard, passes⟩ brokenMission = .ok r ∧
        ∀ issues, r.outcome ≠ .passLimit issues := by
  have hwf : brokenMission.WellFormed := by
    simp [brokenMission, WellFormed, WellFormedItems, WellFormedMembers]
  exact run_converges sample_accepted (by decide) sampleSource_emitted sampleSource_resolves
    sampleEngine_compiled hwf

end RecordCuration
