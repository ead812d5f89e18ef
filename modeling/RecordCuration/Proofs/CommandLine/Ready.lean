import RecordCuration.CommandLine.Run
import RecordCuration.Proofs.Json.Fault
import RecordCuration.Proofs.Record
import RecordCuration.Proofs.Repair.Ending

/-!
When commands on records succeed.

Validation and repair begin alike: they read the settings, a record, and the model, and make an
engine of the schema of the record's class. `Readied` is what they have then. Validation succeeds
just when the record has no issues, and repair just when its run leaves none and the file can be
written. Writing a file changes nothing for a command that reads others.
-/

namespace RecordCuration.CommandLine

variable {view view' : FileView} {config : Option String} {path name out text : String}
  {className : Option String} {maxPasses : Option ℕ} {s : Settings} {c : String} {source : Json}
  {e : Engine} {body : Json}

/-! ### What commands begin with -/

/-- What a command is run with: settings, the schema of a class of the model, and its engine. -/
structure Readied (view : FileView) (config : Option String) (name c : String) (s : Settings)
    (source : Json) (e : Engine) : Prop where
  settings : settings view config = .ok s
  schema : classSchema view s name c = .ok source
  engine : Engine.compile source .standard = .ok e

/-- Another view of the files gives the same settings and the same model. -/
structure Agrees (view view' : FileView) (config : Option String) (name : String) : Prop where
  settings : ∀ s, settings view config = .ok s → settings view' config = .ok s
  model : ∀ s m, CommandLine.settings view config = .ok s → model view s name = .ok m →
    model view' s name = .ok m

lemma classSchema_eq_ok_iff : classSchema view s name c = .ok source ↔
    ∃ m g, model view s name = .ok m ∧ GraphSchema.ofModel m s.context = .ok g ∧
      g.schemaForClass c = .ok source := by
  unfold classSchema graph
  simp only [bind_eq_ok_iff, mapError_eq_ok_iff]
  constructor
  · rintro ⟨g, ⟨m, hm, hg⟩, hc⟩
    exact ⟨m, g, hm, hg, hc⟩
  · rintro ⟨m, g, hm, hg, hc⟩
    exact ⟨g, ⟨m, hm, hg⟩, hc⟩

lemma Readied.of_agrees (h : Readied view config name c s source e)
    (hagrees : Agrees view view' config name) : Readied view' config name c s source e := by
  obtain ⟨m, g, hm, hg, hc⟩ := classSchema_eq_ok_iff.mp h.schema
  exact ⟨hagrees.settings s h.settings,
    classSchema_eq_ok_iff.mpr ⟨m, g, hagrees.model s m h.settings hm, hg, hc⟩, h.engine⟩

lemma Readied.unique (h : Readied view config name c s source e) {s' : Settings} {source' : Json}
    {e' : Engine} (h' : Readied view config name c s' source' e') : s = s' ∧ e = e' := by
  obtain rfl : s = s' := Except.ok.inj (h.settings.symm.trans h'.settings)
  obtain rfl : source = source' := Except.ok.inj (h.schema.symm.trans h'.schema)
  exact ⟨rfl, Except.ok.inj (h.engine.symm.trans h'.engine)⟩

lemma record_eq_ok_iff : record view path className = .ok (body, c) ↔
    ∃ text doc r, view.read path = .ok text ∧ Json.ofString? text = some doc ∧
      Record.read doc className = .ok r ∧ r.body = body ∧ r.resourceType = some c := by
  unfold record
  constructor
  · intro h
    split at h
    · cases h
    · rename_i text htext
      split at h
      · cases h
      · rename_i doc hdoc
        split at h
        · cases h
        · rename_i r hr
          split at h
          · cases h
          · rename_i htype
            cases h
            exact ⟨text, doc, r, htext, hdoc, hr, rfl, htype⟩
  · rintro ⟨text, doc, r, htext, hdoc, hr, rfl, htype⟩
    simp only [htext, hdoc, hr, htype]

/-- A record that is no JSON is told with the place where its text goes wrong. -/
theorem exists_fault_of_record {out : String} {cause : Option Json.TextFault}
    (h : record view path className = .error (.recordText out cause)) :
    out = path ∧ ∃ text fault, view.read path = .ok text ∧ Json.textFault? text = some fault ∧
      cause = some fault := by
  unfold record at h
  split at h
  · cases h
  · rename_i text htext
    split at h
    · rename_i hnone
      cases h
      obtain ⟨fault, hfault⟩ := Json.exists_textFault hnone
      exact ⟨rfl, text, fault, htext, hfault, hfault⟩
    · split at h
      · cases h
      · split at h <;> cases h

/-- The class of a record is never left open: an envelope that does not tell it is refused. -/
theorem record_ne_unknownClass : record view path className ≠ .error .unknownClass := by
  intro h
  unfold record at h
  split at h
  · cases h
  · split at h
    · cases h
    · split at h
      · cases h
      · rename_i r hr
        obtain ⟨name, htype, -⟩ := Record.resourceType_of_read hr
        rw [htype] at h
        cases h

/-- A command that names a class means that class. -/
lemma class_of_record {c' : String} (h : record view path (some c) = .ok (body, c')) :
    c' = c := by
  obtain ⟨text, doc, r, -, -, hr, -, htype⟩ := record_eq_ok_iff.mp h
  obtain ⟨name, hname, hnamed⟩ := Record.resourceType_of_read hr
  exact (Option.some.inj (htype.symm.trans hname)).trans (hnamed c rfl)

/-! ### Codes -/

/-- **Validation succeeds just when the file holds a record without issues.** -/
theorem validate_code_eq_zero_iff (h : Readied view config name c s source e) :
    ((Invocation.mk config (.validate path name (some c) none)).run view).code = 0 ↔
      ∃ body, record view path (some c) = .ok (body, c) ∧ e.validate body = [] := by
  have hcompile : (Engine.compile source .standard).mapError Fault.engine = .ok e :=
    mapError_eq_ok_iff.mpr h.engine
  cases hrecord : record view path (some c) with
  | error fault =>
    simp [Invocation.run, h.settings, runCommand, runValidate, hrecord, Result.failed, bind,
      Except.bind]
  | ok found =>
    obtain ⟨body, c'⟩ := found
    obtain rfl : c' = c := class_of_record hrecord
    by_cases hvalid : e.validate body = [] <;>
      simp [Invocation.run, h.settings, runCommand, runValidate, hrecord, h.schema, hcompile,
        hvalid, Report.isValid, table, Result.success, Result.after, bind, Except.bind, pure,
        Except.pure]

/-- A repair that succeeds leaves no issue in the document that it writes. -/
lemma written_of_repair
    (h : ((Invocation.mk config (.repair path name className (some out) maxPasses)).run view).code
      = 0) :
    ∃ s body c source e run, Readied view config name c s source e ∧
      record view path className = .ok (body, c) ∧
      (Repairer.mk e .standard (maxPasses.getD s.maxPasses)).run body = .ok run ∧
      e.validate run.document = [] ∧
      ((Invocation.mk config (.repair path name className (some out) maxPasses)).run view).written
        = [(out, run.document.pretty ++ "\n")] := by
  unfold Invocation.run at h ⊢
  cases hrun : settings view config >>= fun s => runCommand view s
      (.repair path name className (some out) maxPasses) with
  | error fault => rw [hrun] at h; cases h
  | ok result =>
    simp only [hrun] at h ⊢
    obtain ⟨s, hs, hresult⟩ := bind_eq_ok_iff.mp hrun
    obtain ⟨⟨body, c⟩, hrecord, hresult⟩ := bind_eq_ok_iff.mp hresult
    obtain ⟨source, hsource, hresult⟩ := bind_eq_ok_iff.mp hresult
    obtain ⟨e, he, hresult⟩ := bind_eq_ok_iff.mp hresult
    obtain ⟨run, hrepair, hresult⟩ := bind_eq_ok_iff.mp hresult
    rw [mapError_eq_ok_iff] at he hrepair
    have hissues := (Repairer.runWith_eq_ok_iff.mp hrepair).validate_document
    obtain ⟨hvalid, rfl⟩ : run.outcome = .valid ∧
        result = (deliver view (some out) run.document).after "" (countsText run.ruleCounts) := by
      split at hresult
      · rename_i hvalid
        cases hresult
        exact ⟨hvalid, rfl⟩
      · cases hresult
        cases h
      · cases hresult
        cases h
    refine ⟨s, body, c, source, e, run, ⟨hs, hsource, he⟩, hrecord, hrepair, ?_, ?_⟩
    · exact hissues.trans (by rw [hvalid]; rfl)
    · cases hfault : view.writeFault? out with
      | some fault => simp [deliver, hfault, Result.failed, Result.after] at h
      | none => simp [deliver, hfault, Result.after]

/-- A repair that leaves no issue writes the document. -/
lemma repair_succeeds (maxPasses : Option ℕ) (h : Readied view config name c s source e)
    {run : RepairRun} (hrecord : record view path className = .ok (body, c))
    (hrun : (Repairer.mk e .standard (maxPasses.getD s.maxPasses)).run body = .ok run)
    (hvalid : run.outcome = .valid) (hfree : view.writeFault? out = none) :
    (Invocation.mk config (.repair path name className (some out) maxPasses)).run view =
      ⟨0, "", countsText run.ruleCounts, [(out, run.document.pretty ++ "\n")]⟩ := by
  have hcompile : (Engine.compile source .standard).mapError Fault.repairEngine = .ok e :=
    mapError_eq_ok_iff.mpr h.engine
  have hrepair : ((Repairer.mk e .standard (maxPasses.getD s.maxPasses)).run body).mapError
      Fault.repair = .ok run := mapError_eq_ok_iff.mpr hrun
  simp [Invocation.run, h.settings, runCommand, runRepair, hrecord, h.schema, hcompile, hrepair,
    hvalid, deliver, hfree, Result.after, bind, Except.bind, pure, Except.pure]

/-! ### Written files -/

lemma read_update_self : (view.update out text).read out = .ok text := by
  simp [FileView.read, FileView.update]

lemma read_update_of_ne {found : String} (hne : path ≠ out) (h : view.read path = .ok found) :
    (view.update out text).read path = .ok found := by
  have hp : view.update out text path = view path := if_neg hne
  unfold FileView.read at h ⊢
  rw [hp]
  split at h <;> cases h
  rfl

/-- A file that is neither the settings nor the model can change without changing them. -/
lemma agrees_update (hconfig : config ≠ some out) (hname : name ≠ out)
    (hmodel : view.isFile name = true) : Agrees view (view.update out text) config name := by
  have hstill : (view.update out text).isFile name = true := by
    simpa only [FileView.isFile, FileView.update, if_neg hname] using hmodel
  constructor
  · intro s hs
    cases config with
    | none => exact hs
    | some file =>
      simp only [settings] at hs ⊢
      split at hs
      · cases hs
      · rename_i found hread
        have hne : file ≠ out := fun h => hconfig (congrArg some h)
        rw [read_update_of_ne hne hread]
        exact hs
  · intro s m _ hm
    rw [model, if_pos hmodel, mapError_eq_ok_iff] at hm
    rw [model, if_pos hstill, mapError_eq_ok_iff]
    unfold ModelLibrary.modelAt at hm ⊢
    split at hm
    · cases hm
    · rename_i found hread
      rw [read_update_of_ne hname hread]
      exact hm

end RecordCuration.CommandLine
