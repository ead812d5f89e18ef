import RecordCuration.Proofs.CommandLine.Ready
import RecordCuration.Proofs.Json.Read
import RecordCuration.Proofs.Json.Reread
import RecordCuration.Proofs.JsonSchema.Omission
import RecordCuration.Proofs.JsonSchema.Reference
import RecordCuration.Proofs.Model.Reread
import RecordCuration.Proofs.Repair.Number
import RecordCuration.Proofs.Repair.Restoration

/-!
What a repair writes, given to validation.

A repair that succeeds writes a body that is valid, as text. The text is read back as that body, but
for the doubles that are read as others and for the member of an envelope, which is left out. Of a
double validation sees no more than whether it is whole, and a member that is not required can be
left out. So the file is valid for the same class, as long as it can be read at all, is taken for a
body and not for an envelope, does without the member of an envelope, and keeps its whole doubles
whole. Where one of these fails, validation can reject what a repair has written.
-/

namespace RecordCuration

open Json

/-! ### Texts without numbers -/

namespace Json

variable {v : Json}

lemma Measureless.ofString?_pretty (h : v.Measureless) (hv : v.WellFormed) :
    ofString? (v.pretty ++ "\n") = if v.depth ≤ maxNesting then some v else none := by
  have hread := Json.ofString?_pretty (f := id) h.numbersRead hv
  rwa [mapReals_id] at hread

end Json

/-! ### Emitted schemas -/

namespace JsonSchema

lemma measureless_typeFragment (t : FrameType) : (typeFragment t).Measureless := by
  cases t with
  | scalar s => cases s <;> simp [typeFragment, scalarFragment]
  | enumeration id values => simp [typeFragment, enumFragment]
  | classRef name => simp [typeFragment, referenceFragment]

lemma measureless_fieldFragment (f : FrameField) : (fieldFragment f).Measureless := by
  have htype := measureless_typeFragment f.type
  unfold fieldFragment repeated
  split_ifs <;> simp [htype]

lemma measureless_shallow (fr : Frame) : (Json.obj (shallow fr)).Measureless := by
  have hproperties : (Json.obj (Members.ofWrites (fr.fields.map fun f =>
      (f.name, fieldFragment f)))).Measureless := by
    refine measureless_obj_iff.mpr fun m hm => ?_
    obtain ⟨f, -, rfl⟩ := List.mem_map.mp (mem_of_mem_ofWrites hm)
    exact measureless_fieldFragment f
  rw [measureless_obj_iff]
  simp only [shallow, List.forall_mem_cons, List.not_mem_nil, false_imp_iff, implies_true, and_true]
  exact ⟨measureless_str _, hproperties, measureless_strings _, measureless_false⟩

/-- **No number stands in an emitted schema.** -/
theorem measureless_emitted {g : GraphSchema} {name : String} {source : Json}
    (h : g.schemaForClass name = .ok source) : source.Measureless := by
  obtain ⟨root, definitions, -, rfl, -, -, hbodies⟩ := GraphSchema.parts_of_schema h
  have hdefinitions : (Json.obj definitions).Measureless := by
    refine measureless_obj_iff.mpr fun ⟨other, body⟩ hm => ?_
    obtain ⟨fr, -, rfl⟩ := hbodies other body hm
    exact measureless_shallow fr
  exact measureless_obj_iff.mpr (List.forall_mem_cons.mpr
    ⟨hdefinitions, measureless_obj_iff.mp (measureless_shallow root)⟩)

end JsonSchema

namespace CommandLine

open JsonSchema

variable {view : FileView} {config : Option String} {path name out : String}
  {className : Option String} {maxPasses : Option ℕ} {s : Settings} {c : String} {source : Json}
  {e : Engine} {body : Json}

/-! ### Bodies -/

/-- A document with no issues is an object. -/
lemma Readied.exists_members (h : Readied view config name c s source e) {doc : Json}
    (hvalid : e.validate doc = []) : ∃ ms, doc = .obj ms := by
  obtain ⟨m, g, -, -, hc⟩ := classSchema_eq_ok_iff.mp h.schema
  obtain ⟨root, definitions, -, rfl, -⟩ := GraphSchema.parts_of_schema hc
  obtain ⟨lib, -, rfl⟩ := Engine.parts_of_compile h.engine
  have hfaults := Engine.validate_eq_nil_iff.mp hvalid
  have hobject : Draft7.TypeName.object.admits doc = true := by
    have hfirst : Draft7.Check.test (fun v => [Draft7.TypeName.object].any (·.admits v))
        (.wrongType [.object]) [] doc = [] := (List.append_eq_nil_iff.mp hfaults).1
    by_contra hnot
    simp [Draft7.Check.test, hnot, Draft7.Check.fault] at hfirst
  cases doc with
  | obj ms => exact ⟨ms, rfl⟩
  | _ => cases hobject

/-- A record is well-formed, and its whole numbers have 64 bits. -/
lemma wellFormed_of_record (h : record view path className = .ok (body, c)) :
    body.WellFormed ∧ ∀ n, Part (.int n) body → FitsWord n := by
  obtain ⟨text, doc, r, -, hdoc, hr, rfl, -⟩ := record_eq_ok_iff.mp h
  refine ⟨Record.wellFormed_of_read (wellFormed_of_ofString? hdoc) hr, fun n hn => ?_⟩
  exact fitsWord_of_isRead (isRead_of_ofString? hdoc trivial (Record.part_of_read hr trivial hn))

/-- A written body is read as the record of its class that it is, but for its doubles and for the
member of an envelope. -/
lemma record_of_written {f : Decimal.Double → Decimal.Double} {ms : List (String × Json)}
    (htext : view.read path = .ok ((Json.obj ms).pretty ++ "\n"))
    (hnumbers : NumbersRead f (.obj ms)) (hwell : (Json.obj ms).WellFormed)
    (hdepth : (Json.obj ms).depth ≤ maxNesting)
    (hbare : ∀ envelope, ms.lookup "Spase" ≠ some (.obj envelope)) :
    record view path (some c) =
      .ok (.obj (Members.remove "Spase" (ms.map fun m => (m.1, m.2.mapReals f))), c) := by
  have hread : Json.ofString? ((Json.obj ms).pretty ++ "\n") = some ((Json.obj ms).mapReals f) := by
    rw [ofString?_pretty hnumbers hwell, if_pos hdepth]
  have hbare' : ∀ envelope, (ms.map fun m => (m.1, m.2.mapReals f)).lookup "Spase" ≠
      some (.obj envelope) := by
    intro envelope h
    rw [Members.lookup_map] at h
    obtain ⟨v, hv, hobj⟩ := Option.map_eq_some_iff.mp h
    cases v with
    | obj ns => exact hbare ns hv
    | arr xs => simp at hobj
    | _ => cases hobj
  rw [mapReals_obj] at hread
  exact record_eq_ok_iff.mpr ⟨_, _, _, htext, hread, Record.read_of_bare hbare' c, rfl, rfl⟩

/-! ### Folders -/

/-- A folder has folders, a count, and one more folder under the name that envelopes have. A binder
must have folders under that name. -/
def folderModel : Model where
  version := none
  dictionary := ⟨[
    ("Folder", ⟨.container, "", ["Folder", "Count", "Spase"], []⟩),
    ("Binder", ⟨.container, "", ["Spase"], []⟩),
    ("Count", ⟨.named "Count", "", [], []⟩),
    ("Spase", ⟨.named "Folder", "", [], []⟩)], by decide⟩
  ontology := ⟨[
    ("Folder", ⟨[("Folder", ⟨"Folder", "*"⟩), ("Count", ⟨"Count", "0"⟩),
      ("Spase", ⟨"Spase", "0"⟩)], by decide⟩),
    ("Binder", ⟨[("Spase", ⟨"Spase", "+"⟩)], by decide⟩)], by decide⟩

def folderGraph : GraphSchema :=
  match GraphSchema.ofModel folderModel .standard with
  | .ok g => g
  | .error _ => .empty .standard

def folderSource : Json :=
  match folderGraph.schemaForClass "Folder" with
  | .ok source => source
  | .error _ => .null

def binderSource : Json :=
  match folderGraph.schemaForClass "Binder" with
  | .ok source => source
  | .error _ => .null

lemma folder_accepted : GraphSchema.ofModel folderModel .standard = .ok folderGraph := rfl

lemma folderSource_emitted : folderGraph.schemaForClass "Folder" = .ok folderSource := rfl

lemma binderSource_emitted : folderGraph.schemaForClass "Binder" = .ok binderSource := rfl

lemma folderSource_compiles : (Engine.compile folderSource .standard).toOption.isSome := by
  rw [Engine.compile_of_admits (by decide +kernel)]
  decide +kernel

lemma binderSource_compiles : (Engine.compile binderSource .standard).toOption.isSome := by
  rw [Engine.compile_of_admits (by decide +kernel)]
  decide +kernel

def folderEngine : Engine :=
  (Engine.compile folderSource .standard).toOption.get folderSource_compiles

def binderEngine : Engine :=
  (Engine.compile binderSource .standard).toOption.get binderSource_compiles

lemma folderEngine_compiled : Engine.compile folderSource .standard = .ok folderEngine :=
  eq_ok_of_isSome folderSource_compiles

lemma binderEngine_compiled : Engine.compile binderSource .standard = .ok binderEngine :=
  eq_ok_of_isSome binderSource_compiles

lemma faults_of_folderModel (hc : c ∈ folderModel.containers)
    (hsource : folderGraph.schemaForClass c = .ok source)
    (he : Engine.compile source .standard = .ok e) : e.config = .standard ∧ ∀ doc,
      e.faults doc = slotFaults true folderGraph.frame false (.classRef c) [] doc := by
  obtain ⟨root, hemitted⟩ := emitted_of_schema folder_accepted hc hsource
  have hrefs := resolvesByName_of_plain folder_accepted hemitted (by decide)
  exact faults_of_compile folder_accepted hemitted hrefs he

lemma validate_iff_of_folderModel (hc : c ∈ folderModel.containers)
    (hsource : folderGraph.schemaForClass c = .ok source)
    (he : Engine.compile source .standard = .ok e) (doc : Json) : e.validate doc = [] ↔
      (slotFaults true folderGraph.frame false (.classRef c) [] doc).isEmpty := by
  rw [Engine.validate_eq_nil_iff, (faults_of_folderModel hc hsource he).2, List.isEmpty_iff]

lemma folderEngine_config : folderEngine.config = .standard ∧ ∀ doc, folderEngine.faults doc =
    slotFaults true folderGraph.frame false (.classRef "Folder") [] doc :=
  faults_of_folderModel (by decide) folderSource_emitted folderEngine_compiled

lemma validate_folder_iff (doc : Json) : folderEngine.validate doc = [] ↔
    (slotFaults true folderGraph.frame false (.classRef "Folder") [] doc).isEmpty :=
  validate_iff_of_folderModel (by decide) folderSource_emitted folderEngine_compiled doc

lemma validate_binder_iff (doc : Json) : binderEngine.validate doc = [] ↔
    (slotFaults true folderGraph.frame false (.classRef "Binder") [] doc).isEmpty :=
  validate_iff_of_folderModel (by decide) binderSource_emitted binderEngine_compiled doc

/-- A directory with the model and a record. -/
def folderFiles (text : String) : FileView := fun path =>
  if path = "." then some (.directory ["folder.json", "record.json"])
  else if path = "folder.json" then some (.file (some (folderModel.toJson.pretty ++ "\n")))
  else if path = "record.json" then some (.file (some text))
  else none

lemma modelAt_of_read {view : FileView} {path text : String} {v : Source} {m : Model}
    (hread : view.read path = .ok text)
    (hextension : FileName.extension? path ∉ [some "yaml", some "yml"])
    (hv : Source.ofString? text = some v) (hm : Model.read v = .ok m) :
    ModelLibrary.modelAt view path = .ok m := by
  simp only [ModelLibrary.modelAt, hread, if_neg hextension, Model.ofJsonText, hv, hm]

lemma folderModel_canonical : folderModel.Canonical := by
  simp [Model.Canonical, folderModel, TypeTag.Canonical, TypeTag.name, TypeTag.ofName]

lemma modelAt_folderFiles (text : String) :
    ModelLibrary.modelAt (folderFiles text) "folder.json" = .ok folderModel :=
  modelAt_of_read rfl (by decide)
    (Source.ofString?_pretty folderModel.measureless_toJson.legible)
    (Model.read_toJson folderModel_canonical)

lemma readied_of_folderModel (text : String)
    (hsource : folderGraph.schemaForClass c = .ok source)
    (he : Engine.compile source .standard = .ok e) :
    Readied (folderFiles text) none "folder.json" c .standard source e where
  settings := rfl
  schema := by
    refine classSchema_eq_ok_iff.mpr ⟨folderModel, folderGraph, ?_, folder_accepted, hsource⟩
    have hfile : (folderFiles text).isFile "folder.json" = true := rfl
    rw [model, if_pos hfile, modelAt_folderFiles]
    rfl
  engine := he

lemma folderFiles_readied (text : String) :
    Readied (folderFiles text) none "folder.json" "Folder" .standard folderSource folderEngine :=
  readied_of_folderModel text folderSource_emitted folderEngine_compiled

lemma folderFiles_writeFault (text : String) :
    (folderFiles text).writeFault? "repaired.json" = none := by
  have hparent : FileName.parent "repaired.json" = "." := by decide
  simp [FileView.writeFault?, folderFiles, FileView.names?, hparent]

lemma folderFiles_agrees (text written : String) :
    Agrees (folderFiles text) ((folderFiles text).update "repaired.json" written) none
      "folder.json" :=
  agrees_update (by simp) (by decide) rfl

/-- A folder alone where folders are listed is listed by a repair. -/
lemma run_of_listed {v : Json} (hv : (Json.obj [("Folder", .arr [v])]).WellFormed)
    (haddr : (Json.obj [("Folder", .arr [v])]).Addressable)
    (hvalid : folderEngine.validate (.obj [("Folder", .arr [v])]) = []) :
    ∃ run, (Repairer.standard folderEngine).run (.obj [("Folder", v)]) = .ok run ∧
      run.outcome = .valid ∧ run.document = .obj [("Folder", .arr [v])] := by
  obtain ⟨hconfig, hfaults⟩ := folderEngine_config
  have hall : folderEngine.config.maxErrors = 0 := by rw [hconfig]; rfl
  have hformats : folderEngine.config.formats = true := by rw [hconfig]; rfl
  have hslot : folderModel.Slot "Folder" "Folder" true (.classRef "Folder") :=
    ⟨.container rfl rfl, by decide⟩
  have hshorn : Shorn folderModel false (.classRef "Folder") 1
      (.obj [("Folder", .arr [v])]) (.obj [("Folder", v)]) :=
    .members (.cons hslot (.alone .same) .nil)
  exact runWith_restores folder_accepted (by decide) hall (by rwa [hformats]) hv haddr
    (Engine.validate_eq_nil_iff.mp hvalid) hshorn (by decide)

/-- Two as a double. -/
def two : Decimal.Double := ⟨false, 2 * Decimal.Double.one⟩

lemma ofString?_two : Json.ofString? (realLayout.write two) = some (.real two) :=
  (ofString?_word_eq_some_iff (Token.isWord_real two)).mpr (by decide +kernel)

/-- A folder with a folder, which has a count. -/
def counted : Json := .obj [("Folder", .arr [.obj [("Count", .real two)]])]

/-- The same without the list. -/
def countedAlone : Json := .obj [("Folder", .obj [("Count", .real two)])]

/-- The folder inside is listed. -/
lemma run_countedAlone : ∃ run, (Repairer.standard folderEngine).run countedAlone = .ok run ∧
    run.outcome = .valid ∧ run.document = counted := by
  have hwell : counted.WellFormed := by
    simp [counted, WellFormed, WellFormedItems, WellFormedMembers]
  exact run_of_listed hwell (addressable_of_size_le (by decide))
    ((validate_folder_iff _).mpr (by decide +kernel))

lemma record_countedAlone : record (folderFiles (countedAlone.pretty ++ "\n")) "record.json"
    (some "Folder") = .ok (countedAlone, "Folder") := by
  have hnumbers : NumbersRead id countedAlone :=
    numbersRead_of_part_eq (x := two) (fun w hw h => by simpa [countedAlone, hw.part_obj] using h)
      ofString?_two
  have hwell : countedAlone.WellFormed := by simp [countedAlone, WellFormed, WellFormedMembers]
  have htext : (folderFiles (countedAlone.pretty ++ "\n")).read "record.json" =
      .ok (countedAlone.pretty ++ "\n") := rfl
  have hrecord := record_of_written (c := "Folder") htext hnumbers hwell (by decide)
    (by rintro _ ⟨⟩)
  exact hrecord.trans (by simp [countedAlone, mapReals_id, Members.remove])

/-! ### Repairs that last -/

/-- **What a repair writes stays valid.** A repair that succeeds has written the document of its
run, and validation of that file succeeds too, for the same class and with the same settings and
model. This needs a document that has no envelope, in which a member that could hold one is not
required, that nests no deeper than a text may, and whose doubles are read back whole where they are
whole and not where they are not. -/
theorem repaired_stays_valid
    (h : ((Invocation.mk config (.repair path name className (some out) maxPasses)).run view).code
      = 0) :
    ∃ s body c source e run, Readied view config name c s source e ∧
      record view path className = .ok (body, c) ∧
      (Repairer.mk e .standard (maxPasses.getD s.maxPasses)).run body = .ok run ∧
      ((Invocation.mk config (.repair path name className (some out) maxPasses)).run view).written
        = [(out, run.document.pretty ++ "\n")] ∧
      ((∀ envelope, run.document.member? "Spase" ≠ some (.obj envelope)) →
        (run.document.member? "Spase" = none ∨ ¬ Requires source "Spase") →
        run.document.depth ≤ maxNesting →
        (∀ x, Part (.real x) run.document → x.KeepsWhole) →
        ∀ view', view'.read out = .ok (run.document.pretty ++ "\n") →
          Agrees view view' config name →
          ((Invocation.mk config (.validate out name (some c) none)).run view').code = 0) := by
  obtain ⟨s, body, c, source, e, run, hready, hrecord, hrun, hvalid, hwritten⟩ :=
    written_of_repair h
  refine ⟨s, body, c, source, e, run, hready, hrecord, hrun, hwritten, ?_⟩
  intro hbare hrequired hdepth hreals view' hread hagrees
  have hruns := Repairer.runWith_eq_ok_iff.mp hrun
  obtain ⟨hbody, hints⟩ := wellFormed_of_record hrecord
  have hdoc := hruns.wellFormed Catalogue.standard_writesWellFormed hbody
  have hnumbers : NumbersRead Decimal.Double.reread run.document :=
    ⟨fun n hn => hints n (hruns.part_of_part hbody trivial hn), fun x hx => (hreals x hx).ofString?⟩
  obtain ⟨ms, hms⟩ := hready.exists_members hvalid
  rw [hms] at hbare hrequired hread hnumbers hdoc hdepth
  have hrecord' := record_of_written (c := c) hread hnumbers hdoc hdepth hbare
  obtain ⟨m, g, -, hg, hc⟩ := classSchema_eq_ok_iff.mp hready.schema
  -- what is read has other doubles and lacks a member, so it is that body which must be valid
  have hreread : e.validate (run.document.mapReals Decimal.Double.reread) = [] :=
    (Engine.validate_mapReals hready.engine (measureless_emitted hc)
      Decimal.Double.isWhole_reread).mpr hvalid
  rw [hms, mapReals_obj] at hreread
  refine (validate_code_eq_zero_iff (hready.of_agrees hagrees)).mpr ⟨_, hrecord', ?_⟩
  rcases hrequired with hnone | hnot
  · have hlookup : (ms.map fun m => (m.1, m.2.mapReals Decimal.Double.reread)).lookup "Spase" =
        none := by
      rw [Members.lookup_map, show ms.lookup "Spase" = none from hnone, Option.map_none]
    rwa [Members.remove_of_not_mem hlookup]
  · have hnames := (wellFormed_obj.mp hdoc).1
    refine validate_remove hg hc hready.engine ?_ hnot hreread
    simpa [List.map_map, Function.comp_def] using hnames

/-- The folder that a repair lists is valid when it is read. -/
theorem counted_stays_valid :
    ((Invocation.mk none (.repair "record.json" "folder.json" (some "Folder")
      (some "repaired.json") none)).run (folderFiles (countedAlone.pretty ++ "\n"))).code = 0 ∧
    ((Invocation.mk none (.validate "repaired.json" "folder.json" (some "Folder") none)).run
      ((folderFiles (countedAlone.pretty ++ "\n")).update "repaired.json"
        (counted.pretty ++ "\n"))).code = 0 := by
  have hready := folderFiles_readied (countedAlone.pretty ++ "\n")
  obtain ⟨run, hrun, hvalid, hdocument⟩ := run_countedAlone
  have hcode := congrArg Result.code (repair_succeeds none hready record_countedAlone hrun hvalid
    (folderFiles_writeFault _))
  obtain ⟨s', body', c', source', e', run', hready', hrecord', hrun', -, hstays⟩ :=
    repaired_stays_valid hcode
  obtain ⟨rfl, rfl⟩ := Prod.mk.inj (Except.ok.inj (record_countedAlone.symm.trans hrecord'))
  obtain ⟨rfl, rfl⟩ := hready.unique hready'
  obtain rfl : run = run' := Except.ok.inj (hrun.symm.trans hrun')
  rw [hdocument] at hstays
  refine ⟨hcode, hstays (by rintro _ ⟨⟩) (Or.inl rfl) (by decide) ?reals _ ?read
    (folderFiles_agrees _ _)⟩
  case reals =>
    intro x hx
    have hnumber : (Json.real x).IsNumber := trivial
    obtain rfl : x = two := by simpa [counted, hnumber.part_obj, hnumber.part_arr] using hx
    exact ⟨two, ofString?_two, rfl⟩
  case read => exact read_update_self

/-! ### Repairs that do not last -/

/-- A repair that succeeds and writes a file which validation, with the same settings, model and
class, rejects. -/
structure Lapses (view : FileView) (config : Option String) (path name c out : String) : Prop where
  repaired :
    ((Invocation.mk config (.repair path name (some c) (some out) none)).run view).code = 0
  rejected : ∃ text,
    ((Invocation.mk config (.repair path name (some c) (some out) none)).run view).written
      = [(out, text)] ∧
    Agrees view (view.update out text) config name ∧
    ((Invocation.mk config (.validate out name (some c) none)).run (view.update out text)).code ≠ 0

/-- A repair lapses if what it writes is read as no record, or as one with issues. -/
lemma Lapses.of_issues (h : Readied view config name c s source e) {run : RepairRun}
    (hrecord : record view path (some c) = .ok (body, c))
    (hrun : (Repairer.mk e .standard s.maxPasses).run body = .ok run)
    (hvalid : run.outcome = .valid) (hfree : view.writeFault? out = none)
    (hagrees : ∀ text, Agrees view (view.update out text) config name)
    (hissues : ∀ doc r, Json.ofString? (run.document.pretty ++ "\n") = some doc →
      Record.read doc (some c) = .ok r → e.validate r.body ≠ []) :
    Lapses view config path name c out := by
  have hresult := repair_succeeds none h hrecord hrun hvalid hfree
  refine ⟨by rw [hresult], run.document.pretty ++ "\n", by rw [hresult], hagrees _, ?_⟩
  rw [Ne, validate_code_eq_zero_iff (h.of_agrees (hagrees _))]
  rintro ⟨body, hbody, hnone⟩
  obtain ⟨text, doc, r, htext, hdoc, hr, rfl, -⟩ := record_eq_ok_iff.mp hbody
  obtain rfl := Except.ok.inj (read_update_self.symm.trans htext)
  exact hissues doc r hdoc hr hnone

/-- An envelope with a folder, which has a folder under the name that envelopes have. -/
def enclosed : Json := .obj [("Spase", .obj [("Folder", .obj [("Spase", .obj [])])])]

/-- The folder in the envelope. -/
def spaseFolder : Json := .obj [("Spase", .obj [])]

/-- What is written looks like an envelope, in which no folder is. -/
lemma enclosed_lapses : Lapses (folderFiles (enclosed.pretty ++ "\n")) none "record.json"
    "folder.json" "Folder" "repaired.json" := by
  have hread : Json.ofString? (enclosed.pretty ++ "\n") = some enclosed := by
    rw [Measureless.ofString?_pretty (by simp [enclosed])
      (by simp [enclosed, WellFormed, WellFormedMembers]), if_pos (by decide)]
  have hrecord : record (folderFiles (enclosed.pretty ++ "\n")) "record.json" (some "Folder") =
      .ok (spaseFolder, "Folder") :=
    record_eq_ok_iff.mpr ⟨_, _, ⟨spaseFolder, some "Folder", none, none⟩, rfl, hread, rfl, rfl, rfl⟩
  have hvalid : folderEngine.validate spaseFolder = [] :=
    (validate_folder_iff _).mpr rfl
  refine .of_issues (folderFiles_readied _) hrecord (Repairer.runWith_of_valid _ hvalid) rfl
    (folderFiles_writeFault _) (folderFiles_agrees _) fun doc r hdoc hr => ?_
  rw [Measureless.ofString?_pretty (by simp [spaseFolder])
    (by simp [spaseFolder, WellFormed, WellFormedMembers]), if_pos (by decide)] at hdoc
  cases hdoc
  cases hr

/-- An envelope with a binder that has no folders under the name that envelopes have. -/
def emptyBinder : Json := .obj [("Spase", .obj [("Binder", .obj [("Spase", .arr [])])])]

/-- The binder in the envelope. -/
def spaseBinder : Json := .obj [("Spase", .arr [])]

/-- What is written is no envelope, but is read without what a binder must have. -/
lemma emptyBinder_lapses : Lapses (folderFiles (emptyBinder.pretty ++ "\n")) none "record.json"
    "folder.json" "Binder" "repaired.json" := by
  have hread : Json.ofString? (emptyBinder.pretty ++ "\n") = some emptyBinder := by
    rw [Measureless.ofString?_pretty (by simp [emptyBinder])
      (by simp [emptyBinder, WellFormed, WellFormedMembers, WellFormedItems]), if_pos (by decide)]
  have hrecord : record (folderFiles (emptyBinder.pretty ++ "\n")) "record.json" (some "Binder") =
      .ok (spaseBinder, "Binder") :=
    record_eq_ok_iff.mpr ⟨_, _, ⟨spaseBinder, some "Binder", none, none⟩, rfl, hread, rfl, rfl, rfl⟩
  have hvalid : binderEngine.validate spaseBinder = [] :=
    (validate_binder_iff _).mpr (by decide +kernel)
  refine .of_issues (readied_of_folderModel _ binderSource_emitted binderEngine_compiled) hrecord
    (Repairer.runWith_of_valid _ hvalid) rfl (folderFiles_writeFault _) (folderFiles_agrees _)
    fun doc r hdoc hr => ?_
  rw [Measureless.ofString?_pretty (by simp [spaseBinder])
    (by simp [spaseBinder, WellFormed, WellFormedItems]), if_pos (by decide)] at hdoc
  cases hdoc
  cases hr
  exact fun hnone => absurd ((validate_binder_iff _).mp hnone) (by decide +kernel)

/-- Folders inside each other, as many as there are. -/
def nested : ℕ → Json
  | 0 => .obj [("Folder", .arr [])]
  | n + 1 => .obj [("Folder", .arr [nested n])]

lemma measureless_nested (n : ℕ) : (nested n).Measureless := by
  induction n with
  | zero => simp [nested]
  | succ n ih => simp [nested, ih]

lemma wellFormed_nested (n : ℕ) : (nested n).WellFormed := by
  induction n with
  | zero => simp [nested, WellFormed, WellFormedItems]
  | succ n ih => simp [nested, WellFormed, WellFormedItems, ih]

lemma depth_nested (n : ℕ) : (nested n).depth = 2 * n + 2 := by
  induction n with
  | zero => rfl
  | succ n ih => simp [nested, depth, depthItems, depthMembers, ih]; omega

/-- Folders that nest as deep as a text may, the outermost not listed. -/
def nestedAlone : Json := .obj [("Folder", nested 62)]

/-- The list around the outermost is one too many. -/
lemma nested_lapses : Lapses (folderFiles (nestedAlone.pretty ++ "\n")) none "record.json"
    "folder.json" "Folder" "repaired.json" := by
  have hmeasureless : nestedAlone.Measureless := by simp [nestedAlone, measureless_nested]
  have hwell : nestedAlone.WellFormed := by
    simp [nestedAlone, wellFormed_nested]
  have hdepth : nestedAlone.depth ≤ maxNesting := by
    simp [nestedAlone, depth, depthMembers, depth_nested, maxNesting]
  have hrecord : record (folderFiles (nestedAlone.pretty ++ "\n")) "record.json" (some "Folder") =
      .ok (nestedAlone, "Folder") := by
    have hread : Json.ofString? (nestedAlone.pretty ++ "\n") = some nestedAlone := by
      rw [hmeasureless.ofString?_pretty hwell, if_pos hdepth]
    exact record_eq_ok_iff.mpr ⟨_, _, _, rfl, hread, Record.read_bare rfl _, rfl, rfl⟩
  obtain ⟨run, hrun, hvalid, hdocument⟩ : ∃ run,
      (Repairer.standard folderEngine).run nestedAlone = .ok run ∧ run.outcome = .valid ∧
        run.document = nested 63 :=
    run_of_listed (wellFormed_nested 63) (addressable_of_size_le (by decide +kernel))
      ((validate_folder_iff _).mpr (by decide +kernel))
  refine .of_issues (folderFiles_readied _) hrecord hrun hvalid (folderFiles_writeFault _)
    (folderFiles_agrees _) fun doc r hdoc _ => ?_
  have hdeep : ¬ (nested 63).depth ≤ maxNesting := by simp [depth_nested, maxNesting]
  rw [hdocument, (measureless_nested 63).ofString?_pretty (wellFormed_nested 63),
    if_neg hdeep] at hdoc
  cases hdoc

/-- A whole double, which is written with digits that a half more is read from. -/
def whole : Decimal.Double := ⟨false, 3602879701896398 * Decimal.Double.one⟩

def halfMore : Decimal.Double := ⟨false, whole.units + Decimal.Double.one / 2⟩

def countOf? : Json → Option Decimal.Double
  | .obj [("Count", .real x)] => some x
  | _ => none

lemma countOf?_eq_some_iff {v : Json} {x : Decimal.Double} :
    countOf? v = some x ↔ v = .obj [("Count", .real x)] := by
  constructor
  · intro h
    unfold countOf? at h
    split at h <;> cases h
    rfl
  · rintro rfl
    rfl

def countText : String := "\x7b\"Count\": 3602879701896398e0\x7d"

/-- A number that is read where another was written. -/
lemma count_lapses : Lapses (folderFiles countText) none "record.json" "folder.json" "Folder"
    "repaired.json" := by
  have hrecord : record (folderFiles countText) "record.json" (some "Folder") =
      .ok (.obj [("Count", .real whole)], "Folder") := by
    have hread : (Json.ofString? countText >>= countOf?) = some whole := by decide +kernel
    obtain ⟨doc, hdoc, hcount⟩ := Option.bind_eq_some_iff.mp hread
    obtain rfl := countOf?_eq_some_iff.mp hcount
    exact record_eq_ok_iff.mpr ⟨_, _, _, rfl, hdoc, Record.read_bare rfl _, rfl, rfl⟩
  have hvalid : folderEngine.validate (.obj [("Count", .real whole)]) = [] :=
    (validate_folder_iff _).mpr (by decide +kernel)
  refine .of_issues (folderFiles_readied _) hrecord (Repairer.runWith_of_valid _ hvalid) rfl
    (folderFiles_writeFault _) (folderFiles_agrees _) fun doc r hdoc hr => ?_
  have hnumbers : NumbersRead (fun _ => halfMore) (.obj [("Count", .real whole)]) :=
    numbersRead_of_part_eq (x := whole) (fun w hw h => by simpa [hw.part_obj] using h)
      ((ofString?_word_eq_some_iff (Token.isWord_real whole)).mpr (by decide +kernel))
  have hwell : (Json.obj [("Count", .real whole)]).WellFormed := by
    simp [WellFormed, WellFormedMembers]
  rw [ofString?_pretty hnumbers hwell, if_pos (by decide), mapReals_obj] at hdoc
  cases hdoc
  cases hr
  exact fun hnone => absurd ((validate_folder_iff _).mp hnone) (by decide +kernel)

/-- **Repairs can lapse**, by a name that makes an envelope of a body, by a required member of that
name that is left out, by a list too many, and by a number that changes in a text. -/
theorem repaired_then_rejected :
    Lapses (folderFiles (enclosed.pretty ++ "\n")) none "record.json" "folder.json" "Folder"
      "repaired.json" ∧
    Lapses (folderFiles (emptyBinder.pretty ++ "\n")) none "record.json" "folder.json" "Binder"
      "repaired.json" ∧
    Lapses (folderFiles (nestedAlone.pretty ++ "\n")) none "record.json" "folder.json" "Folder"
      "repaired.json" ∧
    Lapses (folderFiles countText) none "record.json" "folder.json" "Folder" "repaired.json" :=
  ⟨enclosed_lapses, emptyBinder_lapses, nested_lapses, count_lapses⟩

end CommandLine

end RecordCuration
