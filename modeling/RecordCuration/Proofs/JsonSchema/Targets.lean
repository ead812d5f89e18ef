import RecordCuration.Proofs.Draft7.Fragment
import RecordCuration.Proofs.JsonSchema.Existence

/-!
The references of emitted schemas and where draft 7 says that they lead.

The references of a schema are made from the names of the classes that it is about, as they are.
Each leads to the definition of its class when a fragment can show the name. A name with a slash, a
tilde, an escape or a character that no fragment shows bare leads elsewhere, or nowhere.
-/

namespace RecordCuration

open Draft7 JsonSchema

namespace Json

mutual
/-- The texts that members named `$ref` hold, anywhere in a value. -/
def references : Json → List String
  | .arr xs => referencesIn xs
  | .obj ms => referencesUnder ms
  | _ => []
def referencesIn : List Json → List String
  | [] => []
  | x :: xs => x.references ++ referencesIn xs
def referencesUnder : List (String × Json) → List String
  | [] => []
  | (k, v) :: ms => (if k = "$ref" then v.string?.toList else []) ++ v.references ++
      referencesUnder ms
end

variable {text : String}

lemma mem_referencesIn {xs : List Json} :
    text ∈ referencesIn xs ↔ ∃ x ∈ xs, text ∈ x.references := by
  induction xs with
  | nil => simp [referencesIn]
  | cons x xs ih => simp [referencesIn, ih]

lemma mem_referencesUnder {ms : List (String × Json)} : text ∈ referencesUnder ms ↔
    ∃ m ∈ ms, (m.1 = "$ref" ∧ m.2.string? = some text) ∨ text ∈ m.2.references := by
  induction ms with
  | nil => simp [referencesUnder]
  | cons m ms ih =>
    obtain ⟨k, v⟩ := m
    by_cases hk : k = "$ref"
    · simp [referencesUnder, ih, hk, or_assoc]
    · simp [referencesUnder, ih, hk]

lemma references_strings (names : List String) : (Json.strings names).references = [] := by
  refine List.eq_nil_iff_forall_not_mem.mpr fun text ht => ?_
  obtain ⟨x, hx, ht⟩ := mem_referencesIn.mp ht
  obtain ⟨name, -, rfl⟩ := List.mem_map.mp hx
  simp [references] at ht

end Json

open Json

namespace JsonSchema

variable {text : String}

lemma mem_references_fieldFragment {f : FrameField} :
    text ∈ (fieldFragment f).references ↔ ∃ name, f.type = .classRef name ∧ text = target name := by
  have htype : text ∈ (typeFragment f.type).references ↔
      ∃ name, f.type = .classRef name ∧ text = target name := by
    cases f.type with
    | scalar s => cases s <;> simp [typeFragment, scalarFragment, references, referencesUnder]
    | enumeration id values =>
      simp [typeFragment, enumFragment, references, referencesUnder, references_strings]
    | classRef name =>
      simp [typeFragment, referenceFragment, references, referencesUnder, Json.string?, target]
  rw [← htype]
  unfold fieldFragment repeated
  split_ifs
  · simp [references, referencesUnder]
  · rfl

lemma string?_fieldFragment (f : FrameField) : (fieldFragment f).string? = none := by
  unfold fieldFragment repeated
  split_ifs
  · rfl
  · cases f.type with
    | scalar s => cases s <;> rfl
    | _ => rfl

/-- The references of a class are those to the classes that occur in it. -/
lemma mem_references_shallow {fr : Frame} (h : (fr.fields.map (·.name)).Nodup) :
    text ∈ (Json.obj (shallow fr)).references ↔ ∃ name, fr.Names name ∧ text = target name := by
  have hproperties : text ∈ (Json.obj (shallow fr)).references ↔
      text ∈ referencesUnder (fr.fields.map fun f => (f.name, fieldFragment f)) := by
    simp [shallow, references, referencesUnder, references_strings, ofWrites_fragments h]
  rw [hproperties, mem_referencesUnder]
  constructor
  · rintro ⟨m, hm, hr⟩
    obtain ⟨f, hf, rfl⟩ := List.mem_map.mp hm
    simp only [string?_fieldFragment, reduceCtorEq, and_false, false_or] at hr
    obtain ⟨name, ht, htext⟩ := mem_references_fieldFragment.mp hr
    exact ⟨name, ⟨f, hf, ht⟩, htext⟩
  · rintro ⟨name, ⟨f, hf, ht⟩, htext⟩
    exact ⟨_, List.mem_map.mpr ⟨f, hf, rfl⟩,
      Or.inr (mem_references_fieldFragment.mpr ⟨name, ht, htext⟩)⟩

end JsonSchema

section Emitted

variable {m : Model} {context : GraphContext} {g : GraphSchema} {container : String}

/-- The references of an emitted schema are those to the classes that its frame leads to. -/
lemma mem_references_emitted (h : GraphSchema.ofModel m context = .ok g) {root : Frame}
    (hroot : g.frame container = .ok root) {definitions : List (String × Json)}
    (hkeys : ∀ other, other ∈ definitions.map Prod.fst ↔ root.LeadsTo g.frame other)
    (hbodies : ∀ other body, (other, body) ∈ definitions →
      ∃ fr, g.frame other = .ok fr ∧ body = .obj (shallow fr)) {text : String} :
    text ∈ (Json.obj (("definitions", .obj definitions) :: shallow root)).references ↔
      ∃ name, root.LeadsTo g.frame name ∧ text = target name := by
  have hnodup : ∀ {name fr}, g.frame name = .ok fr → (fr.fields.map (·.name)).Nodup :=
    fun hfr => (GraphSchema.describes_of_frame h hfr).2.nodup
  have hsplit : text ∈ (Json.obj (("definitions", .obj definitions) :: shallow root)).references ↔
      text ∈ referencesUnder definitions ∨ text ∈ (Json.obj (shallow root)).references := by
    simp [references, referencesUnder]
  rw [hsplit, mem_referencesUnder, mem_references_shallow (hnodup hroot)]
  constructor
  · rintro (⟨⟨other, body⟩, hmem, hr⟩ | ⟨name, hn, htext⟩)
    · obtain ⟨fr, hfr, rfl⟩ := hbodies other body hmem
      simp only [Json.string?, reduceCtorEq, and_false, false_or] at hr
      obtain ⟨name, hn, htext⟩ := (mem_references_shallow (hnodup hfr)).mp hr
      have hl := (hkeys other).mp (List.mem_map.mpr ⟨_, hmem, rfl⟩)
      exact ⟨name, hl.step hfr hn, htext⟩
    · exact ⟨name, ⟨root, .root, hn⟩, htext⟩
  · rintro ⟨name, ⟨fr, hr, hn⟩, htext⟩
    cases hr with
    | root => exact Or.inr ⟨name, hn, htext⟩
    | @step fr' _ other hr' hother hfr =>
      obtain ⟨⟨_, body⟩, hmem, rfl⟩ := List.mem_map.mp ((hkeys other).mpr ⟨fr', hr', hother⟩)
      obtain ⟨fr'', hfr'', rfl⟩ := hbodies _ body hmem
      rw [hfr] at hfr''
      cases hfr''
      exact Or.inl ⟨_, hmem, Or.inr ((mem_references_shallow (hnodup hfr)).mpr ⟨name, hn, htext⟩)⟩

lemma place?_definitionPath {definitions : List (String × Json)} {rest : List (String × Json)}
    {name : String} {body : Json} (h : definitions.lookup name = some body) :
    (Json.obj (("definitions", .obj definitions) :: rest)).place? (definitionPath name) =
      some body := by
  refine place?_cons.mpr ⟨.obj definitions, ?_, place?_cons.mpr ⟨body, ?_, rfl⟩⟩
  · rw [child?_obj, Segment.token_canonical]
    rfl
  · rwa [child?_obj, Segment.token_canonical]

/-- **References of a schema.** The references of an emitted schema are those made from the names
of the classes that its frame leads to. The definition of each such class is there, and the
reference leads to it as draft 7 has it exactly when a fragment shows the name as it is; then
validation follows it to the same definition. -/
theorem references_lead_iff (h : GraphSchema.ofModel m context = .ok g)
    (hc : container ∈ m.containers) :
    ∃ source root, g.schemaForClass container = .ok source ∧ g.frame container = .ok root ∧
      (∀ text, text ∈ source.references ↔
        ∃ name, root.LeadsTo g.frame name ∧ text = target name) ∧
      ∀ name, root.LeadsTo g.frame name → ∃ fr, g.frame name = .ok fr ∧
        source.place? (definitionPath name) = some (.obj (shallow fr)) ∧
        (Reference.path? (target name) = some (definitionPath name) ↔ FragmentName name) ∧
        (FragmentName name → Reference.resolve source (target name) = .ok (.obj (shallow fr))) := by
  obtain ⟨source, _, he⟩ := exists_emitted h hc
  obtain ⟨root, definitions, hroot, rfl, hnodup, hkeys, hbodies⟩ :=
    GraphSchema.parts_of_schema he.schema
  refine ⟨_, root, he.schema, hroot, fun text => mem_references_emitted h hroot hkeys hbodies,
    fun name hl => ?_⟩
  obtain ⟨⟨_, body⟩, hmem, rfl⟩ := List.mem_map.mp ((hkeys name).mpr hl)
  obtain ⟨fr, hfr, rfl⟩ := hbodies _ body hmem
  have hlookup := Json.lookup_of_mem hnodup hmem
  exact ⟨fr, hfr, place?_definitionPath hlookup, Reference.path?_target_eq_iff,
    fun hname => resolve_of_plain (plainName_of_fragmentName hname) hlookup⟩

end Emitted

/-- The references of the schema of missions, among them that to missions, which time spans
name, lead to their definitions. -/
theorem mission_references_lead :
    "Mission" ∈ sampleModel.containers ∧ ∃ source root,
      sampleGraph.schemaForClass "Mission" = .ok source ∧
      sampleGraph.frame "Mission" = .ok root ∧
      (∀ text, text ∈ source.references ↔
        ∃ name, root.LeadsTo sampleGraph.frame name ∧ text = target name) ∧
      ∀ name, root.LeadsTo sampleGraph.frame name → ∃ fr, sampleGraph.frame name = .ok fr ∧
        source.place? (definitionPath name) = some (.obj (shallow fr)) ∧
        (Reference.path? (target name) = some (definitionPath name) ↔ FragmentName name) ∧
        (FragmentName name → Reference.resolve source (target name) = .ok (.obj (shallow fr))) :=
  ⟨by decide, references_lead_iff sample_accepted (by decide)⟩

/-! ### A name with a slash -/

/-- Surveys have plots of sites. -/
def surveyModel : Model where
  version := none
  dictionary := ⟨[
    ("Survey", ⟨.container, "", ["Site/Plot"], []⟩),
    ("Site/Plot", ⟨.container, "", ["Name"], []⟩),
    ("Name", ⟨.named "Text", "", [], []⟩)], by decide⟩
  ontology := ⟨[
    ("Survey", ⟨[("Site/Plot", ⟨"Site/Plot", "1"⟩)], by decide⟩),
    ("Site/Plot", ⟨[("Name", ⟨"Name", "1"⟩)], by decide⟩)], by decide⟩

def surveySource : Json :=
  let plot := Json.obj [("type", .str "object"),
    ("properties", .obj [("Name", .obj [("type", .str "string")])]),
    ("required", .arr [.str "Name"]), ("additionalProperties", .bool false)]
  .obj [("definitions", .obj [("Site/Plot", plot)]), ("type", .str "object"),
    ("properties", .obj [("Site/Plot", .obj [("$ref", .str "#/definitions/Site/Plot")])]),
    ("required", .arr [.str "Site/Plot"]), ("additionalProperties", .bool false)]

/-- The reference from surveys to plots leads below a definition that is not there, so that the
schema cannot be used at all. -/
theorem slashed_reference_dangles :
    ∃ g, GraphSchema.ofModel surveyModel .standard = .ok g ∧ "Survey" ∈ surveyModel.containers ∧
      g.schemaForClass "Survey" = .ok surveySource ∧
      surveySource.references = ["#/definitions/Site/Plot"] ∧
      Reference.path? "#/definitions/Site/Plot" =
        some [.key "definitions", .key "Site", .key "Plot"] ∧
      surveySource.place? [.key "definitions", .key "Site", .key "Plot"] = none ∧
      (Engine.compile surveySource .standard).toOption.isNone := by
  refine ⟨_, rfl, by decide, rfl, ?_, ?_, ?_, ?_⟩
  · decide
  · decide +kernel
  · rfl
  · rw [Engine.compile_of_admits (by decide +kernel)]
    decide +kernel

end RecordCuration
