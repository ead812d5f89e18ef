import RecordCuration.Proofs.Graph.OfModel
import RecordCuration.Proofs.Json.Members
import RecordCuration.Proofs.Sample

/-!
Graph schemas written and read again.

The document of a class has its fields beside members of its own, whose names start with `@`, and
names a type in one word, be it a datatype or an entry. So a field under such a name is not read
again, and a reference by the name of a datatype is read as that datatype. What is read has neither,
and nothing twice; it is plain, and the plain schemas are those that are read as they were.
-/

namespace RecordCuration

/-! ### Targets by name -/

namespace Scalar

lemma ofXsd?_eq_some_iff {name : String} {s : Scalar} :
    ofXsd? name = some s ↔ s.xsdName = name := by
  constructor
  · intro h
    simpa using List.find?_some h
  · rintro rfl
    cases s <;> rfl

end Scalar

namespace Target

/-- No name is read as a reference by the name of a datatype. -/
lemma ofGraphName_ne (name : String) (s : Scalar) : ofGraphName name ≠ .reference s.xsdName := by
  unfold ofGraphName
  split
  · simp
  · rename_i h
    rintro ⟨⟩
    rw [Scalar.ofXsd?_eq_some_iff.mpr rfl] at h
    cases h

/-- A target is read from its name unless it is a reference by the name of a datatype. -/
lemma ofGraphName_graphName {target : Target} (h : ∀ s : Scalar, target ≠ .reference s.xsdName) :
    ofGraphName target.graphName = target := by
  cases target with
  | scalar s => rw [graphName, ofGraphName, Scalar.ofXsd?_eq_some_iff.mpr rfl]
  | reference name =>
    have hnone : Scalar.ofXsd? name = none := by
      refine Option.eq_none_iff_forall_ne_some.mpr fun s hs => h s ?_
      rw [Scalar.ofXsd?_eq_some_iff.mp hs]
    simp [ofGraphName, graphName, hnone]

end Target

/-! ### Plain schemas -/

/-- A class whose document has each of its fields and documented names once. -/
structure ClassEntry.Legible (c : ClassEntry) : Prop where
  unmarked : ∀ f ∈ c.fields, f.name.startsWith "@" = false
  fields : (c.fields.map (·.name)).Nodup
  properties : (c.properties.map Prod.fst).Nodup

/-- A legible class without references by the name of a datatype. -/
structure ClassEntry.Plain (c : ClassEntry) : Prop extends c.Legible where
  targets : ∀ f ∈ c.fields, ∀ s : Scalar, f.target ≠ .reference s.xsdName

def GraphSchema.Plain (g : GraphSchema) : Prop := ∀ c, .classEntry c ∈ g.entries → c.Plain

instance (c : ClassEntry) : Decidable c.Plain :=
  decidable_of_iff (((∀ f ∈ c.fields, f.name.startsWith "@" = false) ∧
      (c.fields.map (·.name)).Nodup ∧ (c.properties.map Prod.fst).Nodup) ∧
      ∀ f ∈ c.fields, ∀ s ∈ Scalar.all, f.target ≠ .reference s.xsdName)
    ⟨fun ⟨⟨hu, hf, hp⟩, ht⟩ => ⟨⟨hu, hf, hp⟩, fun f hmem s => ht f hmem s (by cases s <;> decide)⟩,
      fun h => ⟨⟨h.unmarked, h.fields, h.properties⟩, fun f hmem s _ => h.targets f hmem s⟩⟩

instance (g : GraphSchema) : Decidable g.Plain :=
  decidable_of_iff (∀ e ∈ g.entries, ∀ c ∈ e.class? e.id, c.Plain)
    ⟨fun h c hc => h _ hc c (by simp [GraphEntry.class?, GraphEntry.id]), fun h e he c hc => by
      cases e with
      | enumEntry e => cases hc
      | classEntry c' =>
        have hcc : c' = c := by simpa [GraphEntry.class?, GraphEntry.id] using hc
        exact hcc ▸ h c' he⟩

/-! ### What is read again -/

def ClassField.reread (f : ClassField) : ClassField :=
  { f with target := .ofGraphName f.target.graphName }

def ClassEntry.reread (c : ClassEntry) : ClassEntry :=
  { c with fields := c.fields.map ClassField.reread }

def GraphEntry.reread : GraphEntry → GraphEntry
  | .enumEntry e => .enumEntry e
  | .classEntry c => .classEntry c.reread

def GraphSchema.reread (g : GraphSchema) : GraphSchema :=
  { g with entries := g.entries.map GraphEntry.reread }

@[simp] lemma GraphEntry.reread_id (e : GraphEntry) : e.reread.id = e.id := by cases e <;> rfl

lemma ClassEntry.Plain.reread {c : ClassEntry} (h : c.Plain) : c.reread = c := by
  have hfields : c.fields.map ClassField.reread = c.fields := by
    refine (List.map_congr_left fun f hf => ?_).trans (List.map_id _)
    rw [ClassField.reread, Target.ofGraphName_graphName (h.targets f hf)]
    rfl
  rw [ClassEntry.reread, hfields]

namespace GraphSchema

lemma Plain.reread {g : GraphSchema} (h : g.Plain) : g.reread = g := by
  have hentries : g.entries.map GraphEntry.reread = g.entries := by
    refine (List.map_congr_left fun e he => ?_).trans (List.map_id _)
    cases e with
    | enumEntry e => rfl
    | classEntry c => exact congrArg _ (h c he).reread
  rw [GraphSchema.reread, hentries]

section Reading

variable {g : GraphSchema} {c : ClassEntry}

lemma readField_fieldValue (owner : String) (f : ClassField) :
    readField owner (f.name, fieldValue f) = .ok f.reread := by
  obtain ⟨name, target, cardinality⟩ := f
  cases cardinality <;> rfl

lemma classHead_marked (c : ClassEntry) {name : String} (h : name ∈ (classHead c).map Prod.fst) :
    name.startsWith "@" = true := by
  simp only [classHead, List.map_cons, List.map_nil, List.mem_cons, List.not_mem_nil,
    or_false] at h
  rcases h with rfl | rfl | rfl <;> decide +kernel

/-- The fields of a legible class stand after the members of its own. -/
lemma classDocument_eq (h : c.Legible) : classDocument c =
    .obj (classHead c ++ c.fields.map fun f => (f.name, fieldValue f)) := by
  have hnodup : ((classHead c ++ c.fields.map fun f => (f.name, fieldValue f)).map
      Prod.fst).Nodup := by
    rw [List.map_append, List.map_map, List.nodup_append]
    refine ⟨by simp [classHead], h.fields, ?_⟩
    rintro name hhead _ hm rfl
    have hmarked := classHead_marked c hhead
    obtain ⟨f, hf, rfl⟩ := List.mem_map.mp hm
    rw [Function.comp_apply, h.unmarked f hf] at hmarked
    cases hmarked
  rw [← Members.writes_of_nodup hnodup, List.foldl_map]
  rfl

lemma fieldMembers_classDocument (h : c.Legible) :
    fieldMembers (classHead c ++ c.fields.map fun f => (f.name, fieldValue f)) =
      c.fields.map fun f => (f.name, fieldValue f) := by
  have hhead : fieldMembers (classHead c) = [] := by
    refine List.filter_eq_nil_iff.mpr fun m hm => ?_
    rw [classHead_marked c (List.mem_map_of_mem hm)]
    simp
  have hfields : fieldMembers (c.fields.map fun f => (f.name, fieldValue f)) =
      c.fields.map fun f => (f.name, fieldValue f) := by
    refine List.filter_eq_self.mpr fun m hm => ?_
    obtain ⟨f, hf, rfl⟩ := List.mem_map.mp hm
    rw [h.unmarked f hf]
    rfl
  calc fieldMembers (classHead c ++ c.fields.map fun f => (f.name, fieldValue f))
      = fieldMembers (classHead c) ++ fieldMembers (c.fields.map fun f => (f.name, fieldValue f)) :=
        List.filter_append ..
    _ = c.fields.map fun f => (f.name, fieldValue f) := by rw [hhead, hfields, List.nil_append]

lemma readClass_classDocument (h : c.Legible) : readClass (classDocument c) = .ok c.reread := by
  have hfields : (fieldMembers (classHead c ++ c.fields.map fun f => (f.name, fieldValue f))).mapM
      (readField c.id) = .ok (c.fields.map ClassField.reread) := by
    rw [fieldMembers_classDocument h, mapM_eq_ok_iff, List.forall₂_map_left_iff,
      List.forall₂_map_right_iff, List.forall₂_same]
    exact fun f _ => readField_fieldValue c.id f
  have hproperties : documentedProperties (.obj [("@comment", .str c.comment),
      ("@properties", .obj (Members.ofWrites (c.properties.map fun p => (p.1, .str p.2))))]) =
        c.properties := by
    rw [Members.ofWrites_of_nodup (by simpa [Function.comp_def] using h.properties)]
    exact (List.map_map ..).trans (List.map_id _)
  rw [classDocument_eq h]
  refine bind_eq_ok_iff.mpr ⟨c.id, rfl, bind_eq_ok_iff.mpr ⟨_, hfields, ?_⟩⟩
  exact congrArg (fun properties => Except.ok (⟨c.id, c.comment, properties, _⟩ : ClassEntry))
    hproperties

lemma listedValues_strings (values : List String) :
    listedValues (some (Json.strings values)) = .ok values := by
  show (values.map Json.str).mapM listedValue = .ok values
  rw [mapM_eq_ok_iff, List.forall₂_map_left_iff, List.forall₂_same]
  exact fun _ _ => rfl

/-- A document of an entry stands for a push of the entry, its targets read from their names. -/
lemma readDocument_entryDocument {e : GraphEntry}
    (h : ∀ c, e = .classEntry c → c.Legible) (g : GraphSchema) :
    g.readDocument (entryDocument e) = g.push e.reread := by
  cases e with
  | enumEntry e =>
    show (listedValues (some (Json.strings e.values)) >>= fun values =>
      g.push (.enumEntry ⟨e.id, values⟩)) = _
    rw [listedValues_strings]
    rfl
  | classEntry c =>
    have hc := h c rfl
    have hread : g.readDocument (classDocument c) =
        (readClass (classDocument c) >>= fun c => g.push (.classEntry c)) := by
      rw [classDocument_eq hc]
      rfl
    rw [entryDocument, hread, readClass_classDocument hc]
    rfl

/-- A schema of legible classes is read again but for references by the name of a datatype. -/
theorem ofJson_toJson (hb : g.Built) (h : ∀ c, .classEntry c ∈ g.entries → c.Legible) :
    ofJson g.toJson = .ok g.reread := by
  obtain ⟨hids, hnodup⟩ := hb.ids
  have hreread : (g.entries.map GraphEntry.reread).map GraphEntry.id = g.ids := by
    simp [hids, Function.comp_def]
  calc ofJson g.toJson
      = (g.entries.map entryDocument).foldlM readDocument (empty g.context) := rfl
    _ = (g.entries.map GraphEntry.reread).foldlM push (empty g.context) := by
        rw [List.foldlM_map, List.foldlM_map, List.foldlM_eq_foldl, List.foldlM_eq_foldl]
        refine List.foldl_ext _ _ _ fun g' e he => bind_congr fun g' => ?_
        exact readDocument_entryDocument (fun c hc => h c (hc ▸ he)) g'
    _ = .ok g.reread := by
        rw [pushes_eq (hreread ▸ hnodup) fun _ _ => List.not_mem_nil, hreread]
        rfl

end Reading

/-! ### What is read is plain -/

section Plainness

variable {g g' : GraphSchema} {c : ClassEntry} {doc : Json}

lemma readField_eq_ok {owner : String} {m : String × Json} {f : ClassField}
    (h : readField owner m = .ok f) :
    f.name = m.1 ∧ ∀ s : Scalar, f.target ≠ .reference s.xsdName := by
  unfold readField at h
  split at h
  · cases h
    exact ⟨rfl, Target.ofGraphName_ne _⟩
  · obtain ⟨_, -, h⟩ := bind_eq_ok_iff.mp h
    split at h <;> cases h
    exact ⟨rfl, Target.ofGraphName_ne _⟩
  · cases h

lemma nodup_documentedProperties {documentation : Json} (h : documentation.WellFormed) :
    ((documentedProperties documentation).map Prod.fst).Nodup := by
  unfold documentedProperties
  split
  · rename_i ms hms
    have hwf : (Json.obj ms).WellFormed := Json.wellFormed_member h hms
    simpa [Function.comp_def] using (Json.wellFormed_obj.mp hwf).1
  · exact List.nodup_nil

/-- A class that is read from a well-formed document is plain. -/
lemma plain_of_readClass (hdoc : doc.WellFormed) (h : readClass doc = .ok c) : c.Plain := by
  obtain ⟨id, -, h⟩ := bind_eq_ok_iff.mp h
  obtain ⟨fields, hfields, h⟩ := bind_eq_ok_iff.mp h
  cases h
  have hnames : fields.map (·.name) = (fieldMembers (doc.members?.getD [])).map Prod.fst :=
    map_eq_of_mapM (fun _ _ hf => (readField_eq_ok hf).1) hfields
  have hmembers : ((doc.members?.getD []).map Prod.fst).Nodup := by
    cases doc with
    | obj ms => exact (Json.wellFormed_obj.mp hdoc).1
    | _ => exact List.nodup_nil
  have hdocumentation : ((doc.member? "@documentation").getD .null).WellFormed := by
    cases hd : doc.member? "@documentation" with
    | none => trivial
    | some v => exact Json.wellFormed_member hdoc hd
  refine ⟨⟨fun f hf => ?_, ?_, nodup_documentedProperties hdocumentation⟩, fun f hf => ?_⟩
  · obtain ⟨m, hm, hread⟩ := (exists_of_mapM_ok hfields).2 f hf
    have hunmarked := (List.mem_filter.mp hm).2
    rw [(readField_eq_ok hread).1]
    simpa using hunmarked
  · rw [hnames]
    exact hmembers.sublist (List.filter_sublist.map Prod.fst)
  · obtain ⟨m, -, hread⟩ := (exists_of_mapM_ok hfields).2 f hf
    exact (readField_eq_ok hread).2

lemma Plain.push {e : GraphEntry} (h : g.Plain) (he : ∀ c, e = .classEntry c → c.Plain)
    (hp : g.push e = .ok g') : g'.Plain := by
  obtain ⟨-, rfl⟩ := push_eq_ok_iff.mp hp
  intro c hc
  rcases List.mem_append.mp hc with hc | hc
  · exact h c hc
  · exact he c (List.mem_singleton.mp hc).symm

lemma Plain.readDocument (h : g.Plain) (hdoc : doc.WellFormed) (hd : g.readDocument doc = .ok g') :
    g'.Plain := by
  unfold GraphSchema.readDocument at hd
  split at hd
  · cases hd
    exact h
  · obtain ⟨id, -, hd⟩ := bind_eq_ok_iff.mp hd
    obtain ⟨values, -, hd⟩ := bind_eq_ok_iff.mp hd
    exact h.push (fun _ hc => by cases hc) hd
  · obtain ⟨c, hc, hd⟩ := bind_eq_ok_iff.mp hd
    exact h.push (fun c' hc' => by cases hc'; exact plain_of_readClass hdoc hc) hd
  · cases hd

/-- What is read from a well-formed document is plain. -/
theorem plain_ofJson {v : Json} (hv : v.WellFormed) (h : ofJson v = .ok g) : g.Plain := by
  cases v with
  | arr docs =>
    have hdocs := Json.wellFormed_arr.mp hv
    exact foldlM_keeps (fun doc hdoc _ _ hg => Plain.readDocument hg (hdocs doc hdoc))
      (fun _ hc => absurd hc List.not_mem_nil) h
  | _ => cases h

end Plainness

/-! ### What is written is well-formed -/

lemma wellFormed_strings (texts : List String) : (Json.strings texts).WellFormed := by
  refine Json.wellFormed_arr.mpr fun v hv => ?_
  obtain ⟨text, -, rfl⟩ := List.mem_map.mp hv
  trivial

lemma wellFormed_fieldValue (f : ClassField) : (fieldValue f).WellFormed := by
  unfold fieldValue
  split <;> simp [Json.WellFormed, Json.WellFormedMembers]

lemma wellFormed_classDocument (c : ClassEntry) : (classDocument c).WellFormed := by
  have hproperties : (Json.obj (Members.ofWrites (c.properties.map fun p =>
      (p.1, .str p.2)))).WellFormed := by
    refine Json.wellFormed_ofWrites fun m hm => ?_
    obtain ⟨p, -, rfl⟩ := List.mem_map.mp hm
    trivial
  have hhead : (Json.obj (classHead c)).WellFormed := by
    refine Json.wellFormed_obj.mpr ⟨by simp [classHead], ?_⟩
    simpa [classHead, Json.WellFormed, Json.WellFormedMembers] using hproperties
  have hfields : ∀ m ∈ c.fields.map (fun f => (f.name, fieldValue f)), m.2.WellFormed := by
    intro m hm
    obtain ⟨f, -, rfl⟩ := List.mem_map.mp hm
    exact wellFormed_fieldValue f
  have hwrites := Json.wellFormed_writes hfields hhead
  rwa [List.foldl_map] at hwrites

/-- The document of a schema names no member twice. -/
lemma wellFormed_toJson (g : GraphSchema) : g.toJson.WellFormed := by
  refine Json.wellFormed_arr.mpr (List.forall_mem_cons.mpr ⟨?_, fun doc hdoc => ?_⟩)
  · simp [contextDocument, Json.WellFormed]
  · obtain ⟨e, -, rfl⟩ := List.mem_map.mp hdoc
    cases e with
    | enumEntry e =>
      refine Json.wellFormed_obj.mpr ⟨by simp, ?_⟩
      simpa [Json.WellFormed] using wellFormed_strings e.values
    | classEntry c => exact wellFormed_classDocument c

/-! ### Round trips -/

lemma ofJson_toJson_iff {g : GraphSchema} (hb : g.Built) : ofJson g.toJson = .ok g ↔ g.Plain := by
  refine ⟨plain_ofJson (wellFormed_toJson g), fun h => ?_⟩
  rw [ofJson_toJson hb fun c hc => (h c hc).toLegible, h.reread]

/-- **Graph schemas read back.** A graph schema, wherever it comes from, is read from its document
as it was exactly when it is plain. What was read from a well-formed document reads back. -/
theorem reads_back_iff_plain :
    (∀ g : GraphSchema, g.Built → (ofJson g.toJson = .ok g ↔ g.Plain)) ∧
      (∀ m context g, ofModel m context = .ok g → g.Built) ∧
      ∀ v g, v.WellFormed → ofJson v = .ok g → g.Built ∧ ofJson g.toJson = .ok g :=
  ⟨fun _ => ofJson_toJson_iff, fun _ _ _ => built_ofModel, fun _ _ hv h =>
    ⟨built_ofJson h, (ofJson_toJson_iff (built_ofJson h)).mpr (plain_ofJson hv h)⟩⟩

/-! ### A document without a context -/

def noteDocument : Json := .arr [
  .obj [("@type", .str "Class"), ("text", .str "xsd:string"), ("@id", .str "Note"),
    ("of", .obj [("@type", .str "Optional"), ("@class", .str "Note")])]]

/-- Notes, which may be notes of notes. -/
def noteGraph : GraphSchema where
  context := .standard
  entries := [.classEntry ⟨"Note", "", [],
    [⟨"text", .scalar .string, .required⟩, ⟨"of", .reference "Note", .optional⟩]⟩]
  ids := ["Note"]

/-- Notes with a remark in the place of a member that is no field. -/
def remarkGraph : GraphSchema where
  context := .standard
  entries := [.classEntry ⟨"Note", "", [], [⟨"@comment", .scalar .string, .required⟩]⟩]
  ids := ["Note"]

lemma remarkGraph_built : remarkGraph.Built := (Built.empty .standard).push rfl

lemma wellFormed_noteDocument : noteDocument.WellFormed := by
  simp [noteDocument, Json.WellFormed, Json.WellFormedMembers]

lemma ofJson_noteDocument : ofJson noteDocument = .ok noteGraph := by decide +kernel

/-- The schema of the missions reads back as does that of the notes, which was read itself; a
remark is lost. -/
theorem sampleGraph_reads_back : ofJson sampleGraph.toJson = .ok sampleGraph ∧
    ofJson noteGraph.toJson = .ok noteGraph ∧ ofJson remarkGraph.toJson ≠ .ok remarkGraph := by
  obtain ⟨hiff, hmodel, hread⟩ := reads_back_iff_plain
  have hsample : sampleGraph.Plain := by decide +kernel
  have hremark : ¬ remarkGraph.Plain := by decide +kernel
  refine ⟨(hiff _ (hmodel _ _ _ sample_accepted)).mpr hsample,
    (hread _ _ wellFormed_noteDocument ofJson_noteDocument).2, fun h => ?_⟩
  exact hremark ((hiff _ remarkGraph_built).mp h)

end GraphSchema

end RecordCuration
