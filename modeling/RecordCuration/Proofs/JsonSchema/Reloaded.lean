import RecordCuration.Proofs.Graph.Saved
import RecordCuration.Proofs.JsonSchema.Existence

/-!
The schemas of a graph schema that was saved.

A plain graph schema is read as it was and so serves the same schemas. No other does: what is read
is plain, and the properties of a schema show which fields a class has and which of them hold a
datatype. In a model this concerns elements that are named like a member of class documents and
containers or enumerations that are named like a datatype.
-/

namespace RecordCuration

open JsonSchema

/-! ### What the properties of a schema show -/

namespace JsonSchema

/-- A property as the schema of a class lists it. -/
def property (f : FrameField) : String × Json := (f.name, fieldFragment f)

/-- No property of a datatype is one of an enumeration or a class. -/
lemma fieldFragment_ne {f f' : FrameField} {s : Scalar} (h : f.type = .scalar s)
    (h' : ∀ s', f'.type ≠ .scalar s') : fieldFragment f ≠ fieldFragment f' := by
  have htype : typeFragment f.type ≠ typeFragment f'.type := by
    rw [h]
    cases ht : f'.type with
    | scalar s' => exact absurd ht (h' s')
    | classRef name => cases s <;> simp [typeFragment, scalarFragment, referenceFragment]
    | enumeration id values => cases s <;> simp [typeFragment, scalarFragment, enumFragment]
  have harray : ∀ (t : FrameType) fragment,
      typeFragment t ≠ .obj [("type", .str "array"), ("items", fragment)] := by
    intro t fragment
    cases t with
    | scalar s => cases s <;> simp [typeFragment, scalarFragment]
    | classRef name => simp [typeFragment, referenceFragment]
    | enumeration id values => simp [typeFragment, enumFragment]
  unfold fieldFragment repeated
  cases f.cardinality.isArray <;> cases f'.cardinality.isArray
  · exact htype
  · exact harray _ _
  · exact (harray _ _).symm
  · simpa using htype

lemma properties_eq_of_shallow_eq {fr fr' : Frame} (h : (fr.fields.map (·.name)).Nodup)
    (h' : (fr'.fields.map (·.name)).Nodup) (heq : shallow fr = shallow fr') :
    fr.fields.map property = fr'.fields.map property := by
  simp only [shallow, List.cons.injEq, Prod.mk.injEq, Json.obj.injEq, ofWrites_fragments h,
    ofWrites_fragments h'] at heq
  exact heq.2.1.2

end JsonSchema

namespace GraphSchema

section Frames

variable {g : GraphSchema} {c : ClassEntry} {owner field name : String}

lemma Built.fields_of_frame (hb : g.Built) {fr : Frame} (hc : .classEntry c ∈ g.entries)
    (hfr : g.frame c.id = .ok fr) : c.fields.mapM (g.frameField c.id) = .ok fr.fields := by
  obtain ⟨fs, hfs, rfl⟩ := (frame_of_class? (hb.class?_eq_some_iff.mpr ⟨rfl, hc⟩)).mp hfr
  exact hfs

lemma names_of_frameFields {fs : List ClassField} {ffs : List FrameField}
    (h : fs.mapM (g.frameField owner) = .ok ffs) : ffs.map (·.name) = fs.map (·.name) := by
  refine map_eq_of_mapM (fun f ff hff => ?_) h
  obtain ⟨t, -, rfl⟩ := map_eq_ok_iff.mp hff
  rfl

lemma frameType_reference_ne {t : FrameType}
    (h : g.frameType owner field (.reference name) = .ok t) (s : Scalar) : t ≠ .scalar s := by
  simp only [frameType] at h
  split at h <;> cases h <;> simp

end Frames

/-! ### A schema and what is read of it -/

/-- A graph schema that can come about, names nothing twice and has a schema for every class. -/
structure Serves (g : GraphSchema) : Prop where
  built : g.Built
  fields : ∀ c, .classEntry c ∈ g.entries → (c.fields.map (·.name)).Nodup
  properties : ∀ c, .classEntry c ∈ g.entries → (c.properties.map Prod.fst).Nodup
  schema : ∀ c, .classEntry c ∈ g.entries → ∃ source, g.schemaForClass c.id = .ok source

/-- What is read of a graph schema gives every name the same schema or error. -/
structure ReloadsAs (g g' : GraphSchema) : Prop where
  read : ofJson g.toJson = .ok g'
  same : ∀ name, g'.schemaForClass name = g.schemaForClass name

section Reloaded

variable {g g' : GraphSchema} {c : ClassEntry}

lemma ReloadsAs.plain (h : g.ReloadsAs g') : g'.Plain := plain_ofJson (wellFormed_toJson g) h.read

/-- A class has the same properties in a schema and in what is read of it, and in each they come
from the fields of the class. -/
lemma Serves.exists_twin (hg : g.Serves) (h : g.ReloadsAs g') (hc : .classEntry c ∈ g.entries) :
    ∃ c' fs fs', .classEntry c' ∈ g'.entries ∧ c'.id = c.id ∧
      c.fields.mapM (g.frameField c.id) = .ok fs ∧
      c'.fields.mapM (g'.frameField c.id) = .ok fs' ∧ fs.map property = fs'.map property := by
  obtain ⟨source, hsource⟩ := hg.schema c hc
  obtain ⟨root, definitions, hroot, rfl, -⟩ := parts_of_schema hsource
  obtain ⟨root', definitions', hroot', heq, -⟩ := parts_of_schema ((h.same c.id).trans hsource)
  obtain ⟨c', hc', hid, -⟩ := exists_class_of_frame hroot'
  have hfs := hg.built.fields_of_frame hc hroot
  have hfs' := (built_ofJson h.read).fields_of_frame hc' (hid ▸ hroot')
  refine ⟨c', _, _, hc', hid, hfs, hid ▸ hfs', ?_⟩
  have hshallow : shallow root = shallow root' := by
    simp only [Json.obj.injEq, List.cons.injEq] at heq
    exact heq.2
  refine properties_eq_of_shallow_eq ?_ ?_ hshallow
  · rw [names_of_frameFields hfs]
    exact hg.fields c hc
  · rw [names_of_frameFields hfs']
    exact (h.plain c' hc').fields

/-- The names of the fields are read again, so that none is that of a member of class documents. -/
lemma Serves.legible (hg : g.Serves) (h : g.ReloadsAs g') (hc : .classEntry c ∈ g.entries) :
    c.Legible := by
  refine ⟨fun f hf => ?_, hg.fields c hc, hg.properties c hc⟩
  obtain ⟨c', fs, fs', hc', -, hfs, hfs', heq⟩ := hg.exists_twin h hc
  have hnames : fs.map (·.name) = fs'.map (·.name) := by
    have hkeys := congrArg (List.map Prod.fst) heq
    rwa [List.map_map, List.map_map] at hkeys
  rw [names_of_frameFields hfs, names_of_frameFields hfs'] at hnames
  obtain ⟨f', hf', hname⟩ := List.mem_map.mp (hnames ▸ List.mem_map_of_mem hf)
  rw [← hname]
  exact (h.plain c' hc').unmarked f' hf'

lemma Built.eq_reread (hb : g.Built) {c' : ClassEntry} (hc : .classEntry c ∈ g.entries)
    (hc' : .classEntry c' ∈ g.reread.entries) (hid : c'.id = c.id) : c' = c.reread := by
  obtain ⟨e, he, hec⟩ := List.mem_map.mp hc'
  cases e with
  | enumEntry e => cases hec
  | classEntry k =>
    cases hec
    cases hb.eq_of_id he hc hid
    rfl

/-- A schema whose reading serves the same is plain: a reference that is read as a datatype would be
a property of that datatype. -/
lemma Serves.plain (hg : g.Serves) (h : g.ReloadsAs g') : g.Plain := by
  obtain rfl : g.reread = g' := by
    have hread := h.read
    rw [ofJson_toJson hg.built fun c hc => hg.legible h hc] at hread
    exact Except.ok.inj hread
  refine fun c hc => ⟨hg.legible h hc, fun f hf s htarget => ?_⟩
  obtain ⟨c', fs, fs', hc', hid, hfs, hfs', heq⟩ := hg.exists_twin h hc
  obtain ⟨ff, hff, hok⟩ := (exists_of_mapM_ok hfs).1 f hf
  obtain ⟨t, ht, rfl⟩ := map_eq_ok_iff.mp hok
  obtain ⟨ff', hff', hproperty⟩ := List.mem_map.mp (heq ▸ List.mem_map_of_mem hff)
  obtain ⟨f', hf', hok'⟩ := (exists_of_mapM_ok hfs').2 ff' hff'
  obtain ⟨t', ht', rfl⟩ := map_eq_ok_iff.mp hok'
  obtain ⟨hname, hfragment⟩ := Prod.mk.inj hproperty
  -- names are distinct, so that the field read with this property is `f` itself
  have hf'eq : f' = f.reread := by
    rw [hg.built.eq_reread hc hc' hid] at hf'
    obtain ⟨k, hk, rfl⟩ := List.mem_map.mp hf'
    rw [List.inj_on_of_nodup_map (hg.fields c hc) hk hf hname]
  have hscalar : t' = .scalar s := by
    have hxsd : f'.target = .scalar s := by
      rw [hf'eq, ClassField.reread, htarget]
      cases s <;> rfl
    rw [hxsd] at ht'
    exact (Except.ok.inj ht').symm
  rw [htarget] at ht
  exact fieldFragment_ne hscalar (frameType_reference_ne ht) hfragment

end Reloaded

end GraphSchema

/-! ### Models -/

/-- A model none of whose elements is named like a member of class documents or stands for a
container or an enumeration that is named like a datatype. -/
structure Model.Savable (m : Model) : Prop where
  unmarked : ∀ container ∈ m.containers, ∀ element ∈ m.subElements container,
    element.startsWith "@" = false
  targets : ∀ container ∈ m.containers, ∀ element ∈ m.subElements container, ∀ t,
    m.Means element t → ∀ s : Scalar, t.target ≠ .reference s.xsdName

namespace GraphSchema

variable {m : Model} {context : GraphContext} {g : GraphSchema}

lemma serves_ofModel (h : ofModel m context = .ok g) : g.Serves where
  built := built_ofModel h
  fields := fun _ hc => (represents_of_mem h hc).nodup
  properties := fun _ hc =>
    have hr := represents_of_mem h hc
    hr.properties ▸ hr.nodup
  schema := fun _ hc => (schemaForClass_ofModel h).1.mpr (represents_of_mem h hc).container

lemma plain_iff_savable (h : ofModel m context = .ok g) : g.Plain ↔ m.Savable := by
  constructor
  · intro hp
    have hfield : ∀ container ∈ m.containers, ∀ element ∈ m.subElements container,
        ∃ c f, .classEntry c ∈ g.entries ∧ f ∈ c.fields ∧ f.name = element := by
      intro container hc element hel
      obtain ⟨c, hmem, rfl⟩ := exists_classEntry h hc
      rw [← (represents_of_mem h hmem).names] at hel
      obtain ⟨f, hf, hname⟩ := List.mem_map.mp hel
      exact ⟨c, f, hmem, hf, hname⟩
    refine ⟨fun container hc element hel => ?_, fun container hc element hel t ht => ?_⟩
    · obtain ⟨c, f, hmem, hf, rfl⟩ := hfield container hc element hel
      exact (hp c hmem).unmarked f hf
    · obtain ⟨c, f, hmem, hf, rfl⟩ := hfield container hc element hel
      obtain ⟨t', hmean, htarget⟩ := (represents_of_mem h hmem).means f hf
      rw [ht.unique hmean, htarget]
      exact (hp c hmem).targets f hf
  · intro hs c hc
    have hr := represents_of_mem h hc
    have hmem : ∀ f ∈ c.fields, f.name ∈ m.subElements c.id := fun f hf =>
      hr.names ▸ List.mem_map_of_mem hf
    refine ⟨⟨fun f hf => ?_, hr.nodup, hr.properties ▸ hr.nodup⟩, fun f hf => ?_⟩
    · exact hs.unmarked c.id hr.container f.name (hmem f hf)
    · obtain ⟨t, hmean, htarget⟩ := hr.means f hf
      exact htarget ▸ hs.targets c.id hr.container f.name (hmem f hf) t hmean

/-- **Saved schemas of models.** What is read of the graph schema of a model gives every name the
same schema, or the same error, exactly when the model is savable. Then it is read as it was. -/
theorem reloads_iff_savable (h : ofModel m context = .ok g) :
    ((∃ g', ofJson g.toJson = .ok g' ∧ ∀ name, g'.schemaForClass name = g.schemaForClass name) ↔
      m.Savable) ∧ (m.Savable → ofJson g.toJson = .ok g) := by
  have hback : m.Savable → ofJson g.toJson = .ok g := fun hs =>
    (ofJson_toJson_iff (built_ofModel h)).mpr ((plain_iff_savable h).mpr hs)
  refine ⟨⟨fun ⟨g', hread, hsame⟩ => ?_, fun hs => ⟨g, hback hs, fun _ => rfl⟩⟩, hback⟩
  exact (plain_iff_savable h).mp ((serves_ofModel h).plain ⟨hread, hsame⟩)

/-- The sample is savable, so that its schemas outlast it. -/
theorem sample_reloads : sampleModel.Savable ∧
    ∃ g', ofJson sampleGraph.toJson = .ok g' ∧
      ∀ name, g'.schemaForClass name = sampleGraph.schemaForClass name := by
  have hs : sampleModel.Savable := (plain_iff_savable sample_accepted).mp (by decide +kernel)
  exact ⟨hs, (reloads_iff_savable sample_accepted).1.mpr hs⟩

/-! ### An element that is named like a member of class documents -/

/-- Instruments of a type. -/
def instrumentModel : Model where
  version := none
  dictionary := ⟨[
    ("Instrument", ⟨.container, "", ["@type"], []⟩),
    ("@type", ⟨.named "Text", "", [], []⟩)], by decide⟩
  ontology := ⟨[("Instrument", ⟨[("@type", ⟨"Instrument", "1"⟩)], by decide⟩)], by decide⟩

/-- The type of instruments is written over the type of the document, which then is no class. -/
theorem instrument_schema_unreadable : ∃ g, ofModel instrumentModel .standard = .ok g ∧
    (∃ source, g.schemaForClass "Instrument" = .ok source) ∧
    ofJson g.toJson = .error (.invalidFrame (.unsupportedDocument "xsd:string")) :=
  ⟨_, rfl, ⟨_, rfl⟩, rfl⟩

end GraphSchema

end RecordCuration
