import RecordCuration.Proofs.Graph.Built
import RecordCuration.Proofs.JsonSchema.Emission
import RecordCuration.Proofs.JsonSchema.Reach

/-!
When a class has a JSON Schema.

A frame is there when all that the fields of its class refer to are entries, and a schema is there
when that is so of every class reached. An accepted model leaves nothing to miss: its containers
have schemas, and a name that has none is no container.
-/

namespace RecordCuration

open JsonSchema

/-- All that the fields of a class refer to are entries. -/
def ClassEntry.Resolves (c : ClassEntry) (g : GraphSchema) : Prop :=
  ∀ f ∈ c.fields, ∀ name, f.target = .reference name → ∃ e ∈ g.entries, e.id = name

namespace GraphSchema

/-- The classes reached from the class of a name by way of fields that refer to classes. -/
inductive Reaches (g : GraphSchema) (name : String) : ClassEntry → Prop where
  | self {c : ClassEntry} (hc : .classEntry c ∈ g.entries) (hid : c.id = name) : Reaches g name c
  | step {c next : ClassEntry} {f : ClassField} (h : Reaches g name c) (hf : f ∈ c.fields)
    (ht : f.target = .reference next.id) (hn : .classEntry next ∈ g.entries) : Reaches g name next

lemma Reaches.mem {g : GraphSchema} {name : String} {c : ClassEntry} (h : g.Reaches name c) :
    .classEntry c ∈ g.entries := by
  cases h <;> assumption

/-! ### Frames of classes -/

section Frames

variable {g : GraphSchema} {c : ClassEntry} {fr : Frame} {name : String}

lemma frame_of_class? (hc : g.class? name = some c) : g.frame name = .ok fr ↔
    ∃ fs, c.fields.mapM (g.frameField name) = .ok fs ∧
      ⟨c.id, c.comment, c.properties, fs⟩ = fr := by
  unfold frame
  rw [hc]
  exact map_eq_ok_iff

/-- Only classes have frames. -/
lemma exists_class_of_frame (hfr : g.frame name = .ok fr) :
    ∃ c, .classEntry c ∈ g.entries ∧ c.id = name ∧ fr.name = name := by
  cases hc : g.class? name with
  | none =>
    unfold frame at hfr
    rw [hc] at hfr
    cases hfr
  | some c =>
    obtain ⟨fs, -, rfl⟩ := (frame_of_class? hc).mp hfr
    obtain ⟨hid, hm⟩ := class?_eq_some hc
    exact ⟨c, hm, hid, hid⟩

/-- A class has a frame when all that it refers to is there. -/
lemma Built.exists_frame_iff (h : g.Built) (hc : .classEntry c ∈ g.entries) :
    (∃ fr, g.frame c.id = .ok fr) ↔ c.Resolves g := by
  have hcl := h.class?_eq_some_iff.mpr ⟨rfl, hc⟩
  constructor
  · rintro ⟨fr, hfr⟩ f hf
    obtain ⟨fs, hfs, -⟩ := (frame_of_class? hcl).mp hfr
    obtain ⟨ff, -, hff⟩ := (exists_of_mapM_ok hfs).1 f hf
    obtain ⟨t, ht, -⟩ := map_eq_ok_iff.mp hff
    exact h.exists_frameType_iff.mp ⟨t, ht⟩
  · intro hres
    have hfield : ∀ f ∈ c.fields, ∃ ff, g.frameField c.id f = .ok ff := by
      intro f hf
      obtain ⟨t, ht⟩ := h.exists_frameType_iff.mpr (hres f hf)
      exact ⟨_, map_eq_ok_iff.mpr ⟨t, ht, rfl⟩⟩
    obtain ⟨fs, hfs⟩ := exists_mapM_ok hfield
    exact ⟨_, (frame_of_class? hcl).mpr ⟨fs, hfs, rfl⟩⟩

/-- The classes that occur in a frame are those that the fields of its class refer to. -/
lemma Built.names_iff (h : g.Built) (hc : .classEntry c ∈ g.entries)
    (hfr : g.frame c.id = .ok fr) : fr.Names name ↔
      (∃ f ∈ c.fields, f.target = .reference name) ∧
        ∃ next, .classEntry next ∈ g.entries ∧ next.id = name := by
  obtain ⟨fs, hfs, rfl⟩ := (frame_of_class? (h.class?_eq_some_iff.mpr ⟨rfl, hc⟩)).mp hfr
  obtain ⟨hto, hfrom⟩ := exists_of_mapM_ok hfs
  constructor
  · rintro ⟨ff, hff, hname⟩
    obtain ⟨f, hf, hok⟩ := hfrom ff hff
    obtain ⟨t, ht, rfl⟩ := map_eq_ok_iff.mp hok
    obtain ⟨htarget, hnext⟩ := h.frameType_eq_classRef_iff.mp (ht.trans (congrArg _ hname))
    exact ⟨⟨f, hf, htarget⟩, hnext⟩
  · rintro ⟨⟨f, hf, htarget⟩, hnext⟩
    obtain ⟨ff, hff, hok⟩ := hto f hf
    obtain ⟨t, ht, rfl⟩ := map_eq_ok_iff.mp hok
    have hclass : g.frameType c.id f.name f.target = .ok (.classRef name) :=
      h.frameType_eq_classRef_iff.mpr ⟨htarget, hnext⟩
    exact ⟨_, hff, Except.ok.inj (ht.symm.trans hclass)⟩

end Frames

/-! ### Schemas of classes -/

section Schemas

variable {g : GraphSchema} {name : String}

lemma schemaForClass_eq_ok_iff {source : Json} : g.schemaForClass name = .ok source ↔
    ∃ root, g.frame name = .ok root ∧ ∃ p,
      ofFrame g.frame (g.entries.length + 1) root (Pool.empty.ask name) = .ok source p := by
  unfold schemaForClass ofClass
  simp only [finish_eq_ok_iff, bind_eq_ok, resolve_eq_ok]
  constructor
  · rintro ⟨p, root, q, ⟨hroot, rfl⟩, hp⟩; exact ⟨root, hroot, p, hp⟩
  · rintro ⟨root, hroot, p, hp⟩; exact ⟨p, root, _, ⟨hroot, rfl⟩, hp⟩

lemma fresh_asked : (Pool.empty.ask name).Fresh := ⟨rfl, rfl, rfl⟩

lemma rooted_frame {root : Frame} (hroot : g.frame name = .ok root) :
    rooted g.frame root = g.frame := by
  obtain ⟨-, -, -, hname⟩ := exists_class_of_frame hroot
  exact rooted_eq (by rw [hname, hroot])

/-- What is reached by frames is reached by classes. -/
lemma Built.exists_reaches (h : g.Built) {root fr : Frame} (hroot : g.frame name = .ok root)
    (hr : root.Reaches g.frame fr) : ∃ c, g.Reaches name c ∧ g.frame c.id = .ok fr := by
  induction hr with
  | root =>
    obtain ⟨c, hc, hid, -⟩ := exists_class_of_frame hroot
    exact ⟨c, .self hc hid, hid ▸ hroot⟩
  | step _ hn hnext ih =>
    obtain ⟨c, hc, hfr⟩ := ih
    obtain ⟨⟨f, hf, ht⟩, next, hm, rfl⟩ := (h.names_iff hc.mem hfr).mp hn
    exact ⟨next, hc.step hf ht hm, hnext⟩

/-- A class has a schema when it and all that its frame leads to have frames. -/
lemma Built.exists_schema_iff_frames (h : g.Built) :
    (∃ source, g.schemaForClass name = .ok source) ↔ ∃ root, g.frame name = .ok root ∧
      ∀ other, root.LeadsTo g.frame other → ∃ fr, g.frame other = .ok fr := by
  simp only [schemaForClass_eq_ok_iff]
  rw [exists_comm]
  refine exists_congr fun root => ?_
  rw [exists_and_left]
  refine and_congr_right fun hroot => ?_
  -- whatever occurs in a frame is an entry, and definitions may nest deeper than there are entries
  have hids : ∀ other, root.LeadsTo g.frame other → other ∈ g.entries.map GraphEntry.id := by
    rintro other ⟨fr, hr, hn⟩
    obtain ⟨c, hc, hfr⟩ := h.exists_reaches hroot hr
    obtain ⟨-, next, hm, hnext⟩ := (h.names_iff hc.mem hfr).mp hn
    exact List.mem_map.mpr ⟨_, hm, hnext⟩
  have hiff : (∃ source p, ofFrame g.frame (g.entries.length + 1) root (Pool.empty.ask name) =
      .ok source p) ↔ ∀ other, root.LeadsTo (rooted g.frame root) other →
        ∃ fr, rooted g.frame root other = .ok fr :=
    exists_ofFrame_iff fresh_asked (by rwa [rooted_frame hroot]) (by simp)
  rwa [rooted_frame hroot] at hiff

/-- What is reached by classes is reached by frames, as far as there are frames. -/
lemma Built.exists_frame_reaches (h : g.Built) {root : Frame} (hroot : g.frame name = .ok root)
    (hall : ∀ other, root.LeadsTo g.frame other → ∃ fr, g.frame other = .ok fr) {c : ClassEntry}
    (hc : g.Reaches name c) : ∃ fr, g.frame c.id = .ok fr ∧ root.Reaches g.frame fr := by
  induction hc with
  | self _ hid => exact ⟨root, hid ▸ hroot, .root⟩
  | step hr hf ht hn ih =>
    obtain ⟨fr, hfr, hreach⟩ := ih
    have hnames := (h.names_iff hr.mem hfr).mpr ⟨⟨_, hf, ht⟩, _, hn, rfl⟩
    obtain ⟨fr', hfr'⟩ := hall _ ⟨fr, hreach, hnames⟩
    exact ⟨fr', hfr', hreach.step hnames hfr'⟩

/-- A class has a schema when all that it reaches resolves. -/
lemma Built.exists_schema_iff (h : g.Built) :
    (∃ source, g.schemaForClass name = .ok source) ↔
      (∃ c, .classEntry c ∈ g.entries ∧ c.id = name) ∧
        ∀ c, g.Reaches name c → c.Resolves g := by
  rw [h.exists_schema_iff_frames]
  constructor
  · rintro ⟨root, hroot, hall⟩
    obtain ⟨c, hc, hid, -⟩ := exists_class_of_frame hroot
    refine ⟨⟨c, hc, hid⟩, fun c' hc' => (h.exists_frame_iff hc'.mem).mp ?_⟩
    obtain ⟨fr, hfr, -⟩ := h.exists_frame_reaches hroot hall hc'
    exact ⟨fr, hfr⟩
  · rintro ⟨⟨c, hc, rfl⟩, hall⟩
    obtain ⟨root, hroot⟩ := (h.exists_frame_iff hc).mpr (hall c (.self hc rfl))
    refine ⟨root, hroot, fun other ⟨fr, hr, hn⟩ => ?_⟩
    obtain ⟨c', hc', hfr⟩ := h.exists_reaches hroot hr
    obtain ⟨⟨f, hf, ht⟩, next, hm, rfl⟩ := (h.names_iff hc'.mem hfr).mp hn
    exact (h.exists_frame_iff hm).mpr (hall next (hc'.step hf ht hm))

/-- What the schema of a class consists of. -/
lemma parts_of_schema {source : Json} (h : g.schemaForClass name = .ok source) :
    ∃ root definitions, g.frame name = .ok root ∧
      source = .obj (("definitions", .obj definitions) :: shallow root) ∧
      (definitions.map Prod.fst).Nodup ∧
      (∀ other, other ∈ definitions.map Prod.fst ↔ root.LeadsTo g.frame other) ∧
      ∀ other body, (other, body) ∈ definitions →
        ∃ fr, g.frame other = .ok fr ∧ body = .obj (shallow fr) := by
  obtain ⟨root, hroot, p, hp⟩ := schemaForClass_eq_ok_iff.mp h
  obtain ⟨definitions, hschema, hnodup, hkeys, hbodies⟩ := parts_of_ofFrame fresh_asked hp
  rw [rooted_frame hroot] at hkeys hbodies
  exact ⟨root, definitions, hroot, hschema, hnodup, hkeys, hbodies⟩

/-- A class of a model has a schema when it is a container, and no other error than its own absence
comes up. -/
lemma schemaForClass_ofModel {m : Model} {context : GraphContext} (h : ofModel m context = .ok g) :
    ((∃ source, g.schemaForClass name = .ok source) ↔ name ∈ m.containers) ∧
      ∀ e, g.schemaForClass name = .error e → e = .notFound name := by
  by_cases hc : name ∈ m.containers
  · obtain ⟨source, root, he⟩ := exists_emitted h hc
    refine ⟨iff_of_true ⟨source, he.schema⟩ hc, fun e herr => ?_⟩
    rw [he.schema] at herr
    cases herr
  · have hclass : g.class? name = none :=
      Option.eq_none_iff_forall_ne_some.mpr fun c hcl => hc ((exists_class?_iff h).mp ⟨c, hcl⟩)
    have herror : g.schemaForClass name = .error (.notFound name) := by
      have hframe : g.frame name = .error (.notFound name) := by
        unfold frame
        rw [hclass]
      unfold schemaForClass finish EStateM.run
      have hrun : ofClass g.frame (g.entries.length + 1) name Pool.empty =
          .error (.notFound name) (Pool.empty.ask name) := by
        unfold ofClass resolve
        rw [hframe]
        rfl
      rw [hrun]
    rw [herror]
    exact ⟨iff_of_false (fun ⟨_, hs⟩ => nomatch hs) hc, fun e he => (Except.error.inj he).symm⟩

end Schemas

end GraphSchema

open GraphSchema

/-- **Schemas are emitted exactly when they should be.** A name has one when it is that of a class
and whatever the classes reached from it refer to is an entry. A model has a graph schema exactly
when it can be walked, never for want of distinct ids, and then exactly its containers have
schemas; what else is asked for is not found under its own name. -/
theorem emission_exact :
    (∀ g : GraphSchema, g.Built → ∀ name, (∃ source, g.schemaForClass name = .ok source) ↔
      (∃ c, .classEntry c ∈ g.entries ∧ c.id = name) ∧
        ∀ c, g.Reaches name c → c.Resolves g) ∧
    ∀ (m : Model) (context : GraphContext),
      ((∃ g, ofModel m context = .ok g) ↔ ∃ w, Walk.build m.dictionary m.ontology = .ok w) ∧
      (∀ id, ofModel m context ≠ .error (.duplicateId id)) ∧
      ∀ g, ofModel m context = .ok g → g.Built ∧ ∀ name,
        ((∃ source, g.schemaForClass name = .ok source) ↔ name ∈ m.containers) ∧
        ∀ e, g.schemaForClass name = .error e → e = .notFound name := by
  refine ⟨fun g hg name => hg.exists_schema_iff, fun m context => ⟨exists_ofModel_iff, ?_, ?_⟩⟩
  · intro id herr
    obtain ⟨fault, hfault⟩ := ofModel_eq_error herr
    cases hfault
  · exact fun g hg => ⟨built_ofModel hg, fun name => schemaForClass_ofModel hg⟩

/-! ### A place that is missing -/

/-- Journeys have stops, and stops have places, which are no entries. -/
def journeyDocument : Json :=
  .arr [.obj [("@type", .str "Class"), ("@id", .str "Journey"), ("Stop", .str "Stop")],
    .obj [("@type", .str "Class"), ("@id", .str "Stop"), ("Place", .str "Place")]]

def stopEntry : ClassEntry := ⟨"Stop", "", [], [⟨"Place", .reference "Place", .required⟩]⟩

def journeyGraph : GraphSchema where
  context := .standard
  entries := [.classEntry ⟨"Journey", "", [], [⟨"Stop", .reference "Stop", .required⟩]⟩,
    .classEntry stopEntry]
  ids := ["Journey", "Stop"]

lemma journeyGraph_read : ofJson journeyDocument = .ok journeyGraph := by decide +kernel

/-- What is missing two steps away leaves journeys without a schema, while the containers of the
sample have theirs. -/
theorem journey_emission_exact :
    (¬∃ source, journeyGraph.schemaForClass "Journey" = .ok source) ∧
      ∃ source, sampleGraph.schemaForClass "TimeSpan" = .ok source := by
  obtain ⟨hgraph, hmodel⟩ := emission_exact
  constructor
  · intro hs
    obtain ⟨-, hall⟩ := (hgraph journeyGraph (built_ofJson journeyGraph_read) "Journey").mp hs
    have hstop : journeyGraph.Reaches "Journey" stopEntry :=
      .step (.self (.head _) rfl) (.head _) rfl (.tail _ (.head _))
    obtain ⟨e, he, hid⟩ := hall stopEntry hstop _ (.head _) "Place" rfl
    have hnone : "Place" ∉ journeyGraph.entries.map GraphEntry.id := by decide
    exact hnone (List.mem_map.mpr ⟨e, he, hid⟩)
  · obtain ⟨-, -, hschemas⟩ := hmodel sampleModel .standard
    exact ((hschemas _ sample_accepted).2 "TimeSpan").1.mpr (by decide)

end RecordCuration
