import RecordCuration.Proofs.Graph.Built
import RecordCuration.Proofs.Model.Meaning

/-!
Graph schemas made from models.

The enumerations and classes of such a schema are those of the dictionary, and it has a frame for
every container, whose fields are those that the model gives the container.
-/

namespace RecordCuration

/-- A class has the elements of a container for fields, each with its marker and the name of what it
stands for, and documents them. -/
structure Model.Represents (m : Model) (c : ClassEntry) : Prop where
  container : c.id ∈ m.containers
  names : c.fields.map (·.name) = m.subElements c.id
  nodup : (c.fields.map (·.name)).Nodup
  properties : c.properties.map Prod.fst = c.fields.map (·.name)
  marker : ∀ f ∈ c.fields, ∃ marker, m.marker? c.id f.name = some marker ∧
    Cardinality.ofMarker? marker = some f.cardinality
  means : ∀ f ∈ c.fields, ∃ t, m.Means f.name t ∧ t.target = f.target

namespace GraphSchema

variable {m : Model} {context : GraphContext} {g : GraphSchema}

lemma entries_ofModel (h : ofModel m context = .ok g) :
    ∃ w, Walk.build m.dictionary m.ontology = .ok w ∧
      g.entries = w.enumerations.map ofEnumeration ++ w.containers.map ofContainer := by
  obtain ⟨w, hw, hg⟩ := bind_eq_ok_iff.mp h
  have hw := mapError_eq_ok_iff.mp hw
  rw [ofWalk_eq hw] at hg
  cases hg
  exact ⟨w, hw, rfl⟩

/-! ### Enumerations and classes -/

lemma mem_enumEntry (h : ofModel m context = .ok g) {e : EnumEntry} :
    .enumEntry e ∈ g.entries ↔ ∃ entry, m.dictionary.get? e.id = some entry ∧
      entry.tag = .enumeration ∧ entry.allowedValues = e.values := by
  obtain ⟨w, hw, hg⟩ := entries_ofModel h
  obtain ⟨types, cs, -, -, -, rfl⟩ := Walk.build_eq_ok_iff.mp hw
  obtain ⟨id, values⟩ := e
  simp only [hg, ofEnumeration, ofContainer, List.mem_append, List.mem_map, List.mem_filter,
    Table.get?_eq_some_iff, TypeEntry.isEnumeration, decide_eq_true_eq]
  constructor
  · rintro (⟨-, ⟨⟨name, entry⟩, ⟨hm, ht⟩, rfl⟩, he⟩ | ⟨c, -, he⟩)
    · cases he; exact ⟨entry, hm, ht, rfl⟩
    · cases he
  · rintro ⟨entry, hm, ht, rfl⟩
    exact Or.inl ⟨_, ⟨_, ⟨hm, ht⟩, rfl⟩, rfl⟩

lemma represents_of_mem (h : ofModel m context = .ok g) {c : ClassEntry}
    (hc : .classEntry c ∈ g.entries) : m.Represents c := by
  obtain ⟨w, hw, hg⟩ := entries_ofModel h
  obtain ⟨types, cs, ht, -, hcs, rfl⟩ := Walk.build_eq_ok_iff.mp hw
  simp only [hg, ofEnumeration, ofContainer, List.mem_append, List.mem_map] at hc
  rcases hc with ⟨e, -, he⟩ | ⟨k, hk, he⟩
  · cases he
  cases he
  obtain ⟨entry, hentry, htag, -, hfs⟩ := Walk.exists_entry_of_container hcs hk
  obtain ⟨hnames, hnodup, hres⟩ := Walk.fields_resolved hfs
  have hview : (k.fields.map classField).map (·.name) = k.fields.map (·.name) := by
    simp [classField, Function.comp_def]
  constructor
  case container => exact Model.mem_containers.mpr ⟨entry, hentry, htag⟩
  case names => rw [hview, hnames, Model.subElements_eq hentry]
  case nodup => rw [hview, hnames]; exact hnodup
  case properties => rw [hview]; simp [Function.comp_def]
  case marker =>
    intro f' hf'
    obtain ⟨f, hf, rfl⟩ := List.mem_map.mp hf'
    obtain ⟨use, huse, hmark⟩ := (hres f hf).marker
    exact ⟨use.occurrence, by rw [Model.marker?, classField, huse]; rfl, hmark⟩
  case means =>
    intro f' hf'
    obtain ⟨f, hf, rfl⟩ := List.mem_map.mp hf'
    obtain ⟨e, hef, hty⟩ := (hres f hf).type
    exact Model.means_of_resolve hef (Walk.resolve_of_types ht hef hty)

lemma exists_classEntry (h : ofModel m context = .ok g) {name : String}
    (hc : name ∈ m.containers) : ∃ c, .classEntry c ∈ g.entries ∧ c.id = name := by
  obtain ⟨w, hw, hg⟩ := entries_ofModel h
  obtain ⟨types, cs, -, -, hcs, rfl⟩ := Walk.build_eq_ok_iff.mp hw
  obtain ⟨entry, he, ht⟩ := Model.mem_containers.mp hc
  obtain ⟨fs, hk, -⟩ := Walk.exists_fields_of_container hcs he ht
  exact ⟨_, hg ▸ List.mem_append_right _ (List.mem_map.mpr ⟨_, hk, rfl⟩), rfl⟩

lemma exists_class?_iff (h : ofModel m context = .ok g) {name : String} :
    (∃ c, g.class? name = some c) ↔ name ∈ m.containers := by
  constructor
  · rintro ⟨c, hc⟩
    obtain ⟨rfl, hm⟩ := class?_eq_some hc
    exact (represents_of_mem h hm).container
  · intro hn
    obtain ⟨c, hm, rfl⟩ := exists_classEntry h hn
    exact ⟨c, (built_ofModel h).class?_eq_some_iff.mpr ⟨rfl, hm⟩⟩

/-! ### Frames -/

/-- What an element stands for is of that type in the schema. -/
lemma frameType_of_means (h : ofModel m context = .ok g) (owner field : String) {name : String}
    {t : FrameType} (ht : m.Means name t) : g.frameType owner field t.target = .ok t := by
  cases t with
  | scalar s => rfl
  | classRef other =>
    obtain ⟨c, hc, rfl⟩ := exists_classEntry h ht.mem_containers
    exact (built_ofModel h).frameType_of_class owner field hc
  | enumeration id values =>
    obtain ⟨entry, he, htag, hvalues⟩ := ht.entry
    have hm : .enumEntry ⟨id, values⟩ ∈ g.entries :=
      (mem_enumEntry h).mpr ⟨entry, he, htag, hvalues⟩
    exact (built_ofModel h).frameType_of_enumeration owner field hm

/-- **Frames of a model**: the schema of an accepted model has a frame for every container, and the
frame says of its fields what the model says. -/
theorem exists_frame (h : ofModel m context = .ok g) {name : String} (hc : name ∈ m.containers) :
    ∃ fr, g.frame name = .ok fr ∧ m.Describes name fr := by
  obtain ⟨c, hcl⟩ := (exists_class?_iff h).mpr hc
  obtain ⟨rfl, hm⟩ := class?_eq_some hcl
  have hr := represents_of_mem h hm
  have hfield : ∀ f ∈ c.fields, ∃ ff, g.frameField c.id f = .ok ff ∧ ff.name = f.name ∧
      ff.cardinality = f.cardinality ∧ m.Means f.name ff.type := by
    intro f hf
    obtain ⟨t, hmean, htarget⟩ := hr.means f hf
    have hft : g.frameType c.id f.name f.target = .ok t :=
      htarget ▸ frameType_of_means h c.id f.name hmean
    exact ⟨⟨f.name, t, f.cardinality⟩, map_eq_ok_iff.mpr ⟨t, hft, rfl⟩, rfl, rfl, hmean⟩
  have : Nonempty FrameField := ⟨⟨c.id, .classRef c.id, .optional⟩⟩
  choose! ff hff hname hcard hmean using hfield
  have hmap : c.fields.mapM (g.frameField c.id) = .ok (c.fields.map ff) := by
    rw [mapM_eq_ok_iff, List.forall₂_map_right_iff, List.forall₂_same]
    exact hff
  have hffn : (c.fields.map ff).map (·.name) = c.fields.map (·.name) := by
    rw [List.map_map]; exact List.map_congr_left hname
  refine ⟨⟨c.id, c.comment, c.properties, c.fields.map ff⟩, ?_, rfl, ?_, ?_, ?_, ?_⟩
  · simp [frame, hcl, hmap, Except.map]
  · rw [hffn, hr.names]
  · rw [hffn]; exact hr.nodup
  · intro f' hf'
    obtain ⟨f, hf, rfl⟩ := List.mem_map.mp hf'
    rw [hname f hf, hcard f hf]
    exact hr.marker f hf
  · intro f' hf'
    obtain ⟨f, hf, rfl⟩ := List.mem_map.mp hf'
    rw [hname f hf]; exact hmean f hf

/-- Every frame of the schema describes a container. -/
lemma describes_of_frame (h : ofModel m context = .ok g) {name : String} {fr : Frame}
    (hfr : g.frame name = .ok fr) : name ∈ m.containers ∧ m.Describes name fr := by
  have hc : name ∈ m.containers := by
    refine (exists_class?_iff h).mp ?_
    cases hcl : g.class? name with
    | none => simp [frame, hcl] at hfr
    | some c => exact ⟨c, rfl⟩
  obtain ⟨fr', hfr', hd⟩ := exists_frame h hc
  rw [hfr] at hfr'
  cases hfr'
  exact ⟨hc, hd⟩

/-- There are no more containers than entries. -/
lemma length_containers_le (h : ofModel m context = .ok g) :
    m.containers.length ≤ g.entries.length := by
  obtain ⟨w, hw, hg⟩ := entries_ofModel h
  obtain ⟨types, cs, -, -, hcs, rfl⟩ := Walk.build_eq_ok_iff.mp hw
  have hl := (mapM_eq_ok_iff.mp hcs).length_eq
  simp [Model.containers, hg, hl]

end GraphSchema

end RecordCuration
