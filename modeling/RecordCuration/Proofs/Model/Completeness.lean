import RecordCuration.Proofs.Model.Consistency

/-!
What a walk holds.

A walk keeps the containers, the enumerations and all entries in the order of the dictionary and the
fields of a container in the order of its elements; whatever a type refers to is a container or an
enumeration of the same walk. Of the ontology it keeps the markers alone, so its order and the
objects that it names leave no trace.
-/

namespace RecordCuration

namespace Walk

/-- A target of a walk leads to a container or an enumeration of it, if anywhere. -/
def Closes (w : Walk) (target : Target) : Prop :=
  ∀ name, target = .reference name →
    (∃ c ∈ w.containers, c.name = name) ∨ ∃ e ∈ w.enumerations, e.name = name

/-- A field of a container has what the model and the walk's own types say of its element. -/
structure HoldsField (w : Walk) (m : Model) (container : String) (f : Field) : Prop where
  cardinality : ∃ marker, m.marker? container f.name = some marker ∧
    Cardinality.ofMarker? marker = some f.cardinality
  description : ∃ e, m.dictionary.get? f.name = some e ∧ f.description = e.definition
  target : w.types.lookup f.name = some f.target
  subclass : f.isSubclass = true ↔ ∃ c ∈ w.containers, f.target = .reference c.name

/-- A walk holds all of a model, in its order, and refers to nothing else. -/
structure Holds (w : Walk) (m : Model) : Prop where
  containerNames : w.containers.map (·.name) = m.containers
  enumerationNames : w.enumerations.map (·.name) = m.enumerations
  documentationNames : w.documentation.map Prod.fst = m.dictionary.names
  typeNames : w.types.map Prod.fst = m.dictionary.names
  container : ∀ c ∈ w.containers, ∃ e, m.dictionary.get? c.name = some e ∧
    c.definition = e.definition ∧ c.fields.map (·.name) = e.subElements
  field : ∀ c ∈ w.containers, ∀ f ∈ c.fields, w.HoldsField m c.name f
  enumeration : ∀ k ∈ w.enumerations, ∃ e, m.dictionary.get? k.name = some e ∧
    k.definition = e.definition ∧ k.values = e.allowedValues
  documentation : ∀ name text, (name, text) ∈ w.documentation →
    ∃ e, m.dictionary.get? name = some e ∧ text = e.definition
  /-- The type of an entry is what the entry stands for. -/
  type : ∀ name target, (name, target) ∈ w.types → ∃ t, m.Means name t ∧ t.target = target
  typesClosed : ∀ name target, (name, target) ∈ w.types → w.Closes target
  fieldsClosed : ∀ c ∈ w.containers, ∀ f ∈ c.fields, w.Closes f.target

variable {m : Model} {w : Walk}

/-! ### Names -/

lemma mem_containers_iff (h : w.containers.map (·.name) = m.containers) {name : String} :
    name ∈ m.containers ↔ ∃ c ∈ w.containers, c.name = name := by
  rw [← h, List.mem_map]

lemma closes_of_means (hc : w.containers.map (·.name) = m.containers)
    (he : w.enumerations.map (·.name) = m.enumerations) {element : String} {t : FrameType}
    (ht : m.Means element t) : w.Closes t.target := by
  intro name hname
  cases t with
  | scalar s => cases hname
  | classRef other =>
    cases hname
    exact .inl ((mem_containers_iff hc).mp ht.mem_containers)
  | enumeration id values =>
    cases hname
    obtain ⟨e, hget, htag, -⟩ := ht.entry
    have hmem := Model.mem_enumerations.mpr ⟨e, hget, htag⟩
    rw [← he, List.mem_map] at hmem
    exact .inr hmem

lemma isContainerName_iff {target : Target} : isContainerName m.dictionary target = true ↔
    ∃ name ∈ m.containers, target = .reference name := by
  cases target with
  | scalar s => simp [isContainerName]
  | reference name =>
    simp [isContainerName, Model.mem_containers, Option.any_eq_true, TypeEntry.isContainer]

lemma means_of_types {types : List (String × Target)}
    (h : resolveAll m.dictionary = .ok types) {name : String} {target : Target}
    (ht : (name, target) ∈ types) : ∃ t, m.Means name t ∧ t.target = target := by
  obtain ⟨⟨_, e⟩, hmem, hok⟩ := (exists_of_mapM_ok h).2 _ ht
  obtain ⟨_, hr, hpair⟩ := map_eq_ok_iff.mp hok
  cases hpair
  exact Model.means_of_resolve (Table.get?_eq_some_iff.mpr hmem) hr

/-- A field has a type that its entry stands for, and knows whether that is a container. -/
lemma holdsField_of_field {types : List (String × Target)} {container element : String} {f : Field}
    (htypes : w.types = types) (hc : w.containers.map (·.name) = m.containers)
    (hf : field m.dictionary types (m.ontology.get? container) container element = .ok f) :
    w.HoldsField m container f := by
  obtain ⟨e, target, use, c, he, ht, huse, hmark, rfl⟩ := field_eq_ok_iff.mp hf
  refine ⟨⟨use.occurrence, by rw [Model.marker?, huse]; rfl, hmark⟩, ⟨e, he, rfl⟩, htypes ▸ ht, ?_⟩
  rw [isContainerName_iff]
  constructor
  · rintro ⟨name, hname, rfl⟩
    obtain ⟨k, hk, rfl⟩ := (mem_containers_iff hc).mp hname
    exact ⟨k, hk, rfl⟩
  · rintro ⟨k, hk, hk'⟩
    exact ⟨k.name, (mem_containers_iff hc).mpr ⟨k, hk, rfl⟩, hk'⟩

/-- What is made of a model holds it. -/
lemma holds_of_build (h : build m.dictionary m.ontology = .ok w) : w.Holds m := by
  obtain ⟨types, cs, ht, -, hcs, hw⟩ := build_eq_ok_iff.mp h
  have hc : w.containers.map (·.name) = m.containers := hw ▸ names_of_containers hcs
  have he : w.enumerations.map (·.name) = m.enumerations := by
    simp [hw, Model.enumerations, Function.comp_def]
  have hmem : ∀ c ∈ w.containers, c ∈ cs := fun c hc => by rwa [hw] at hc
  have htypes : ∀ name target, (name, target) ∈ w.types →
      ∃ t, m.Means name t ∧ t.target = target := fun name target hmem =>
    means_of_types ht (by rwa [hw] at hmem)
  have hclosed : ∀ name target, (name, target) ∈ w.types → w.Closes target := by
    intro name target hmem
    obtain ⟨t, hmean, rfl⟩ := htypes name target hmem
    exact closes_of_means hc he hmean
  have hfield : ∀ c ∈ w.containers, ∀ f ∈ c.fields, w.HoldsField m c.name f := by
    intro c hcw f hf
    obtain ⟨e, -, -, -, hfs⟩ := exists_entry_of_container hcs (hmem c hcw)
    obtain ⟨-, -, hmap⟩ := fields_eq_ok_iff.mp hfs
    obtain ⟨element, -, hok⟩ := (exists_of_mapM_ok hmap).2 f hf
    exact holdsField_of_field (by rw [hw]) hc hok
  constructor
  case containerNames => exact hc
  case enumerationNames => exact he
  case documentationNames => simp [hw, Table.names, Function.comp_def]
  case typeNames => simpa [hw] using names_of_types ht
  case container =>
    intro c hcw
    obtain ⟨e, he, -, hdef, hfs⟩ := exists_entry_of_container hcs (hmem c hcw)
    exact ⟨e, he, hdef, (fields_resolved hfs).1⟩
  case field => exact hfield
  case enumeration =>
    rw [hw]
    rintro k hk
    obtain ⟨⟨name, e⟩, hmem, rfl⟩ := List.mem_map.mp hk
    exact ⟨e, Table.get?_eq_some_iff.mpr (List.mem_filter.mp hmem).1, rfl, rfl⟩
  case documentation =>
    rw [hw]
    rintro name text hm
    obtain ⟨⟨_, e⟩, hmem, hpair⟩ := List.mem_map.mp hm
    cases hpair
    exact ⟨e, Table.get?_eq_some_iff.mpr hmem, rfl⟩
  case type => exact htypes
  case typesClosed => exact hclosed
  case fieldsClosed =>
    exact fun c hcw f hf => hclosed f.name _ (Json.mem_of_lookup (hfield c hcw f hf).target)

end Walk

/-! ### The markers of an ontology -/

namespace Ontology

/-- The fields of an ontology under their containers, with their markers. -/
def marks (o : Ontology) : List (String × String × String) :=
  o.entries.flatMap fun c => c.2.entries.map fun f => (c.1, f.1, f.2.occurrence)

/-- An ontology has the same fields of the same containers, all of them in any order. -/
structure Reorders (o o' : Ontology) : Prop where
  containers : o'.names.Perm o.names
  fields : ∀ name uses uses', o.get? name = some uses → o'.get? name = some uses' →
    uses'.entries.Perm uses.entries

/-- An ontology marks the same fields of the same containers alike, in any order and whatever
objects it names. -/
structure Agrees (o o' : Ontology) : Prop where
  containers : ∀ name, name ∈ o'.names ↔ name ∈ o.names
  marks : ∀ mark, mark ∈ o'.marks ↔ mark ∈ o.marks

variable {o o' : Ontology}

lemma mem_marks {container element marker : String} : (container, element, marker) ∈ o.marks ↔
    (o.use? container element).map FieldUse.occurrence = some marker := by
  rw [Option.map_eq_some_iff]
  simp only [marks, List.mem_flatMap, List.mem_map, Prod.mk.injEq, use?_eq_some_iff]
  constructor
  · rintro ⟨⟨_, uses⟩, hc, ⟨_, use⟩, hf, rfl, rfl, rfl⟩
    exact ⟨use, ⟨uses, hc, hf⟩, rfl⟩
  · rintro ⟨use, ⟨uses, hc, hf⟩, rfl⟩
    exact ⟨_, hc, _, hf, rfl, rfl, rfl⟩

lemma Agrees.occurrence_eq (h : o.Agrees o') (container element : String) :
    (o'.use? container element).map FieldUse.occurrence =
      (o.use? container element).map FieldUse.occurrence :=
  Option.ext fun marker => by rw [← mem_marks, ← mem_marks, h.marks]

end Ontology

namespace Ontology.Reorders

variable {o o' : Ontology}

lemma symm (h : o.Reorders o') : o'.Reorders o :=
  ⟨h.containers.symm, fun name uses uses' hu hu' => (h.fields name uses' uses hu' hu).symm⟩

lemma use?_of_use? (h : o.Reorders o') {container element : String} {use : FieldUse}
    (hu : o.use? container element = some use) : o'.use? container element = some use := by
  obtain ⟨uses, hc, hel⟩ := use?_eq_some_iff.mp hu
  obtain ⟨uses', hc'⟩ := Table.mem_names.mp (h.containers.mem_iff.mpr (List.mem_map_of_mem hc))
  have hperm := h.fields container uses uses' (Table.get?_eq_some_iff.mpr hc) hc'
  exact use?_eq_some_iff.mpr ⟨uses', Table.get?_eq_some_iff.mp hc', hperm.mem_iff.mpr hel⟩

lemma use?_eq (h : o.Reorders o') (container element : String) :
    o'.use? container element = o.use? container element :=
  Option.ext fun _ => ⟨h.symm.use?_of_use?, h.use?_of_use?⟩

lemma agrees (h : o.Reorders o') : o.Agrees o' :=
  ⟨fun _ => h.containers.mem_iff, fun _ => by rw [mem_marks, mem_marks, h.use?_eq]⟩

end Ontology.Reorders

namespace Walk

variable {m : Model} {w : Walk} {o' : Ontology}

/-- What is made of a field depends on its marker alone. -/
lemma field_congr {d : Dictionary} {types : List (String × Target)}
    {uses uses' : Option (Table FieldUse)} {name element : String}
    (h : (uses' >>= (·.get? element)).map FieldUse.occurrence =
      (uses >>= (·.get? element)).map FieldUse.occurrence) :
    field d types uses' name element = field d types uses name element := by
  unfold field
  cases hu : (uses >>= (·.get? element)) <;> cases hu' : (uses' >>= (·.get? element)) <;>
    simp_all

lemma fields_congr {d : Dictionary} {types : List (String × Target)}
    {uses uses' : Option (Table FieldUse)} {name : String}
    (h : ∀ element, (uses' >>= (·.get? element)).map FieldUse.occurrence =
      (uses >>= (·.get? element)).map FieldUse.occurrence) (seen elements : List String) :
    fields d types uses' name seen elements = fields d types uses name seen elements := by
  induction elements generalizing seen with
  | nil => rfl
  | cons element rest ih => rw [fields, fields, field_congr (h element), ih]

/-- Ontologies that agree give the same walk, unless one names an object that is no entry. -/
lemma build_of_agrees (h : build m.dictionary m.ontology = .ok w) (ho : m.ontology.Agrees o')
    {w' : Walk} : build m.dictionary o' = .ok w' ↔ w' = w ∧
      ∀ container field use, o'.use? container field = some use →
        use.object ∈ m.dictionary.names := by
  obtain ⟨types, cs, ht, hcheck, hcs, hw⟩ := build_eq_ok_iff.mp h
  obtain ⟨hnames, hfields⟩ := checkOntology_eq_ok_iff.mp hcheck
  have hcontainer : ∀ types (e : String × TypeEntry), container m.dictionary o' types e.1 e.2 =
      container m.dictionary m.ontology types e.1 e.2 := by
    intro types e
    unfold container
    rw [fields_congr (ho.occurrence_eq e.1)]
  have hcheck' : checkOntology m.dictionary o' = .ok () ↔ ∀ container field use,
      o'.use? container field = some use → use.object ∈ m.dictionary.names := by
    refine (checkOntology_eq_ok_iff (m := { m with ontology := o' })).trans
      ⟨fun ⟨_, hf⟩ c f use hu => (hf c f use hu).2, fun hobjects => ⟨?_, ?_⟩⟩
    · exact fun name hn => hnames name ((ho.containers name).mp hn)
    · intro c f use' hu'
      -- the field stands in the first ontology too, so that its container has it
      have hmark := ho.occurrence_eq c f
      rw [hu', Option.map_some, eq_comm, Option.map_eq_some_iff] at hmark
      obtain ⟨use, hu, -⟩ := hmark
      exact ⟨(hfields c f use hu).1, hobjects c f use' hu'⟩
  rw [← hcheck', build_eq_ok_iff]
  simp only [hcontainer]
  constructor
  · rintro ⟨types', cs', ht', hok, hcs', rfl⟩
    rw [ht, Except.ok.injEq] at ht'
    subst ht'
    rw [hcs, Except.ok.injEq] at hcs'
    subst hcs'
    exact ⟨hw.symm, hok⟩
  · rintro ⟨rfl, hok⟩
    exact ⟨types, cs, ht, hok, hcs, hw⟩

/-- Another order of containers and fields gives the same walk. -/
lemma build_of_reorders (h : build m.dictionary m.ontology = .ok w)
    (ho : m.ontology.Reorders o') : build m.dictionary o' = .ok w := by
  obtain ⟨-, -, -, hcheck, -⟩ := build_eq_ok_iff.mp h
  refine (build_of_agrees h ho.agrees).mpr ⟨rfl, fun c f use hu => ?_⟩
  rw [ho.use?_eq] at hu
  exact ((checkOntology_eq_ok_iff.mp hcheck).2 c f use hu).2

end Walk

open Walk in
/-- **Walks are complete.** A walk holds its model, in the order of the dictionary and of the
elements, with all that it refers to. The order of the ontology does not show in it, nor do the
objects: an ontology that agrees in its markers gives the same walk or, when it names an object that
is no entry, none. -/
theorem walk_holds_model {m : Model} {w : Walk}
    (h : Walk.build m.dictionary m.ontology = .ok w) :
    w.Holds m ∧ (∀ o', m.ontology.Reorders o' → Walk.build m.dictionary o' = .ok w) ∧
      ∀ o', m.ontology.Agrees o' → ∀ w', (Walk.build m.dictionary o' = .ok w' ↔ w' = w ∧
        ∀ container field use, o'.use? container field = some use →
          use.object ∈ m.dictionary.names) :=
  ⟨holds_of_build h, fun _ => build_of_reorders h, fun _ ho _ => build_of_agrees h ho⟩

/-! ### A container named like a primitive -/

/-- A reading has spans, by another name, and a note. A note is a text and no reading, although
readings go by the name of texts. -/
def readingModel : Model where
  version := none
  dictionary := ⟨[
    ("Text", ⟨.container, "A reading", ["Span", "Note"], []⟩),
    ("Note", ⟨.named "Text", "A remark", [], []⟩),
    ("Span", ⟨.named "TimeSpan", "When it was taken", [], []⟩),
    ("TimeSpan", ⟨.container, "", ["StartDate"], []⟩),
    ("StartDate", ⟨.named "DateTime", "", [], []⟩)], by decide⟩
  ontology := ⟨[
    ("Text", ⟨[("Span", ⟨"Text", "+"⟩), ("Note", ⟨"Text", "0"⟩)], by decide⟩),
    ("TimeSpan", ⟨[("StartDate", ⟨"TimeSpan", "1"⟩)], by decide⟩)], by decide⟩

def readingWalk : Walk where
  containers := [
    ⟨"Text", "A reading", [⟨"Span", .reference "TimeSpan", .list, true, "When it was taken"⟩,
      ⟨"Note", .scalar .string, .optional, false, "A remark"⟩]⟩,
    ⟨"TimeSpan", "", [⟨"StartDate", .scalar .timestamp, .required, false, ""⟩]⟩]
  enumerations := []
  documentation := [("Text", "A reading"), ("Note", "A remark"), ("Span", "When it was taken"),
    ("TimeSpan", ""), ("StartDate", "")]
  types := [("Text", .reference "Text"), ("Note", .scalar .string),
    ("Span", .reference "TimeSpan"), ("TimeSpan", .reference "TimeSpan"),
    ("StartDate", .scalar .timestamp)]

/-- The same markers in another order, with other objects. -/
def turnedOntology : Ontology := ⟨[
  ("TimeSpan", ⟨[("StartDate", ⟨"Note", "1"⟩)], by decide⟩),
  ("Text", ⟨[("Note", ⟨"Span", "0"⟩), ("Span", ⟨"Span", "+"⟩)], by decide⟩)], by decide⟩

lemma turnedOntology_agrees : readingModel.ontology.Agrees turnedOntology :=
  ⟨fun _ => List.Perm.mem_iff (by decide), fun _ => List.Perm.mem_iff (by decide)⟩

/-- The walk of readings holds them, and it is that of the turned ontology too, which names
entries. -/
theorem readingWalk_holds : readingWalk.Holds readingModel ∧
    Walk.build readingModel.dictionary turnedOntology = .ok readingWalk := by
  obtain ⟨hholds, -, hturned⟩ := walk_holds_model (m := readingModel) (w := readingWalk) rfl
  refine ⟨hholds, (hturned _ turnedOntology_agrees _).mpr ⟨rfl, fun container field use hu => ?_⟩⟩
  obtain ⟨uses, hc, hf⟩ := Ontology.use?_eq_some_iff.mp hu
  have hobjects : ∀ c ∈ turnedOntology.entries, ∀ f ∈ c.2.entries,
      f.2.object ∈ readingModel.dictionary.names := by decide
  exact hobjects _ hc _ hf

end RecordCuration
