import RecordCuration.Proofs.Model.Meaning
import RecordCuration.Proofs.Sample

/-!
Which models can be walked.

A model is consistent when its dictionary and its ontology line up in both directions. A walk stops
at the first thing that does not, and its error is a violation that the model has; so it succeeds
for the consistent models and for no others.
-/

namespace RecordCuration

/-! ### Type names and markers -/

/-- The type names that stand for scalars. -/
def Scalar.primitives : List String :=
  ["Text", "URL", "DateTime", "Numeric", "Duration", "Count", "ID", "Item", "Sequence"]

lemma Scalar.ofPrimitive?_eq_none_iff {type : String} :
    ofPrimitive? type = none ↔ type ∉ primitives := by
  unfold ofPrimitive?
  split <;> simp_all [primitives]

/-- The occurrence markers. -/
def Cardinality.markers : List String := ["0", "1", "*", "+", "r"]

lemma Cardinality.ofMarker?_eq_none_iff {marker : String} :
    ofMarker? marker = none ↔ marker ∉ markers := by
  unfold ofMarker?
  split <;> simp_all [markers]

namespace Model

/-- A type is a container's or an enumeration's own, a primitive, or the name of a container or an
enumeration. -/
def Knows (m : Model) : TypeTag → Prop
  | .container => True
  | .enumeration => True
  | .named type => type ∈ Scalar.primitives ∨ type ∈ m.containers ∨ type ∈ m.enumerations

/-- The dictionary and the ontology of a model line up. -/
structure Consistent (m : Model) : Prop where
  types : ∀ name e, m.dictionary.get? name = some e → m.Knows e.tag
  /-- The ontology is about containers. -/
  containers : ∀ name ∈ m.ontology.names, name ∈ m.containers
  /-- Its fields are elements of theirs and name entries. -/
  fields : ∀ container field use, m.ontology.use? container field = some use →
    field ∈ m.subElements container ∧ use.object ∈ m.dictionary.names
  distinct : ∀ container ∈ m.containers, (m.subElements container).Nodup
  /-- Every element of a container is an entry and has a marker. -/
  elements : ∀ container ∈ m.containers, ∀ element ∈ m.subElements container,
    element ∈ m.dictionary.names ∧
      ∃ marker ∈ Cardinality.markers, m.marker? container element = some marker

/-- What an error says is so in a model. -/
inductive Violates (m : Model) : ModelError → Prop where
  | unresolvedReference {element target : String} {e : TypeEntry}
    (he : m.dictionary.get? element = some e) (ht : e.tag = .named target)
    (hp : target ∉ Scalar.primitives) (hc : target ∉ m.containers)
    (hn : target ∉ m.enumerations) : Violates m (.unresolvedReference element target)
  | notAContainer {name : String} (ho : name ∈ m.ontology.names) (hc : name ∉ m.containers) :
    Violates m (.notAContainer name)
  | unknownObject {container field : String} {use : FieldUse}
    (hu : m.ontology.use? container field = some use) (hn : use.object ∉ m.dictionary.names) :
    Violates m (.unknownObject container field use.object)
  | undeclaredField {container field : String} {use : FieldUse}
    (hc : container ∈ m.containers) (hu : m.ontology.use? container field = some use)
    (hn : field ∉ m.subElements container) : Violates m (.undeclaredField container field)
  | repeatedElement {container element : String} (hc : container ∈ m.containers)
    (hd : 1 < (m.subElements container).count element) :
    Violates m (.invalidFormat (.repeatedElement container element))
  | undefinedElement {container element : String} (hc : container ∈ m.containers)
    (he : element ∈ m.subElements container) (hn : element ∉ m.dictionary.names) :
    Violates m (.undefinedElement container element)
  | missingOccurrence {container field : String} (hc : container ∈ m.containers)
    (he : field ∈ m.subElements container) (hn : m.marker? container field = none) :
    Violates m (.missingOccurrence container field)
  | unknownMarker {container field marker : String} (hc : container ∈ m.containers)
    (he : field ∈ m.subElements container) (hm : m.marker? container field = some marker)
    (hn : marker ∉ Cardinality.markers) :
    Violates m (.unknownMarker marker (some (container, field)))

variable {m : Model}

lemma Violates.not_consistent {e : ModelError} (h : m.Violates e) : ¬ m.Consistent := by
  intro hm
  cases h with
  | unresolvedReference he ht hp hc hn =>
    have hk := hm.types _ _ he
    rw [ht] at hk
    exact hk.elim hp (·.elim hc hn)
  | notAContainer ho hc => exact hc (hm.containers _ ho)
  | unknownObject hu hn => exact hn (hm.fields _ _ _ hu).2
  | undeclaredField _ hu hn => exact hn (hm.fields _ _ _ hu).1
  | repeatedElement hc hd =>
    exact absurd (List.nodup_iff_count_le_one.mp (hm.distinct _ hc) _) (not_le.mpr hd)
  | undefinedElement hc he hn => exact hn (hm.elements _ hc _ he).1
  | missingOccurrence hc he hn =>
    obtain ⟨-, marker, -, hm⟩ := hm.elements _ hc _ he
    rw [hn] at hm
    cases hm
  | unknownMarker hc he hmark hn =>
    obtain ⟨-, marker, hmem, hm⟩ := hm.elements _ hc _ he
    rw [hmark] at hm
    cases hm
    exact hn hmem

end Model

namespace Walk

open Model

variable {m : Model} {name : String} {e : TypeEntry} {err : ModelError}

/-! ### Types -/

lemma resolve_eq_error_iff : resolve m.dictionary name e = .error err ↔
    ∃ type, e.tag = .named type ∧ ¬ m.Knows e.tag ∧ err = .unresolvedReference name type := by
  unfold resolve
  cases ht : e.tag with
  | container => simp
  | enumeration => simp
  | named type =>
    cases hs : Scalar.ofPrimitive? type with
    | some s =>
      have hp : type ∈ Scalar.primitives := by
        by_contra hp
        rw [Scalar.ofPrimitive?_eq_none_iff.mpr hp] at hs
        cases hs
      simp [hs, Knows, hp]
    | none =>
      have hp := Scalar.ofPrimitive?_eq_none_iff.mp hs
      cases hd : m.dictionary.get? type with
      | none => simp [hs, Knows, hp, mem_containers, mem_enumerations, hd, eq_comm]
      | some target =>
        cases htag : target.tag <;>
          simp [hs, Knows, hp, mem_containers, mem_enumerations, hd, htag, TypeEntry.isContainer,
            TypeEntry.isEnumeration, eq_comm]

lemma violates_of_resolveAll (h : resolveAll m.dictionary = .error err) : m.Violates err := by
  obtain ⟨⟨name, e⟩, hmem, h⟩ := exists_of_mapM_error h
  obtain ⟨type, ht, hk, rfl⟩ := resolve_eq_error_iff.mp (map_eq_error_iff.mp h)
  rw [ht] at hk
  simp only [Knows, not_or] at hk
  exact .unresolvedReference (Table.get?_eq_some_iff.mpr hmem) ht hk.1 hk.2.1 hk.2.2

/-! ### The ontology -/

lemma checkField_eq_ok_iff {container field : String} {use : FieldUse} :
    checkField m.dictionary container e field use = .ok () ↔
      field ∈ e.subElements ∧ use.object ∈ m.dictionary.names := by
  unfold checkField Table.contains
  split_ifs with ho hf <;> simp_all

lemma checkContainer_eq_ok_iff {fields : Table FieldUse} :
    checkContainer m.dictionary name fields = .ok () ↔ name ∈ m.containers ∧
      ∀ f ∈ fields.entries, f.1 ∈ m.subElements name ∧ f.2.object ∈ m.dictionary.names := by
  unfold checkContainer
  rw [mem_containers]
  cases he : m.dictionary.get? name with
  | none => simp
  | some e =>
    by_cases ht : e.tag = .container
    · simp only [TypeEntry.isContainer, ht, decide_true, if_true, forM_eq_ok_iff,
        checkField_eq_ok_iff, subElements_eq he]
      simp [ht]
    · simp [TypeEntry.isContainer, ht]

lemma checkOntology_eq_ok_iff : checkOntology m.dictionary m.ontology = .ok () ↔
    (∀ name ∈ m.ontology.names, name ∈ m.containers) ∧
      ∀ container field use, m.ontology.use? container field = some use →
        field ∈ m.subElements container ∧ use.object ∈ m.dictionary.names := by
  rw [checkOntology, forM_eq_ok_iff]
  simp only [checkContainer_eq_ok_iff, Ontology.use?_eq_some_iff, Table.names, List.forall_mem_map]
  constructor
  · intro h
    refine ⟨fun c hc => (h c hc).1, fun container field use hu => ?_⟩
    obtain ⟨fields, hc, hf⟩ := hu
    exact (h _ hc).2 _ hf
  · rintro ⟨hnames, hfields⟩ c hc
    exact ⟨hnames c hc, fun f hf => hfields _ _ _ ⟨c.2, hc, hf⟩⟩

lemma violates_of_checkOntology (h : checkOntology m.dictionary m.ontology = .error err) :
    m.Violates err := by
  obtain ⟨⟨name, fields⟩, hmem, h⟩ := exists_of_forM_error h
  have ho : name ∈ m.ontology.names := List.mem_map_of_mem hmem
  by_cases hc : name ∈ m.containers
  · obtain ⟨e, he, ht⟩ := mem_containers.mp hc
    simp only [checkContainer, he, TypeEntry.isContainer, ht, decide_true, if_true] at h
    obtain ⟨⟨field, use⟩, hf, h⟩ := exists_of_forM_error h
    have hu : m.ontology.use? name field = some use :=
      Ontology.use?_eq_some_iff.mpr ⟨fields, hmem, hf⟩
    unfold checkField Table.contains at h
    split_ifs at h with hobject hfield
    · cases h
      exact .unknownObject hu (by simpa using hobject)
    · cases h
      exact .undeclaredField hc hu (by rwa [subElements_eq he])
  · unfold checkContainer at h
    split at h
    · rename_i e he
      have ht : e.isContainer = false := by
        by_contra ht
        exact hc (mem_containers.mpr ⟨e, he, by simpa [TypeEntry.isContainer] using ht⟩)
      rw [ht] at h
      cases h
      exact .notAContainer ho hc
    · cases h
      exact .notAContainer ho hc

/-! ### Fields -/

section Fields

variable {types : List (String × Target)} {element : String}

lemma violates_of_field (ht : resolveAll m.dictionary = .ok types) (hc : name ∈ m.containers)
    (hel : element ∈ m.subElements name)
    (h : field m.dictionary types (m.ontology.get? name) name element = .error err) :
    m.Violates err := by
  unfold field at h
  split at h
  · split at h
    · rename_i huse
      cases h
      exact .missingOccurrence hc hel (by rw [marker?, huse]; rfl)
    · rename_i use huse
      have hmark : m.marker? name element = some use.occurrence := by rw [marker?, huse]; rfl
      rcases bind_eq_error_iff.mp h with h | ⟨c, -, h⟩
      · obtain ⟨fault, hfault, rfl⟩ := mapError_eq_error_iff.mp h
        unfold cardinality at hfault
        split at hfault
        · cases hfault
        · rename_i hnone
          cases hfault
          exact .unknownMarker hc hel hmark (Cardinality.ofMarker?_eq_none_iff.mp hnone)
      · cases h
  · rename_i hnone
    cases h
    refine .undefinedElement hc hel fun hmem => ?_
    -- an entry has a type, so that nothing is left to be undefined
    obtain ⟨e, he⟩ := Table.mem_names.mp hmem
    rw [← names_of_types ht, ← Json.lookup_isSome_iff] at hmem
    obtain ⟨target, htarget⟩ := Option.isSome_iff_exists.mp hmem
    exact hnone e target he htarget

/-- The first fault of the elements that are left is a repetition or that of an element. -/
lemma cases_of_fields_error {uses : Option (Table FieldUse)} {seen elements : List String}
    (h : fields m.dictionary types uses name seen elements = .error err) :
    (∃ element, 1 < (seen ++ elements).count element ∧
        err = .invalidFormat (.repeatedElement name element)) ∨
      ∃ element ∈ elements, field m.dictionary types uses name element = .error err := by
  induction elements generalizing seen with
  | nil => cases h
  | cons element rest ih =>
    rw [fields] at h
    split_ifs at h with hseen
    · cases h
      have hpos := List.count_pos_iff.mpr hseen
      refine .inl ⟨element, ?_, rfl⟩
      rw [List.count_append, List.count_cons_self]
      omega
    · rcases bind_eq_error_iff.mp h with h | ⟨f, -, h⟩
      · exact .inr ⟨element, by simp, h⟩
      rcases bind_eq_error_iff.mp h with h | ⟨fs, -, h⟩
      · rcases ih h with ⟨repeated, hcount, rfl⟩ | ⟨element', hmem, h⟩
        · have hperm : (element :: seen ++ rest).Perm (seen ++ element :: rest) :=
            List.perm_middle.symm
          exact .inl ⟨repeated, hperm.count_eq repeated ▸ hcount, rfl⟩
        · exact .inr ⟨element', by simp [hmem], h⟩
      · cases h

lemma violates_of_container (ht : resolveAll m.dictionary = .ok types)
    (he : m.dictionary.get? name = some e) (htag : e.tag = .container)
    (h : container m.dictionary m.ontology types name e = .error err) : m.Violates err := by
  have hc : name ∈ m.containers := mem_containers.mpr ⟨e, he, htag⟩
  have hsub := subElements_eq he
  rcases cases_of_fields_error (map_eq_error_iff.mp h) with ⟨element, hcount, rfl⟩ | ⟨el, hel, h⟩
  · exact .repeatedElement hc (by rwa [hsub])
  · exact violates_of_field ht hc (by rwa [hsub]) h

end Fields

/-! ### Walks -/

/-- The error of a walk is a violation that the model has. -/
lemma violates_of_build (h : build m.dictionary m.ontology = .error err) : m.Violates err := by
  unfold build at h
  rcases bind_eq_error_iff.mp h with h | ⟨types, ht, h⟩
  · exact violates_of_resolveAll h
  rcases bind_eq_error_iff.mp h with h | ⟨-, -, h⟩
  · exact violates_of_checkOntology h
  rcases bind_eq_error_iff.mp h with h | ⟨cs, -, h⟩
  · obtain ⟨⟨name, e⟩, hmem, h⟩ := exists_of_mapM_error h
    obtain ⟨hmem, htag⟩ := List.mem_filter.mp hmem
    exact violates_of_container ht (Table.get?_eq_some_iff.mpr hmem) (of_decide_eq_true htag) h
  · cases h

/-- What can be walked lines up. -/
lemma consistent_of_build {w : Walk} (h : build m.dictionary m.ontology = .ok w) :
    m.Consistent := by
  obtain ⟨types, cs, ht, ho, hcs, -⟩ := build_eq_ok_iff.mp h
  obtain ⟨hcontainers, hfields⟩ := checkOntology_eq_ok_iff.mp ho
  have hcontainer : ∀ name ∈ m.containers, ∃ e fs, m.dictionary.get? name = some e ∧
      fields m.dictionary types (m.ontology.get? name) name [] e.subElements = .ok fs := by
    intro name hc
    obtain ⟨e, he, htag⟩ := mem_containers.mp hc
    obtain ⟨fs, -, hfs⟩ := exists_fields_of_container hcs he htag
    exact ⟨e, fs, he, hfs⟩
  refine ⟨fun name e he => ?_, hcontainers, hfields, fun name hc => ?_, fun name hc el hel => ?_⟩
  · obtain ⟨_, -, hok⟩ := (exists_of_mapM_ok ht).1 _ (Table.get?_eq_some_iff.mp he)
    obtain ⟨target, hr, -⟩ := map_eq_ok_iff.mp hok
    by_contra hk
    cases htag : e.tag with
    | container => exact hk (by rw [htag]; trivial)
    | enumeration => exact hk (by rw [htag]; trivial)
    | named type =>
      have herr : resolve m.dictionary name e = .error (.unresolvedReference name type) :=
        resolve_eq_error_iff.mpr ⟨type, htag, hk, rfl⟩
      rw [hr] at herr
      cases herr
  · obtain ⟨e, fs, he, hfs⟩ := hcontainer name hc
    rw [subElements_eq he]
    exact (fields_eq_ok_iff.mp hfs).1
  · obtain ⟨e, fs, he, hfs⟩ := hcontainer name hc
    rw [subElements_eq he] at hel
    obtain ⟨-, -, hmap⟩ := fields_eq_ok_iff.mp hfs
    obtain ⟨f, -, hf⟩ := (exists_of_mapM_ok hmap).1 el hel
    obtain ⟨entry, -, use, c, hentry, -, huse, hmark, -⟩ := field_eq_ok_iff.mp hf
    refine ⟨Table.mem_names.mpr ⟨entry, hentry⟩, use.occurrence, ?_, by rw [marker?, huse]; rfl⟩
    by_contra hnot
    rw [Cardinality.ofMarker?_eq_none_iff.mpr hnot] at hmark
    cases hmark

end Walk

open Walk in
/-- **Consistent models are those that can be walked.** A walk succeeds exactly when the dictionary
and the ontology line up, and what its error names is wrong with the model. -/
theorem build_succeeds_iff_consistent (m : Model) :
    ((∃ w, Walk.build m.dictionary m.ontology = .ok w) ↔ m.Consistent) ∧
      ∀ e, Walk.build m.dictionary m.ontology = .error e → m.Violates e := by
  refine ⟨⟨fun ⟨w, hw⟩ => consistent_of_build hw, fun hm => ?_⟩, fun e => violates_of_build⟩
  cases hb : Walk.build m.dictionary m.ontology with
  | ok w => exact ⟨w, rfl⟩
  | error e => exact absurd hm (violates_of_build hb).not_consistent

/-- A mission with a name of a doubtful marker, and with an alias that it does not have. -/
def doubtfulMission : Model where
  version := none
  dictionary := ⟨[("Mission", ⟨.container, "", ["Name"], []⟩),
    ("Name", ⟨.named "Text", "", [], []⟩)], by decide⟩
  ontology := ⟨[("Mission", ⟨[("Name", ⟨"Name", "?"⟩), ("Alias", ⟨"Name", "*"⟩)], by decide⟩)],
    by decide⟩

/-- The sample lines up; the doubtful mission does not, and of its two faults the error names the
alias, which the ontology alone shows. -/
theorem doubtfulMission_build_fails : sampleModel.Consistent ∧ ¬ doubtfulMission.Consistent ∧
    Walk.build doubtfulMission.dictionary doubtfulMission.ontology =
      .error (.undeclaredField "Mission" "Alias") ∧
    doubtfulMission.Violates (.undeclaredField "Mission" "Alias") := by
  have hfails : Walk.build doubtfulMission.dictionary doubtfulMission.ontology =
      .error (.undeclaredField "Mission" "Alias") := rfl
  refine ⟨(build_succeeds_iff_consistent sampleModel).1.mp ⟨_, rfl⟩, fun hm => ?_, hfails,
    (build_succeeds_iff_consistent doubtfulMission).2 _ hfails⟩
  obtain ⟨w, hw⟩ := (build_succeeds_iff_consistent doubtfulMission).1.mpr hm
  rw [hfails] at hw
  cases hw

end RecordCuration
