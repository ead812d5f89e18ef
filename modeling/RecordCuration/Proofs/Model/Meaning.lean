import RecordCuration.Proofs.Frame
import RecordCuration.Proofs.Model.Walk

/-!
What a model says of the fields of its containers.

The statements here read the dictionary and the ontology alone.
-/

namespace RecordCuration

/-- The word of an ontology on an element of a container. -/
def Ontology.use? (o : Ontology) (container element : String) : Option FieldUse :=
  (o.get? container) >>= (·.get? element)

lemma Ontology.use?_eq_some_iff {o : Ontology} {container element : String} {use : FieldUse} :
    o.use? container element = some use ↔
      ∃ uses, (container, uses) ∈ o.entries ∧ (element, use) ∈ uses.entries := by
  simp only [use?, bind, Option.bind_eq_some_iff, Table.get?_eq_some_iff]

namespace Model

variable (m : Model)

/-- The elements of a container, and none for what is no entry. -/
def subElements (container : String) : List String :=
  ((m.dictionary.get? container).map TypeEntry.subElements).getD []

/-- The occurrence marker of an element in a container. -/
def marker? (container element : String) : Option String :=
  ((m.ontology.get? container) >>= (·.get? element)).map FieldUse.occurrence

/-- A field holds a list of values. -/
def Repeats (container element : String) : Prop :=
  m.marker? container element = some "*" ∨ m.marker? container element = some "+"

instance (container element : String) : Decidable (m.Repeats container element) :=
  inferInstanceAs (Decidable (_ ∨ _))

/-- A field must be there. -/
def IsDue (container element : String) : Prop :=
  m.marker? container element = some "1" ∨ m.marker? container element = some "+"

/-- What an element stands for: a container or an enumeration by its own name or by its type's, or
the scalar that its type names. -/
inductive Means (element : String) : FrameType → Prop where
  | container {e : TypeEntry} (he : m.dictionary.get? element = some e)
    (ht : e.tag = .container) : Means element (.classRef element)
  | enumeration {e : TypeEntry} (he : m.dictionary.get? element = some e)
    (ht : e.tag = .enumeration) : Means element (.enumeration element e.allowedValues)
  | scalar {e : TypeEntry} {type : String} {s : Scalar}
    (he : m.dictionary.get? element = some e) (ht : e.tag = .named type)
    (hs : Scalar.ofPrimitive? type = some s) : Means element (.scalar s)
  | namedContainer {e target : TypeEntry} {type : String}
    (he : m.dictionary.get? element = some e) (ht : e.tag = .named type)
    (hs : Scalar.ofPrimitive? type = none) (hd : m.dictionary.get? type = some target)
    (hc : target.tag = .container) : Means element (.classRef type)
  | namedEnumeration {e target : TypeEntry} {type : String}
    (he : m.dictionary.get? element = some e) (ht : e.tag = .named type)
    (hs : Scalar.ofPrimitive? type = none) (hd : m.dictionary.get? type = some target)
    (hc : target.tag = .enumeration) : Means element (.enumeration type target.allowedValues)

variable {m}

lemma Means.unique {element : String} {s t : FrameType} (hs : m.Means element s)
    (ht : m.Means element t) : s = t := by
  cases hs <;> cases ht <;> simp_all

/-! ### Containers, enumerations and their elements -/

lemma mem_containers {name : String} :
    name ∈ m.containers ↔ ∃ e, m.dictionary.get? name = some e ∧ e.tag = .container := by
  simp [containers, TypeEntry.isContainer, Table.get?_eq_some_iff]

lemma mem_enumerations {name : String} :
    name ∈ m.enumerations ↔ ∃ e, m.dictionary.get? name = some e ∧ e.tag = .enumeration := by
  simp [enumerations, TypeEntry.isEnumeration, Table.get?_eq_some_iff]

lemma subElements_eq {name : String} {e : TypeEntry} (he : m.dictionary.get? name = some e) :
    m.subElements name = e.subElements := by simp [subElements, he]

lemma Means.mem_containers {element name : String} (h : m.Means element (.classRef name)) :
    name ∈ m.containers := by
  cases h with
  | container he ht => exact Model.mem_containers.mpr ⟨_, he, ht⟩
  | namedContainer _ _ _ hd hc => exact Model.mem_containers.mpr ⟨_, hd, hc⟩

lemma Means.entry {element name : String} {values : List String}
    (h : m.Means element (.enumeration name values)) : ∃ e, m.dictionary.get? name = some e ∧
      e.tag = .enumeration ∧ e.allowedValues = values := by
  cases h with
  | enumeration he ht => exact ⟨_, he, ht, rfl⟩
  | namedEnumeration _ _ _ hd hc => exact ⟨_, hd, hc, rfl⟩

/-- The type that a walk gives an entry is what the entry stands for. -/
lemma means_of_resolve {name : String} {e : TypeEntry} {target : Target}
    (he : m.dictionary.get? name = some e) (hr : Walk.resolve m.dictionary name e = .ok target) :
    ∃ t, m.Means name t ∧ t.target = target := by
  unfold Walk.resolve at hr
  cases ht : e.tag with
  | container =>
    rw [ht] at hr
    cases hr
    exact ⟨_, .container he ht, rfl⟩
  | enumeration =>
    rw [ht] at hr
    cases hr
    exact ⟨_, .enumeration he ht, rfl⟩
  | named type =>
    rw [ht] at hr
    simp only at hr
    split at hr
    · rename_i s hs
      cases hr; exact ⟨_, .scalar he ht hs, rfl⟩
    · rename_i hs
      split at hr
      · rename_i entry hd
        split_ifs at hr with hce
        cases hr
        simp only [Bool.or_eq_true, TypeEntry.isContainer, TypeEntry.isEnumeration,
          decide_eq_true_eq] at hce
        rcases hce with hc | hc
        · exact ⟨_, .namedContainer he ht hs hd hc, rfl⟩
        · exact ⟨_, .namedEnumeration he ht hs hd hc, rfl⟩
      · cases hr

/-- The slot of an element in a container: what it stands for, or a list of that. -/
def Slot (m : Model) (container element : String) (array : Bool) (t : FrameType) : Prop :=
  m.Means element t ∧ (array = true ↔ m.Repeats container element)

/-- The fields of a frame are those that a model gives a container: its elements in order, with
their markers and types. -/
structure Describes (m : Model) (container : String) (fr : Frame) : Prop where
  name : fr.name = container
  names : fr.fields.map (·.name) = m.subElements container
  nodup : (fr.fields.map (·.name)).Nodup
  marker : ∀ f ∈ fr.fields, ∃ marker, m.marker? container f.name = some marker ∧
    Cardinality.ofMarker? marker = some f.cardinality
  means : ∀ f ∈ fr.fields, m.Means f.name f.type

lemma isArray_of_marker {marker : String} {c : Cardinality}
    (h : Cardinality.ofMarker? marker = some c) :
    c.isArray = true ↔ marker = "*" ∨ marker = "+" := by
  unfold Cardinality.ofMarker? at h
  split at h <;> cases h <;> simp_all [Cardinality.isArray]

lemma isRequired_of_marker {marker : String} {c : Cardinality}
    (h : Cardinality.ofMarker? marker = some c) :
    c.isRequired = true ↔ marker = "1" ∨ marker = "+" := by
  unfold Cardinality.ofMarker? at h
  split at h <;> cases h <;> simp_all [Cardinality.isRequired]

namespace Describes

variable {container name : String} {fr : Frame} {f : FrameField}

lemma exists_field?_iff (hd : m.Describes container fr) :
    (∃ f, fr.field? name = some f) ↔ name ∈ m.subElements container := by
  rw [← hd.names, Frame.exists_field?_iff]

lemma repeats_iff (hd : m.Describes container fr) (hf : f ∈ fr.fields) :
    m.Repeats container f.name ↔ f.cardinality.isArray = true := by
  obtain ⟨marker, hm, hc⟩ := hd.marker f hf
  simp [Repeats, hm, isArray_of_marker hc]

lemma isDue_iff (hd : m.Describes container fr) (hf : f ∈ fr.fields) :
    m.IsDue container f.name ↔ f.cardinality.isRequired = true := by
  obtain ⟨marker, hm, hc⟩ := hd.marker f hf
  simp [IsDue, hm, isRequired_of_marker hc]

/-- A field fills the slot that the model gives its name. -/
lemma slot_eq (hd : m.Describes container fr) (hf : fr.field? name = some f) {array : Bool}
    {t : FrameType} (hslot : m.Slot container name array t) :
    array = f.cardinality.isArray ∧ t = f.type := by
  obtain ⟨hmem, rfl⟩ := Frame.mem_of_field? hf
  obtain ⟨hmean, harray⟩ := hslot
  rw [hd.repeats_iff hmem] at harray
  exact ⟨Bool.eq_iff_iff.mpr harray, hmean.unique (hd.means f hmem)⟩

end Describes

end Model

end RecordCuration
