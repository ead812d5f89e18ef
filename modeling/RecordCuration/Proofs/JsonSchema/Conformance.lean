import RecordCuration.Proofs.JsonSchema.Emission
import RecordCuration.Proofs.Sample

/-!
Documents that conform to a container of a model.

`Model.Conforms` reads the dictionary and the ontology alone. The schema that an accepted model
emits for a container accepts the documents that conform to it and no others.
-/

namespace RecordCuration

open Draft7 JsonSchema

/-- A schema accepts a document, where every reference is taken as the definition under its name. -/
def Accepts (formats : Bool) (source doc : Json) : Prop :=
  (definitionLibrary source).faults formats (Schema.ofJson "unknown" source) doc = []

namespace Model

mutual
/-- An object with the members that a container may have, those that are due among them. -/
inductive Conforms (m : Model) (formats : Bool) : String → Json → Prop where
  | object {container : String} {ms : List (String × Json)}
    (known : ∀ p ∈ ms, p.1 ∈ m.subElements container)
    (due : ∀ element ∈ m.subElements container, m.IsDue container element → ∃ v, (element, v) ∈ ms)
    (held : ∀ p ∈ ms, Holds m formats container p.1 p.2) : Conforms m formats container (.obj ms)
/-- The value of a field: one value, or an array where the field repeats. -/
inductive Holds (m : Model) (formats : Bool) : String → String → Json → Prop where
  | one {container element : String} {v : Json} (h : ¬ m.Repeats container element)
    (hv : Fits m formats element v) : Holds m formats container element v
  | list {container element : String} {xs : List Json} (h : m.Repeats container element)
    (hv : ∀ x ∈ xs, Fits m formats element x) : Holds m formats container element (.arr xs)
/-- A value of what an element stands for. -/
inductive Fits (m : Model) (formats : Bool) : String → Json → Prop where
  | scalar {element : String} {s : Scalar} {v : Json} (h : m.Means element (.scalar s))
    (hv : Accepts formats (scalarFragment s) v) : Fits m formats element v
  | enumeration {element id text : String} {values : List String}
    (h : m.Means element (.enumeration id values)) (hv : text ∈ values) :
    Fits m formats element (.str text)
  | container {element name : String} {v : Json} (h : m.Means element (.classRef name))
    (hv : Conforms m formats name v) : Fits m formats element v
end

end Model

/-! ### Faults and conformance -/

section Slots

variable {m : Model} {formats : Bool} {resolver : Resolver} {path : Path} {v : Json}

lemma accepts_scalarFragment {s : Scalar} :
    Accepts formats (scalarFragment s) v ↔ leafViolations formats v (.scalar s) = [] := by
  have hschema : Schema.ofJson "unknown" (scalarFragment s) = typeSchema (.scalar s) :=
    ofJson_typeFragment "unknown" (.scalar s)
  unfold Accepts Library.faults
  rw [hschema, check_leaf (by simp), leafFaults_eq_nil_iff]
  exact Iff.rfl

lemma leafViolations_enumeration {id : String} {values : List String} :
    leafViolations formats v (.enumeration id values) = [] ↔ ∃ text ∈ values, v = .str text := by
  simp only [leafViolations, ofType, List.append_eq_nil_iff, demand_eq_nil_iff]
  cases v with
  | str text => simp [TypeName.admits, equal]
  | _ => simp [TypeName.admits]

end Slots

/-- What a value without faults is, in a slot of what an element stands for. -/
def Model.Stands (m : Model) (formats array : Bool) (element : String) (v : Json) : Prop :=
  if array then ∃ xs, v = .arr xs ∧ ∀ x ∈ xs, m.Fits formats element x
  else m.Fits formats element v

/-- A value has no faults in a slot exactly when it stands there. -/
def Agrees (m : Model) (formats : Bool) (resolver : Resolver) (v : Json) : Prop :=
  ∀ array t element path, m.Means element t →
    (slotFaults formats resolver array t path v = [] ↔ m.Stands formats array element v)

section Agreement

variable {m : Model} {context : GraphContext} {g : GraphSchema} {formats : Bool} {v : Json}

lemma Model.Describes.holds_iff {container element : String} {fr : Frame} {f : FrameField}
    (hd : m.Describes container fr) (hf : fr.field? element = some f) :
    m.Holds formats container element v ↔ m.Stands formats f.cardinality.isArray element v := by
  obtain ⟨hmem, rfl⟩ := Frame.mem_of_field? hf
  have hiff := hd.repeats_iff hmem
  unfold Model.Stands
  constructor
  · rintro (⟨hnot, hv⟩ | ⟨hrep, hv⟩)
    · rw [if_neg (fun h => hnot (hiff.mpr h))]
      exact hv
    · rw [if_pos (hiff.mp hrep)]
      exact ⟨_, rfl, hv⟩
  · intro h
    split_ifs at h with harr
    · obtain ⟨xs, rfl, hv⟩ := h
      exact .list (hiff.mpr harr) hv
    · exact .one (fun hrep => harr (hiff.mp hrep)) h

/-- An object without faults conforms, and only then, when that is so for its members. -/
lemma class_agrees (h : GraphSchema.ofModel m context = .ok g) {name : String}
    (hname : name ∈ m.containers) {path : Path}
    (hmembers : ∀ ms, v = .obj ms → ∀ p ∈ ms, Agrees m formats g.frame p.2) :
    slotFaults formats g.frame false (.classRef name) path v = [] ↔
      m.Conforms formats name v := by
  obtain ⟨fr, hfr, hd⟩ := GraphSchema.exists_frame h hname
  cases hv : v.members? with
  | none =>
    rw [slotFaults_leaf fun _ _ => hv, leafFaults_eq_nil_iff]
    constructor
    · intro hnil
      cases v <;> simp_all [leafViolations, ofType, demand, TypeName.admits, Json.members?]
    · rintro ⟨⟩
      simp [Json.members?] at hv
  | some ms =>
    obtain rfl : v = .obj ms := by cases v <;> simp_all [Json.members?]
    rw [slotFaults_class hfr, List.append_eq_nil_iff, List.append_eq_nil_iff,
      required_eq_nil_iff, memberFaults_eq_nil_iff, strayFaults_eq_nil_iff]
    have hagree : ∀ p ∈ ms, ∀ f, fr.field? p.1 = some f →
        (slotFaults formats g.frame f.cardinality.isArray f.type (path ++ [.key p.1]) p.2 = [] ↔
          m.Holds formats name p.1 p.2) := by
      intro p hp f hf
      obtain ⟨hmem, hpf⟩ := Frame.mem_of_field? hf
      rw [hd.holds_iff hf]
      exact hmembers ms rfl p hp _ _ _ _ (hpf ▸ hd.means f hmem)
    constructor
    · rintro ⟨hdue, hheld, hknown⟩
      refine .object (fun p hp => hd.exists_field?_iff.mp (hknown p hp)) ?_ fun p hp => ?_
      · intro element hel hreq
        obtain ⟨f, hf⟩ := hd.exists_field?_iff.mpr hel
        obtain ⟨hmem, rfl⟩ := Frame.mem_of_field? hf
        exact hdue f.name (Frame.mem_due.mpr ⟨f, hmem, rfl, (hd.isDue_iff hmem).mp hreq⟩)
      · obtain ⟨f, hf⟩ := hknown p hp
        exact (hagree p hp f hf).mp (hheld p hp f hf)
    · rintro ⟨hknown, hdue, hheld⟩
      refine ⟨fun element hel => ?_, fun p hp f hf => (hagree p hp f hf).mpr (hheld p hp),
        fun p hp => hd.exists_field?_iff.mpr (hknown p hp)⟩
      obtain ⟨f, hmem, rfl, hreq⟩ := Frame.mem_due.mp hel
      have hsub : f.name ∈ m.subElements name := hd.names ▸ List.mem_map.mpr ⟨f, hmem, rfl⟩
      exact hdue f.name hsub ((hd.isDue_iff hmem).mpr hreq)

lemma fits_agrees (h : GraphSchema.ofModel m context = .ok g) {t : FrameType} {element : String}
    (ht : m.Means element t) {path : Path}
    (hmembers : ∀ ms, v = .obj ms → ∀ p ∈ ms, Agrees m formats g.frame p.2) :
    slotFaults formats g.frame false t path v = [] ↔ m.Fits formats element v := by
  cases t with
  | scalar s =>
    rw [slotFaults_leaf (by simp), leafFaults_eq_nil_iff, ← accepts_scalarFragment]
    constructor
    · exact .scalar ht
    · rintro (⟨hs, hv⟩ | ⟨hs, hv⟩ | ⟨hs, hv⟩) <;> cases ht.unique hs
      exact hv
  | enumeration id values =>
    rw [slotFaults_leaf (by simp), leafFaults_eq_nil_iff, leafViolations_enumeration]
    constructor
    · rintro ⟨text, hin, rfl⟩; exact .enumeration ht hin
    · rintro (⟨hs, hv⟩ | ⟨hs, hv⟩ | ⟨hs, hv⟩) <;> cases ht.unique hs
      exact ⟨_, hv, rfl⟩
  | classRef name =>
    rw [class_agrees h ht.mem_containers hmembers]
    constructor
    · exact .container ht
    · rintro (⟨hs, hv⟩ | ⟨hs, hv⟩ | ⟨hs, hv⟩) <;> cases ht.unique hs
      exact hv

lemma agrees_of_parts (h : GraphSchema.ofModel m context = .ok g)
    (hitems : ∀ xs, v = .arr xs → ∀ x ∈ xs, Agrees m formats g.frame x)
    (hmembers : ∀ ms, v = .obj ms → ∀ p ∈ ms, Agrees m formats g.frame p.2) :
    Agrees m formats g.frame v := by
  intro array t element path ht
  unfold Model.Stands
  cases array with
  | false => exact fits_agrees h ht hmembers
  | true =>
    cases hv : v.items? with
    | none =>
      rw [slotFaults_lone hv]
      cases v <;> simp_all [Json.items?]
    | some xs =>
      obtain rfl : v = .arr xs := by cases v <;> simp_all [Json.items?]
      have heach : ∀ x ∈ xs, slotFaults formats g.frame false t [] x = [] ↔
          m.Fits formats element x := fun x hx => hitems xs rfl x hx false t element [] ht
      rw [slotFaults_list_eq_nil_iff]
      constructor
      · intro hnil
        exact ⟨xs, rfl, fun x hx => (heach x hx).mp (hnil x hx)⟩
      · rintro ⟨ys, hys, hfit⟩ x hx
        cases hys
        exact (heach x hx).mpr (hfit x hx)

lemma agrees (h : GraphSchema.ofModel m context = .ok g) (v : Json) :
    Agrees m formats g.frame v := by
  induction v with
  | arr xs ih =>
    exact agrees_of_parts h (fun ys he => by cases he; exact ih) (fun ms he => by cases he)
  | obj ms ih =>
    exact agrees_of_parts h (fun xs he => by cases he) (fun ns he => by cases he; exact ih)
  | _ => exact agrees_of_parts h (fun xs he => by cases he) (fun ms he => by cases he)

/-- The schema of a container accepts what conforms to it. -/
lemma Emitted.accepts_iff (h : GraphSchema.ofModel m context = .ok g) {container : String}
    (hc : container ∈ m.containers) {source : Json} {root : Frame}
    (he : Emitted g container source root) :
    Accepts formats source v ↔ m.Conforms formats container v := by
  unfold Accepts
  rw [he.read, faults_of_served (he.served h) he.frame]
  exact class_agrees h hc fun _ _ p _ => agrees h p.2

end Agreement

/-- **Emitted schemas mean what the model says**: every container of an accepted model has a schema,
and it accepts exactly the documents that conform to the container. -/
theorem accepts_iff_conforms {m : Model} {context : GraphContext} {g : GraphSchema}
    (h : GraphSchema.ofModel m context = .ok g) {container : String}
    (hc : container ∈ m.containers) :
    ∃ source, g.schemaForClass container = .ok source ∧
      ∀ formats doc, Accepts formats source doc ↔ m.Conforms formats container doc := by
  obtain ⟨source, root, he⟩ := exists_emitted h hc
  refine ⟨source, he.schema, fun formats doc => ?_⟩
  unfold Accepts
  rw [he.read, faults_of_served (he.served h) he.frame]
  exact class_agrees h hc fun ms _ p _ => agrees h p.2

/-- Missions and time spans name each other, and still have schemas that mean what they should. -/
theorem mission_accepts_iff_conforms :
    GraphSchema.ofModel sampleModel .standard = .ok sampleGraph ∧
      "Mission" ∈ sampleModel.containers ∧
      ∃ source, sampleGraph.schemaForClass "Mission" = .ok source ∧
        ∀ formats doc, Accepts formats source doc ↔ sampleModel.Conforms formats "Mission" doc :=
  ⟨sample_accepted, by decide, accepts_iff_conforms sample_accepted (by decide)⟩

end RecordCuration
