import RecordCuration.Proofs.Draft7.Library

/-!
The schema of schemas with its references looked up.

The library of the schema of schemas is the result of a search. It is written out here, so that a
schema that is given can be checked by evaluation without a search each time.
-/

namespace RecordCuration

namespace Draft7.MetaSchema

/-- The definition under a name. -/
def definition (name : String) : Json := (definitions.lookup name).getD .null

/-- What references name, in the order in which they are found. -/
def referred : Library :=
  [("#/definitions/nonNegativeInteger", definition "nonNegativeInteger"),
    ("#/definitions/nonNegativeIntegerDefault0", definition "nonNegativeIntegerDefault0"),
    ("#", source),
    ("#/definitions/schemaArray", definition "schemaArray"),
    ("#/definitions/stringArray", definition "stringArray"),
    ("#/definitions/simpleTypes", definition "simpleTypes")].map
      fun t => (t.1, Schema.ofJson "$ref" t.2)

lemma library_eq : library = referred := by
  with_unfolding_all rfl

/-- No fault is found in a value that is a schema. -/
def Admits (v : Json) : Prop := (referred.faults true schema v).isEmpty

instance (v : Json) : Decidable (Admits v) := inferInstanceAs (Decidable (_ = true))

lemma admits_iff {v : Json} : Admits v ↔ faults v = [] := by
  rw [Admits, faults, library_eq, List.isEmpty_iff]

end Draft7.MetaSchema

namespace Engine

open Draft7

variable {source : Json} {config : ValidationConfig}

/-- A schema without faults is ready once its references are looked up. -/
lemma compile_of_admits (h : MetaSchema.Admits source) : Engine.compile source config =
    (Library.ofSchema config.formats source (Schema.ofJson "unknown" source)).map
      fun library => ⟨Schema.ofJson "unknown" source, library, config⟩ := by
  rw [Engine.compile, MetaSchema.admits_iff.mp h]

/-- A schema without faults that refers to nothing is ready as it is read. -/
lemma compile_of_closed {s : Schema} (h : MetaSchema.Admits source)
    (hread : Schema.ofJson "unknown" source = s) (hneeds : s.needs config.formats = []) :
    Engine.compile source config = .ok ⟨s, [], config⟩ := by
  subst hread
  rw [compile_of_admits h]
  simp only [Library.ofSchema, hneeds]
  rfl

end Engine

end RecordCuration
