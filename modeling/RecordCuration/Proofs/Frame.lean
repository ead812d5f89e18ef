import Mathlib.Tactic
import RecordCuration.Frame

/-!
The fields of a frame by name, and what their types refer to.
-/

namespace RecordCuration

/-- The target that a type comes from: an enumeration and a class go by their names. -/
def FrameType.target : FrameType → Target
  | .scalar s => .scalar s
  | .classRef name => .reference name
  | .enumeration id _ => .reference id

namespace Frame

/-- The field of a name. -/
def field? (fr : Frame) (name : String) : Option FrameField :=
  fr.fields.find? (·.name = name)

/-- The names of the fields that must be there. -/
def due (fr : Frame) : List String :=
  (fr.fields.filter (·.cardinality.isRequired)).map (·.name)

/-- A class occurs as the type of a field. -/
def Names (fr : Frame) (name : String) : Prop := ∃ f ∈ fr.fields, f.type = .classRef name

variable {fr : Frame} {name : String} {f : FrameField}

lemma mem_of_field? (h : fr.field? name = some f) : f ∈ fr.fields ∧ f.name = name :=
  ⟨List.mem_of_find?_eq_some h, by simpa using List.find?_some h⟩

lemma names_of_field? (h : fr.field? name = some f) {other : String}
    (ht : f.type = .classRef other) : fr.Names other := ⟨f, (mem_of_field? h).1, ht⟩

lemma exists_field?_iff : (∃ f, fr.field? name = some f) ↔ name ∈ fr.fields.map (·.name) := by
  rw [field?, ← Option.isSome_iff_exists, List.find?_isSome]
  simp

lemma mem_due :
    name ∈ fr.due ↔ ∃ f ∈ fr.fields, f.name = name ∧ f.cardinality.isRequired = true := by
  simp only [due, List.mem_map, List.mem_filter]
  exact ⟨fun ⟨f, ⟨hf, hr⟩, hn⟩ => ⟨f, hf, hn, hr⟩, fun ⟨f, hf, hn, hr⟩ => ⟨f, ⟨hf, hr⟩, hn⟩⟩

end Frame

end RecordCuration
