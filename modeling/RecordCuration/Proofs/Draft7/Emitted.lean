import RecordCuration.Draft7.SchemaReader
import RecordCuration.Proofs.Json.Members
import RecordCuration.Proofs.Json.WellFormed
import RecordCuration.JsonSchema
import RecordCuration.Proofs.Frame

/-!
The checks that the schema of a class stands for.

Reading the shallow schema of a frame gives three checks: the type, the members that are due, and
the listed members with no others. Definitions beside them do not count.
-/

namespace RecordCuration

open Draft7

namespace JsonSchema

def typeSchema : FrameType → Schema
  | .scalar .string => .all [.type [.string]]
  | .scalar .timestamp => .all [.type [.string], .format .dateTime]
  | .scalar .float => .all [.type [.number]]
  | .scalar .duration => .all [.type [.string], .format .duration]
  | .scalar .integer => .all [.type [.integer]]
  | .enumeration _ values => .all [.type [.string], .enum (values.map .str)]
  | .classRef name => .reference ("#/definitions/" ++ name)

/-- The schema of a type, or of an array of it. -/
def slotSchema (array : Bool) (t : FrameType) : Schema :=
  if array then .all [.type [.array], .items (typeSchema t)] else typeSchema t

/-- The listed members of a class. -/
def listed (fr : Frame) : List (String × Schema) :=
  fr.fields.map fun f => (f.name, slotSchema f.cardinality.isArray f.type)

def classSchema (fr : Frame) : Schema :=
  .all [.type [.object], .required fr.due, .closed (listed fr)]

/-! ### Reading -/

lemma ofJson_typeFragment (place : String) (t : FrameType) :
    Schema.ofJson place (typeFragment t) = typeSchema t := by
  cases t with
  | scalar s => cases s <;> rfl
  | enumeration id values => rfl
  | classRef name => rfl

lemma ofJson_fieldFragment (place : String) (f : FrameField) :
    Schema.ofJson place (fieldFragment f) = slotSchema f.cardinality.isArray f.type := by
  unfold fieldFragment repeated slotSchema
  cases f.cardinality.isArray with
  | false => exact ofJson_typeFragment place f.type
  | true =>
    obtain ⟨name, type, cardinality⟩ := f
    cases type with
    | scalar s => cases s <;> rfl
    | enumeration id values => rfl
    | classRef name => rfl

lemma textsOf_strings (names : List String) : Schema.textsOf (Json.strings names) = .ok names := by
  show (names.map Json.str).mapM Schema.textOf = .ok names
  induction names with
  | nil => rfl
  | cons name names ih => rw [List.map_cons, List.mapM_cons, ih]; rfl

lemma membersOf_eq (place : String) (ms : List (String × Json)) :
    Schema.membersOf place ms =
      ms.map fun m => (m.1, Schema.ofJson (Schema.descend place m.1) m.2) := by
  induction ms with
  | nil => rfl
  | cons m ms ih => obtain ⟨k, v⟩ := m; rw [Schema.membersOf, ih]; rfl

/-- Fields without repeated names are properties in their order. -/
lemma ofWrites_fragments {fr : Frame} (h : (fr.fields.map (·.name)).Nodup) :
    Members.ofWrites (fr.fields.map fun f => (f.name, fieldFragment f)) =
      fr.fields.map fun f => (f.name, fieldFragment f) :=
  Members.ofWrites_of_nodup (by rwa [List.map_map])

lemma membersOf_properties (place : String) {fr : Frame} (h : (fr.fields.map (·.name)).Nodup) :
    Schema.membersOf place
      (Members.ofWrites (fr.fields.map fun f => (f.name, fieldFragment f))) = listed fr := by
  rw [ofWrites_fragments h, membersOf_eq, List.map_map]
  exact List.map_congr_left fun f _ => by
    rw [Function.comp_apply, ofJson_fieldFragment]

/-- **The checks of a class**: the schema of a frame without repeated fields. -/
theorem ofJson_shallow (place : String) {fr : Frame} (h : (fr.fields.map (·.name)).Nodup) :
    Schema.ofJson place (.obj (shallow fr)) = classSchema fr := by
  have hread : Schema.ofJson place (.obj (shallow fr)) =
      .all [.type [.object], Schema.checked .required (Schema.textsOf (Json.strings fr.due)),
        .closed (Schema.membersOf (Schema.descend place "properties")
          (Members.ofWrites (fr.fields.map fun f => (f.name, fieldFragment f))))] := rfl
  rw [hread, textsOf_strings, membersOf_properties _ h]
  rfl

/-- Definitions are no check. -/
theorem ofJson_definitions (place : String) (definitions : List (String × Json)) (fr : Frame) :
    Schema.ofJson place (.obj (("definitions", .obj definitions) :: shallow fr)) =
      Schema.ofJson place (.obj (shallow fr)) := rfl

end JsonSchema

end RecordCuration
