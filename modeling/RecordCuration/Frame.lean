import RecordCuration.Graph.Document

/-!
Class frames: the fields of one class with enumerations written out.

A frame comes from a graph schema, where a name is looked up among enumerations first, or from a
frame document, where an enumeration stands inline.
-/

namespace RecordCuration

inductive FrameType where
  | scalar (s : Scalar)
  | classRef (name : String)
  | enumeration (id : String) (values : List String)
  deriving DecidableEq, Repr

structure FrameField where
  name : String
  type : FrameType
  cardinality : Cardinality
  deriving DecidableEq, Repr

structure Frame where
  name : String
  comment : String
  properties : List (String × String)
  fields : List FrameField
  deriving DecidableEq, Repr

namespace Frame

/-! ### Frame documents -/

def isEnumDocument (v : Json) : Bool := v.stringOr "@type" = "Enum"

/-- The type that a name or an inline enumeration stands for. -/
def readType (owner field : String) (v : Json) : Except GraphError FrameType :=
  match v with
  | .str type =>
    match Target.ofGraphName type with
    | .scalar s => .ok (.scalar s)
    | .reference name => .ok (.classRef name)
  | .obj ms =>
    if isEnumDocument v then do
      let id ← GraphSchema.documentId v
      let values ← GraphSchema.listedValues ((ms.lookup "@values").or (ms.lookup "@value"))
      pure (.enumeration id values)
    else .error (.invalidFrame (.unrecognisedType owner field))
  | _ => .error (.invalidFrame (.unrecognisedType owner field))

/-- Every object but an inline enumeration is a wrapper. -/
def readField (owner : String) (m : String × Json) : Except GraphError FrameField :=
  match m.2 with
  | .obj ms =>
    if isEnumDocument m.2 then (readType owner m.1 m.2).map (⟨m.1, ·, .required⟩)
    else do
      let c ← GraphSchema.wrapperCardinality owner m.1 m.2
      match ms.lookup "@class" with
      | none => throw (.invalidFrame (.missingClass owner m.1))
      | some inner => (readType owner m.1 inner).map (⟨m.1, ·, c⟩)
  | v => (readType owner m.1 v).map (⟨m.1, ·, .required⟩)

/-- The documentation of a frame; of a list of records the first counts. -/
def documentation (ms : List (String × Json)) : Json :=
  match ms.lookup "@documentation" with
  | some (.arr records) => records.head?.getD .null
  | some v => v
  | none => .null

def ofJson (name : String) : Json → Except GraphError Frame
  | .obj ms => do
    let doc := documentation ms
    let fields ← (GraphSchema.fieldMembers ms).mapM (readField name)
    pure ⟨name, doc.stringOr "@comment", GraphSchema.documentedProperties doc, fields⟩
  | _ => .error (.invalidFrame (.notAnObject name))

end Frame

namespace GraphSchema

/-- The type that a target of a class field stands for in a schema. -/
def frameType (g : GraphSchema) (owner field : String) : Target → Except GraphError FrameType
  | .scalar s => .ok (.scalar s)
  | .reference name =>
    match g.enumeration? name, g.class? name with
    | some e, _ => .ok (.enumeration e.id e.values)
    | none, some _ => .ok (.classRef name)
    | none, none => .error (.invalidFrame (.unknownType owner field name))

def frameField (g : GraphSchema) (owner : String) (f : ClassField) :
    Except GraphError FrameField :=
  (g.frameType owner f.name f.target).map (⟨f.name, ·, f.cardinality⟩)

def frame (g : GraphSchema) (name : String) : Except GraphError Frame :=
  match g.class? name with
  | none => .error (.notFound name)
  | some c => (c.fields.mapM (g.frameField name)).map (⟨c.id, c.comment, c.properties, ·⟩)

end GraphSchema

end RecordCuration
