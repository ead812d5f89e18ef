import RecordCuration.Json.Basic
import RecordCuration.Model.Types
import RecordCuration.Table

/-!
Models: a dictionary of types and an ontology of which fields a container has, how often.

The order of a dictionary, of an ontology and of a container's fields carries over to everything
made from a model.
-/

namespace RecordCuration

/-- What a dictionary says an entry is. -/
inductive TypeTag where
  | container
  | enumeration
  | named (name : String)
  deriving DecidableEq, Repr

namespace TypeTag

def name : TypeTag → String
  | .container => "Container"
  | .enumeration => "Enumeration"
  | .named n => n

def ofName (n : String) : TypeTag :=
  match n with
  | "Container" => .container
  | "Enumeration" => .enumeration
  | n => .named n

end TypeTag

/-- A dictionary entry; containers have sub-elements, enumerations have values. -/
structure TypeEntry where
  tag : TypeTag
  definition : String
  subElements : List String
  allowedValues : List String
  deriving DecidableEq, Repr

def TypeEntry.isContainer (e : TypeEntry) : Bool := e.tag = .container

def TypeEntry.isEnumeration (e : TypeEntry) : Bool := e.tag = .enumeration

/-- An ontology's word on one field of a container. -/
structure FieldUse where
  object : String
  occurrence : String
  deriving DecidableEq, Repr

abbrev Dictionary := Table TypeEntry

abbrev Ontology := Table (Table FieldUse)

structure Model where
  version : Option String
  dictionary : Dictionary
  ontology : Ontology
  deriving DecidableEq

namespace Model

def containers (m : Model) : List String :=
  (m.dictionary.entries.filter (·.2.isContainer)).map Prod.fst

def enumerations (m : Model) : List String :=
  (m.dictionary.entries.filter (·.2.isEnumeration)).map Prod.fst

end Model

/-- A member that is left out when it would be empty. -/
def nonemptyStrings (name : String) (values : List String) : List (String × Json) :=
  if values.isEmpty then [] else [(name, Json.strings values)]

def TypeEntry.toJson (e : TypeEntry) : Json :=
  .obj ([("type", .str e.tag.name), ("definition", .str e.definition)]
    ++ nonemptyStrings "subElements" e.subElements
    ++ nonemptyStrings "allowedValues" e.allowedValues)

def FieldUse.toJson (f : FieldUse) : Json :=
  .obj [("object", .str f.object), ("occurrence", .str f.occurrence)]

def Table.toJson {α : Type} (write : α → Json) (t : Table α) : Json :=
  .obj (t.entries.map fun e => (e.1, write e.2))

def Model.toJson (m : Model) : Json :=
  .obj ((m.version.map fun v => ("version", Json.str v)).toList
    ++ [("dictionary", m.dictionary.toJson TypeEntry.toJson),
        ("ontology", m.ontology.toJson (Table.toJson FieldUse.toJson))])

end RecordCuration
