import RecordCuration.Draft7.Check
import RecordCuration.Draft7.Reference

/-!
The schema of schemas of draft 7, and the libraries of schemas that references name.

A schema is first checked against the schema of schemas. Then its references are followed from
where they stand, depth first, each once. What they lead to may never have been checked, so that a
part of it can be no schema; the first such part, and the first reference that leads nowhere, is a
fault.
-/

namespace RecordCuration.Draft7

inductive SchemaFault where
  | invalid (fault : Fault)
  | misfit (cause : Misfit)
  | reference (fault : ReferenceFault)

def SchemaFault.message : SchemaFault → String
  | .invalid fault => fault.message
  | .misfit cause => cause.message
  | .reference fault => fault.message

namespace Library

/-- Meets needs in order: adds the schemas that references name, and meets the needs of those. At
most `room` are added one inside the other. -/
def collect (formats : Bool) (root : Json) :
    (room : Nat) → List Schema.Need → Library → Except SchemaFault Library
  | 0, _, lib => .ok lib
  | _ + 1, [], lib => .ok lib
  | room + 1, needs, lib =>
    needs.foldlM (fun lib need =>
      match need with
      | .never cause => .error (.misfit cause)
      | .target target =>
        if (lib.lookup target).isSome then .ok lib
        else do
          let s ← (Reference.schemaAt root target).mapError .reference
          collect formats root room (s.needs formats) (lib ++ [(target, s)])) lib

/-- The schemas that a schema's references name. Each reference is one of the texts in it. -/
def ofSchema (formats : Bool) (root : Json) (s : Schema) : Except SchemaFault Library :=
  collect formats root (root.size + 1) (s.needs formats) []

end Library

/-! ### The schema of schemas -/

namespace MetaSchema

def typed (name : String) : Json := .obj [("type", .str name)]

def ref (target : String) : Json := .obj [("$ref", .str target)]

def formatted (name : String) : Json := .obj [("type", .str "string"), ("format", .str name)]

def positive : Json := ref "#/definitions/nonNegativeInteger"

def positiveOrZero : Json := ref "#/definitions/nonNegativeIntegerDefault0"

def schemaMap : Json := .obj [("type", .str "object"), ("additionalProperties", ref "#")]

def simpleTypes : List String :=
  ["array", "boolean", "integer", "null", "number", "object", "string"]

def definitions : List (String × Json) :=
  [("schemaArray",
     .obj [("type", .str "array"), ("minItems", .int 1), ("items", ref "#")]),
   ("nonNegativeInteger", .obj [("type", .str "integer"), ("minimum", .int 0)]),
   ("nonNegativeIntegerDefault0",
     .obj [("allOf", .arr [ref "#/definitions/nonNegativeInteger",
       .obj [("default", .int 0)]])]),
   ("simpleTypes", .obj [("enum", Json.strings simpleTypes)]),
   ("stringArray",
     .obj [("type", .str "array"), ("items", typed "string"), ("uniqueItems", .bool true)])]

def properties : List (String × Json) :=
  [("$id", formatted "uri-reference"),
   ("$schema", formatted "uri"),
   ("$ref", formatted "uri-reference"),
   ("$comment", typed "string"),
   ("title", typed "string"),
   ("description", typed "string"),
   ("default", .bool true),
   ("readOnly", typed "boolean"),
   ("writeOnly", typed "boolean"),
   ("examples", .obj [("type", .str "array"), ("items", .bool true)]),
   ("multipleOf", .obj [("type", .str "number"), ("exclusiveMinimum", .int 0)]),
   ("maximum", typed "number"),
   ("exclusiveMaximum", typed "number"),
   ("minimum", typed "number"),
   ("exclusiveMinimum", typed "number"),
   ("maxLength", positive),
   ("minLength", positiveOrZero),
   ("pattern", typed "string"),
   ("additionalItems", ref "#"),
   ("items", .obj [("anyOf", .arr [ref "#", ref "#/definitions/schemaArray"])]),
   ("maxItems", positive),
   ("minItems", positiveOrZero),
   ("uniqueItems", typed "boolean"),
   ("contains", ref "#"),
   ("maxProperties", positive),
   ("minProperties", positiveOrZero),
   ("required", ref "#/definitions/stringArray"),
   ("additionalProperties", ref "#"),
   ("definitions", schemaMap),
   ("properties", schemaMap),
   ("patternProperties", schemaMap),
   ("dependencies",
     .obj [("type", .str "object"),
       ("additionalProperties",
         .obj [("anyOf", .arr [ref "#", ref "#/definitions/stringArray"])])]),
   ("propertyNames", ref "#"),
   ("const", .bool true),
   ("enum", .obj [("type", .str "array"), ("items", .bool true)]),
   ("type",
     .obj [("anyOf", .arr [ref "#/definitions/simpleTypes",
       .obj [("type", .str "array"), ("items", ref "#/definitions/simpleTypes"),
         ("minItems", .int 1), ("uniqueItems", .bool true)]])]),
   ("format", typed "string"),
   ("contentMediaType", typed "string"),
   ("contentEncoding", typed "string"),
   ("if", ref "#"),
   ("then", ref "#"),
   ("else", ref "#"),
   ("allOf", ref "#/definitions/schemaArray"),
   ("anyOf", ref "#/definitions/schemaArray"),
   ("oneOf", ref "#/definitions/schemaArray"),
   ("not", ref "#")]

def source : Json :=
  .obj [("definitions", .obj definitions), ("type", Json.strings ["object", "boolean"]),
    ("properties", .obj properties)]

def schema : Schema := Schema.ofJson "unknown" source

def library : Library :=
  match Library.ofSchema true source schema with
  | .ok lib => lib
  | .error _ => []

/-- What makes a JSON value no schema. -/
def faults (v : Json) : List Fault := library.faults true schema v

end MetaSchema

end RecordCuration.Draft7
