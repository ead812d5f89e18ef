import RecordCuration.Graph.Basic
import RecordCuration.Json.Members
import RecordCuration.Json.Printer

/-!
Graph schemas as JSON documents: a context record, then one document per entry.

A field is written as its type's name, or as a wrapper around it. Members of a class document that
start with `@` are not fields.
-/

namespace RecordCuration

namespace Json

/-- The string that a member holds; empty when there is none. -/
def stringOr (name : String) (v : Json) : String := ((v.member? name) >>= string?).getD ""

end Json

namespace GraphSchema

def contextDocument (c : GraphContext) : Json :=
  .obj [("@type", .str "@context"), ("@base", .str c.base), ("@schema", .str c.schema)]

def fieldValue (f : ClassField) : Json :=
  let type := Json.str f.target.graphName
  match f.cardinality.wrapper? with
  | none => type
  | some wrapper => .obj [("@type", .str wrapper), ("@class", type)]

/-- The members of a class document before its fields. -/
def classHead (c : ClassEntry) : List (String × Json) :=
  [("@type", .str "Class"), ("@id", .str c.id),
   ("@documentation", .obj [("@comment", .str c.comment),
     ("@properties", .obj (Members.ofWrites (c.properties.map fun p => (p.1, .str p.2))))])]

/-- A field named like a member that is there replaces it in place. -/
def classDocument (c : ClassEntry) : Json :=
  .obj (c.fields.foldl (fun ms f => Members.insert f.name (fieldValue f) ms) (classHead c))

def entryDocument : GraphEntry → Json
  | .enumEntry e =>
    .obj [("@type", .str "Enum"), ("@id", .str e.id), ("@value", Json.strings e.values)]
  | .classEntry c => classDocument c

def toJson (g : GraphSchema) : Json :=
  .arr (contextDocument g.context :: g.entries.map entryDocument)

/-! ### Reading -/

def documentId (doc : Json) : Except GraphError String :=
  match doc.member? "@id" with
  | some (.str id) => .ok id
  | _ => .error (.invalidFrame .missingId)

def listedValue : Json → Except GraphError String
  | .str s => .ok s
  | v => .error (.invalidFrame (.valueNotAString v.compact))

def listedValues : Option Json → Except GraphError (List String)
  | some (.arr vs) => vs.mapM listedValue
  | _ => .error (.invalidFrame .notAValueList)

/-- The documented fields of a class or frame. -/
def documentedProperties (documentation : Json) : List (String × String) :=
  match documentation.member? "@properties" with
  | some (.obj ms) => ms.map fun m => (m.1, m.2.string?.getD "")
  | _ => []

/-- The members that are fields. -/
def fieldMembers (ms : List (String × Json)) : List (String × Json) :=
  ms.filter fun m => !m.1.startsWith "@"

/-- The cardinality that the wrapper around a field's type stands for. -/
def wrapperCardinality (owner field : String) (wrapped : Json) : Except GraphError Cardinality :=
  let wrapper := wrapped.stringOr "@type"
  match Cardinality.ofWrapper? wrapper with
  | some c => .ok c
  | none => .error (.invalidFrame (.unknownWrapper owner field wrapper))

def readField (owner : String) (m : String × Json) : Except GraphError ClassField :=
  match m.2 with
  | .str type => .ok ⟨m.1, .ofGraphName type, .required⟩
  | .obj ms => do
    let c ← wrapperCardinality owner m.1 (.obj ms)
    match ms.lookup "@class" with
    | some (.str type) => pure ⟨m.1, .ofGraphName type, c⟩
    | _ => throw (.invalidFrame (.missingClass owner m.1))
  | _ => .error (.invalidFrame (.notATypeOrWrapper owner m.1))

def readClass (doc : Json) : Except GraphError ClassEntry := do
  let id ← documentId doc
  let documentation := (doc.member? "@documentation").getD .null
  let fields ← (fieldMembers (doc.members?.getD [])).mapM (readField id)
  pure ⟨id, documentation.stringOr "@comment", documentedProperties documentation, fields⟩

def readContext (c : GraphContext) (doc : Json) : GraphContext :=
  ⟨((doc.member? "@base") >>= Json.string?).getD c.base,
   ((doc.member? "@schema") >>= Json.string?).getD c.schema⟩

def readDocument (g : GraphSchema) (doc : Json) : Except GraphError GraphSchema :=
  match doc.stringOr "@type" with
  | "@context" => .ok { g with context := readContext g.context doc }
  | "Enum" => do
    let id ← documentId doc
    let values ← listedValues (doc.member? "@value")
    g.push (.enumEntry ⟨id, values⟩)
  | "Class" => do g.push (.classEntry (← readClass doc))
  | type => .error (.invalidFrame (.unsupportedDocument type))

/-- Reads a list of documents; without a context record the standard one stands. -/
def ofJson : Json → Except GraphError GraphSchema
  | .arr docs => docs.foldlM readDocument (empty .standard)
  | _ => .error (.invalidFrame .notAnArray)

end GraphSchema

end RecordCuration
