import RecordCuration.Json.Basic
import RecordCuration.Json.Members

/-!
Records and the envelope they are published in.

An envelope is an object whose `Spase` member is an object with a `version` and one member per
resource. A document without one is the body of a resource itself.
-/

namespace RecordCuration

/-- The body of one resource, and where it came from. -/
structure Record where
  body : Json
  resourceType : Option String
  source : Option String
  version : Option String

inductive EnvelopeError where
  | notAnObject
  | noResourceType
  | noResource
  | severalResources (names : List String)
  | missingResource (name : String)
  deriving DecidableEq, Repr

def EnvelopeError.reason : EnvelopeError → String
  | .notAnObject => "record is not a JSON object"
  | .noResourceType => "record has no Spase envelope and no resource type was given"
  | .noResource => "envelope holds no resource"
  | .severalResources names =>
    "envelope holds several resources (" ++ ", ".intercalate names ++ "); name one"
  | .missingResource name => "envelope has no '" ++ name ++ "' resource"

def EnvelopeError.message (e : EnvelopeError) : String := "Envelope error: " ++ e.reason

namespace Record

def withResourceType (r : Record) (name : String) : Record := { r with resourceType := some name }

def withSource (r : Record) (source : String) : Record := { r with source := some source }

/-- Whether a member of an envelope can be its resource. -/
def isResource (m : String × Json) : Bool := !m.1.startsWith "@" && m.2.members?.isSome

/-- The one resource of an envelope. -/
def onlyResource (envelope : List (String × Json)) : Except EnvelopeError String :=
  match envelope.filter isResource with
  | [] => .error .noResource
  | [(name, _)] => .ok name
  | many => .error (.severalResources (many.map Prod.fst))

/-- The resource in an envelope, by name or the only one. -/
def ofEnvelope (envelope : List (String × Json)) (resourceType : Option String) :
    Except EnvelopeError Record := do
  let version := envelope.lookup "version" >>= Json.string?
  let resources := Members.remove "version" envelope
  let name ← match resourceType with
    | some name => pure name
    | none => onlyResource resources
  match resources.lookup name with
  | none => .error (.missingResource name)
  | some body => .ok ⟨body, some name, none, version⟩

/-- Takes a record out of its envelope, or a document as a bare body. A `Spase` member that is no
object is dropped. -/
def read (v : Json) (resourceType : Option String) : Except EnvelopeError Record :=
  match v with
  | .obj outer =>
    match outer.lookup "Spase" with
    | some (.obj envelope) => ofEnvelope envelope resourceType
    | _ =>
      match resourceType with
      | none => .error .noResourceType
      | some name => .ok ⟨.obj (Members.remove "Spase" outer), some name, none, none⟩
  | _ => .error .notAnObject

end Record

end RecordCuration
