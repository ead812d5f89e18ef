import RecordCuration.Annotation

/-!
Document stores: documents by id, each of one type.

A document names its own type, and may name its own id; one that does not gets the next id of its
type.
-/

namespace RecordCuration

inductive StoreFault where
  | unreachable (reason : String)
  | typeMismatch (expected found : String)
  | duplicate (id : String)
  deriving DecidableEq, Repr

def StoreFault.message : StoreFault → String
  | .unreachable reason => "Store unreachable: " ++ reason
  | .typeMismatch expected found =>
    "Document type '" ++ found ++ "' does not match '" ++ expected ++ "'"
  | .duplicate id => "Duplicate document id: " ++ id

/-- A store of any make. -/
class DocumentStore (σ : Type) where
  /-- Puts in a document as one of a type and gives its id; the store may change even when it
  refuses. -/
  insert : σ → Json → String → σ × Except StoreFault String

structure StoredDocument where
  id : String
  type : String
  document : Json

/-- A store in memory: documents in the order of their coming, the ids in use, and how many ids
were handed out for each type. -/
structure Store where
  documents : List StoredDocument
  ids : List String
  counters : List (String × Nat)

namespace Store

def empty : Store := ⟨[], [], []⟩

def get? (s : Store) (id : String) : Option StoredDocument := s.documents.find? (·.id == id)

def ofType (s : Store) (type : String) : List StoredDocument :=
  s.documents.filter (·.type == type)

def counter (s : Store) (type : String) : Nat := (s.counters.lookup type).getD 0

/-- The type that a document names, or what stands in its place. -/
def namedType (doc : Json) : String :=
  match doc.member? typeKey with
  | some (.str type) => type
  | some _ => "<non-string>"
  | none => "<none>"

/-- The id that a document names. -/
def namedId? (doc : Json) : Option String := doc.member? "@id" >>= Json.string?

/-- Hands out the next id of a type. -/
def nextId (s : Store) (type : String) : Store × String :=
  let n := s.counter type + 1
  ({ s with counters := (type, n) :: s.counters.filter (·.1 ≠ type) },
    type ++ "/" ++ toString n)

/-- Puts in a document under an id that must be new. -/
def insertAs (s : Store) (doc : Json) (type id : String) : Store × Except StoreFault String :=
  if s.ids.contains id then (s, .error (.duplicate id))
  else
    ({ s with documents := s.documents ++ [⟨id, type, doc⟩], ids := id :: s.ids }, .ok id)

/-- Puts in a document that names `type` as its type. An id handed out for a document that is then
refused is not handed out again. -/
def insert (s : Store) (doc : Json) (type : String) : Store × Except StoreFault String :=
  if namedType doc ≠ type then (s, .error (.typeMismatch type (namedType doc)))
  else
    match namedId? doc with
    | some id => s.insertAs doc type id
    | none =>
      let (s, id) := s.nextId type
      s.insertAs doc type id

instance : DocumentStore Store := ⟨insert⟩

end Store

end RecordCuration
