import RecordCuration.Model.Basic
import RecordCuration.Model.Error

/-!
Models made flat: the fields of every container with their types and cardinalities.

All cross references are checked. Types of dictionary entries come first, then the ontology
against the dictionary, then the fields of every container; the first fault in that order is the
error.
-/

namespace RecordCuration

structure Field where
  name : String
  target : Target
  cardinality : Cardinality
  isSubclass : Bool
  description : String
  deriving DecidableEq, Repr

structure Container where
  name : String
  definition : String
  fields : List Field
  deriving DecidableEq, Repr

structure Enumeration where
  name : String
  definition : String
  values : List String
  deriving DecidableEq, Repr

/-- The distinct strings of a list, each at its first place. -/
def firstSeen (names : List String) : List String :=
  names.foldl (fun seen n => if n ∈ seen then seen else seen ++ [n]) []

/-- The containers that a container's fields name. -/
def Container.subclassReferences (c : Container) : List String :=
  firstSeen ((c.fields.filter (·.isSubclass)).filterMap (·.target.reference?))

/-- A model with every field resolved. -/
structure Walk where
  containers : List Container
  enumerations : List Enumeration
  documentation : List (String × String)
  types : List (String × Target)
  deriving DecidableEq, Repr

namespace Walk

/-- The type of a dictionary entry: its own name, a scalar, or a container or enumeration. -/
def resolve (d : Dictionary) (name : String) (e : TypeEntry) : Except ModelError Target :=
  match e.tag with
  | .container => .ok (.reference name)
  | .enumeration => .ok (.reference name)
  | .named type =>
    match Scalar.ofPrimitive? type with
    | some s => .ok (.scalar s)
    | none =>
      match d.get? type with
      | some target =>
        if target.isContainer || target.isEnumeration then .ok (.reference type)
        else .error (.unresolvedReference name type)
      | none => .error (.unresolvedReference name type)

def resolveAll (d : Dictionary) : Except ModelError (List (String × Target)) :=
  d.entries.mapM fun entry => (resolve d entry.1 entry.2).map (entry.1, ·)

def checkField (d : Dictionary) (container : String) (e : TypeEntry) (name : String)
    (field : FieldUse) : Except ModelError Unit :=
  if !d.contains field.object then .error (.unknownObject container name field.object)
  else if name ∉ e.subElements then .error (.undeclaredField container name)
  else .ok ()

def checkContainer (d : Dictionary) (name : String) (fields : Table FieldUse) :
    Except ModelError Unit :=
  match d.get? name with
  | some e =>
    if e.isContainer then fields.entries.forM fun f => checkField d name e f.1 f.2
    else .error (.notAContainer name)
  | none => .error (.notAContainer name)

/-- Every ontology entry belongs to a container and names what the dictionary has. -/
def checkOntology (d : Dictionary) (o : Ontology) : Except ModelError Unit :=
  o.entries.forM fun c => checkContainer d c.1 c.2

def isContainerName (d : Dictionary) (t : Target) : Bool :=
  match t with
  | .reference name => (d.get? name).any TypeEntry.isContainer
  | .scalar _ => false

def cardinality (marker : String) : Except ModelError Cardinality :=
  match Cardinality.ofMarker? marker with
  | some c => .ok c
  | none => .error (.unknownMarker marker none)

def field (d : Dictionary) (types : List (String × Target)) (uses : Option (Table FieldUse))
    (container element : String) : Except ModelError Field :=
  match d.get? element, types.lookup element with
  | some e, some target =>
    match uses >>= (·.get? element) with
    | none => .error (.missingOccurrence container element)
    | some use => do
      let c ← (cardinality use.occurrence).mapError (·.atField container element)
      pure ⟨element, target, c, isContainerName d target, e.definition⟩
  | _, _ => .error (.undefinedElement container element)

/-- The fields of the elements left, after the elements `seen`. -/
def fields (d : Dictionary) (types : List (String × Target)) (uses : Option (Table FieldUse))
    (container : String) : List String → List String → Except ModelError (List Field)
  | _, [] => .ok []
  | seen, element :: rest =>
    if element ∈ seen then .error (.invalidFormat (.repeatedElement container element))
    else do
      let f ← field d types uses container element
      let fs ← fields d types uses container (element :: seen) rest
      pure (f :: fs)

def container (d : Dictionary) (o : Ontology) (types : List (String × Target)) (name : String)
    (e : TypeEntry) : Except ModelError Container :=
  (fields d types (o.get? name) name [] e.subElements).map (⟨name, e.definition, ·⟩)

/-- Walks a dictionary and an ontology. -/
def build (d : Dictionary) (o : Ontology) : Except ModelError Walk := do
  let types ← resolveAll d
  checkOntology d o
  let containers ← (d.entries.filter (·.2.isContainer)).mapM fun e =>
    container d o types e.1 e.2
  let enumerations := (d.entries.filter (·.2.isEnumeration)).map fun e =>
    ⟨e.1, e.2.definition, e.2.allowedValues⟩
  let documentation := d.entries.map fun e => (e.1, e.2.definition)
  pure ⟨containers, enumerations, documentation, types⟩

end Walk

end RecordCuration
