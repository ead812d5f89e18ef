import RecordCuration.Graph.Error
import RecordCuration.Model.Walk

/-!
Graph schemas: enumerations and classes that name each other, each id once.
-/

namespace RecordCuration

/-- Where the documents and the schema of a graph live. -/
structure GraphContext where
  base : String
  schema : String
  deriving DecidableEq, Repr

def GraphContext.standard : GraphContext :=
  ⟨"https://spase-group.org/data/", "http://www.spase-group.org/data/schema"⟩

structure ClassField where
  name : String
  target : Target
  cardinality : Cardinality
  deriving DecidableEq, Repr

/-- A class; `properties` documents its fields. -/
structure ClassEntry where
  id : String
  comment : String
  properties : List (String × String)
  fields : List ClassField
  deriving DecidableEq, Repr

def ClassEntry.field? (c : ClassEntry) (name : String) : Option ClassField :=
  c.fields.find? (·.name = name)

structure EnumEntry where
  id : String
  values : List String
  deriving DecidableEq, Repr

inductive GraphEntry where
  | enumEntry (e : EnumEntry)
  | classEntry (c : ClassEntry)
  deriving DecidableEq, Repr

namespace GraphEntry

def id : GraphEntry → String
  | .enumEntry e => e.id
  | .classEntry c => c.id

def enum? (id : String) : GraphEntry → Option EnumEntry
  | .enumEntry e => if e.id = id then some e else none
  | .classEntry _ => none

def class? (id : String) : GraphEntry → Option ClassEntry
  | .classEntry c => if c.id = id then some c else none
  | .enumEntry _ => none

end GraphEntry

/-- A graph schema; `ids` are the ids taken. -/
structure GraphSchema where
  context : GraphContext
  entries : List GraphEntry
  ids : List String
  deriving DecidableEq, Repr

namespace GraphSchema

def empty (context : GraphContext) : GraphSchema := ⟨context, [], []⟩

/-- Takes an id unless it is taken, and tells whether it was free. -/
def takeId (g : GraphSchema) (id : String) : GraphSchema × Bool :=
  if id ∈ g.ids then (g, false) else ({ g with ids := g.ids ++ [id] }, true)

/-- Adds an entry at the end; its id, which is taken first, must be free. The schema is given back
also when the entry is refused. -/
def add (g : GraphSchema) (entry : GraphEntry) : GraphSchema × Except GraphError Unit :=
  match g.takeId entry.id with
  | (g, true) => ({ g with entries := g.entries ++ [entry] }, .ok ())
  | (g, false) => (g, .error (.duplicateId entry.id))

/-- The schema with an entry more. -/
def push (g : GraphSchema) (entry : GraphEntry) : Except GraphError GraphSchema :=
  match g.add entry with
  | (g, .ok ()) => .ok g
  | (_, .error e) => .error e

def class? (g : GraphSchema) (id : String) : Option ClassEntry :=
  g.entries.findSome? (GraphEntry.class? id)

def enumeration? (g : GraphSchema) (id : String) : Option EnumEntry :=
  g.entries.findSome? (GraphEntry.enum? id)

def classField (f : Field) : ClassField := ⟨f.name, f.target, f.cardinality⟩

def ofContainer (c : Container) : GraphEntry :=
  .classEntry ⟨c.name, c.definition, c.fields.map fun f => (f.name, f.description),
    c.fields.map classField⟩

def ofEnumeration (e : Enumeration) : GraphEntry := .enumEntry ⟨e.name, e.values⟩

/-- Enumerations first, then classes. -/
def ofWalk (w : Walk) (context : GraphContext) : Except GraphError GraphSchema :=
  (w.enumerations.map ofEnumeration ++ w.containers.map ofContainer).foldlM push (empty context)

def ofModel (m : Model) (context : GraphContext) : Except GraphError GraphSchema := do
  let w ← (Walk.build m.dictionary m.ontology).mapError .model
  ofWalk w context

end GraphSchema

end RecordCuration
