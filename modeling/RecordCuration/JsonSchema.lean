import RecordCuration.Frame

/-!
JSON Schemas for classes.

The schema of a class lists the classes it reaches once each under `definitions` and refers to
them by name, so cycles stay finite. A pool records which classes are finished, which are being
built and which have been referred to.
-/

namespace RecordCuration.JsonSchema

/-- Asks for the frame of a class. -/
abbrev Resolver := String → Except GraphError Frame

structure Pool where
  definitions : List (String × Json)
  inProgress : List String
  referenced : List String
  /-- How many frames were given for definitions. -/
  resolved : Nat
  /-- The classes asked for, in order. -/
  asked : List String

namespace Pool

def empty : Pool := ⟨[], [], [], 0, []⟩

/-- Finished or being built. -/
def isKnown (p : Pool) (name : String) : Bool :=
  (p.definitions.lookup name).isSome || name ∈ p.inProgress

def ask (name : String) (p : Pool) : Pool := { p with asked := p.asked ++ [name] }

def start (name : String) (p : Pool) : Pool := { p with inProgress := name :: p.inProgress }

def stop (name : String) (p : Pool) : Pool :=
  { p with inProgress := p.inProgress.filter (· ≠ name) }

def count (p : Pool) : Pool := { p with resolved := p.resolved + 1 }

def define (name : String) (body : Json) (p : Pool) : Pool :=
  { p with definitions := Members.insert name body p.definitions }

def refer (name : String) (p : Pool) : Pool := { p with referenced := name :: p.referenced }

end Pool

/-- A step of building; the pool survives a failure. -/
abbrev Build := EStateM GraphError Pool

def resolve (resolver : Resolver) (name : String) : Build Frame := do
  modify (Pool.ask name)
  match resolver name with
  | .ok frame => pure frame
  | .error e => throw e

/-! ### Fragments -/

def scalarFragment : Scalar → Json
  | .string => .obj [("type", .str "string")]
  | .timestamp => .obj [("type", .str "string"), ("format", .str "date-time")]
  | .float => .obj [("type", .str "number")]
  | .duration => .obj [("type", .str "string"), ("format", .str "duration")]
  | .integer => .obj [("type", .str "integer")]

def enumFragment (values : List String) : Json :=
  .obj [("type", .str "string"), ("enum", Json.strings values)]

def referenceFragment (name : String) : Json :=
  .obj [("$ref", .str ("#/definitions/" ++ name))]

/-- A field that may repeat holds an array. -/
def repeated (c : Cardinality) (fragment : Json) : Json :=
  if c.isArray then .obj [("type", .str "array"), ("items", fragment)] else fragment

def typeFragment : FrameType → Json
  | .scalar s => scalarFragment s
  | .enumeration _ values => enumFragment values
  | .classRef name => referenceFragment name

def fieldFragment (f : FrameField) : Json := repeated f.cardinality (typeFragment f.type)

/-- The schema of a class that refers to other classes by name. -/
def shallow (frame : Frame) : List (String × Json) :=
  [("type", .str "object"),
   ("properties", .obj (Members.ofWrites (frame.fields.map fun f => (f.name, fieldFragment f)))),
   ("required", Json.strings ((frame.fields.filter (·.cardinality.isRequired)).map (·.name))),
   ("additionalProperties", .bool false)]

/-! ### Building -/

/-- Makes the definition that a field refers to and notes the reference. -/
def visitField (define : String → Build Unit) (f : FrameField) : Build Unit :=
  match f.type with
  | .classRef name => do
    define name
    modify (Pool.refer name)
  | _ => pure ()

def objectSchema (define : String → Build Unit) (frame : Frame) :
    Build (List (String × Json)) := do
  frame.fields.forM (visitField define)
  pure (shallow frame)

/-- Makes the definition of a class and of all it reaches. Definitions nest at most `budget`
deep, which is enough when it exceeds the number of classes. -/
def define (resolver : Resolver) : (budget : Nat) → String → Build Unit
  | 0, name => throw (.notFound name)
  | budget + 1, name => do
    if (← get).isKnown name then pure ()
    else
      modify (Pool.start name)
      let frame ← resolve resolver name
      modify Pool.count
      let body ← objectSchema (define resolver budget) frame
      modify (Pool.stop name)
      modify (Pool.define name (.obj body))

/-- The schema of a frame; a class that refers back to itself is among the definitions. -/
def ofFrame (resolver : Resolver) (budget : Nat) (frame : Frame) : Build Json := do
  modify (Pool.start frame.name)
  let body ← objectSchema (define resolver budget) frame
  modify (Pool.stop frame.name)
  if frame.name ∈ (← get).referenced then modify (Pool.define frame.name (.obj body))
  let definitions := (← get).definitions
  pure (.obj (("definitions", .obj definitions) :: body))

def ofClass (resolver : Resolver) (budget : Nat) (name : String) : Build Json := do
  let frame ← resolve resolver name
  ofFrame resolver budget frame

/-- What building came to, and the classes asked for. -/
def finish (build : Build Json) : Except GraphError Json × List String :=
  match build.run Pool.empty with
  | .ok v p => (.ok v, p.asked)
  | .error e p => (.error e, p.asked)

end RecordCuration.JsonSchema

namespace RecordCuration

/-- The JSON Schema of a class of a graph schema. -/
def GraphSchema.schemaForClass (g : GraphSchema) (name : String) : Except GraphError Json :=
  (JsonSchema.finish (JsonSchema.ofClass g.frame (g.entries.length + 1) name)).1

end RecordCuration
