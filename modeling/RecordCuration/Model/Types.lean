/-!
What a dictionary's type names and an ontology's occurrence markers mean.
-/

namespace RecordCuration

/-- The scalar types of a field. -/
inductive Scalar where
  | string
  | timestamp
  | float
  | duration
  | integer
  deriving DecidableEq, Repr

namespace Scalar

/-- The datatype name of a scalar in a graph schema. -/
def xsdName : Scalar → String
  | .string => "xsd:string"
  | .timestamp => "xsd:dateTime"
  | .float => "xsd:float"
  | .duration => "xsd:duration"
  | .integer => "xsd:integer"

def all : List Scalar := [.string, .timestamp, .float, .duration, .integer]

def ofXsd? (name : String) : Option Scalar := all.find? (·.xsdName = name)

/-- The scalar of a primitive type name. -/
def ofPrimitive? (name : String) : Option Scalar :=
  match name with
  | "Text" | "URL" | "ID" | "Item" | "Sequence" => some .string
  | "DateTime" => some .timestamp
  | "Numeric" => some .float
  | "Duration" => some .duration
  | "Count" => some .integer
  | _ => none

end Scalar

/-- The type of a field: a scalar, or a container or enumeration by name. -/
inductive Target where
  | scalar (s : Scalar)
  | reference (name : String)
  deriving DecidableEq, Repr

namespace Target

def graphName : Target → String
  | .scalar s => s.xsdName
  | .reference name => name

def reference? : Target → Option String
  | .scalar _ => none
  | .reference name => some name

/-- A name that is no primitive stands for itself. -/
def ofTypeName (name : String) : Target :=
  match Scalar.ofPrimitive? name with
  | some s => .scalar s
  | none => .reference name

/-- A name that is no datatype stands for itself. -/
def ofGraphName (name : String) : Target :=
  match Scalar.ofXsd? name with
  | some s => .scalar s
  | none => .reference name

end Target

/-- How often a field appears: once, at most once, at least once in order, or any number of
times without order. -/
inductive Cardinality where
  | required
  | optional
  | list
  | set
  deriving DecidableEq, Repr

namespace Cardinality

def ofMarker? (marker : String) : Option Cardinality :=
  match marker with
  | "0" | "r" => some .optional
  | "1" => some .required
  | "*" => some .set
  | "+" => some .list
  | _ => none

/-- The wrapper around a type in a graph schema; a required field has none. -/
def wrapper? : Cardinality → Option String
  | .required => none
  | .optional => some "Optional"
  | .list => some "List"
  | .set => some "Set"

def ofWrapper? (name : String) : Option Cardinality :=
  match name with
  | "Optional" => some .optional
  | "List" => some .list
  | "Set" => some .set
  | _ => none

def isArray : Cardinality → Bool
  | .list => true
  | .set => true
  | _ => false

def isRequired : Cardinality → Bool
  | .required => true
  | .list => true
  | _ => false

end Cardinality

end RecordCuration
