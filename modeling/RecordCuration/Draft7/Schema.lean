import RecordCuration.Format.DateTime
import RecordCuration.Format.Duration
import RecordCuration.Format.Uri
import RecordCuration.Json.Basic
import RecordCuration.Path.Basic

/-!
Schemas of draft 7 as conjunctions of checks, and what they need before they can be used.
-/

namespace RecordCuration.Draft7

/-- The type names of a schema, in alphabetical order. -/
inductive TypeName where
  | array
  | boolean
  | integer
  | null
  | number
  | object
  | string
  deriving DecidableEq, Repr

namespace TypeName

def all : List TypeName := [.array, .boolean, .integer, .null, .number, .object, .string]

def name : TypeName → String
  | .array => "array"
  | .boolean => "boolean"
  | .integer => "integer"
  | .null => "null"
  | .number => "number"
  | .object => "object"
  | .string => "string"

def ofName? (s : String) : Option TypeName := all.find? (·.name = s)

/-- A double without a fraction is an integer too. -/
def admits : TypeName → Json → Bool
  | .array, .arr _ => true
  | .boolean, .bool _ => true
  | .integer, .int _ => true
  | .integer, .real x => x.isWhole
  | .null, .null => true
  | .number, .int _ => true
  | .number, .real _ => true
  | .object, .obj _ => true
  | .string, .str _ => true
  | _, _ => false

end TypeName

inductive FormatName where
  | dateTime
  | date
  | time
  | duration
  | uri
  | uriReference
  deriving DecidableEq, Repr

namespace FormatName

def all : List FormatName := [.dateTime, .date, .time, .duration, .uri, .uriReference]

def name : FormatName → String
  | .dateTime => "date-time"
  | .date => "date"
  | .time => "time"
  | .duration => "duration"
  | .uri => "uri"
  | .uriReference => "uri-reference"

def ofName? (s : String) : Option FormatName := all.find? (·.name = s)

def admits : FormatName → String → Bool
  | .dateTime, s => Format.isDateTime s
  | .date, s => Format.isDate s.toList
  | .time, s => Format.isTime s.toList
  | .duration, s => Format.isDuration s
  | .uri, s => Format.isUri s
  | .uriReference, s => Format.isUriReference s

end FormatName

/-- What a size limit counts. -/
inductive Measure where
  | length
  | items
  | properties
  deriving DecidableEq, Repr

/-- How a number lies to a bound. -/
inductive Bound where
  | minimum
  | maximum
  | exclusiveMinimum
  | exclusiveMaximum
  deriving DecidableEq, Repr

/-- Why a value cannot stand where it does in a schema. -/
inductive Misfit where
  /-- The value is of none of the types. -/
  | notOfType (names : List TypeName) (found : Json)
  /-- One of several type names is not known. -/
  | notATypeName (found : Json)
  /-- The only type name is not known. -/
  | unknownType
  /-- A format is not named by a text, which matters where formats count. -/
  | formatName (found : Json)
  /-- A keyword of draft 7 that is not checked here. -/
  | keyword (name : String)
  /-- A format of draft 7 that is not checked here, which matters where formats count. -/
  | format (name : String)

inductive Schema where
  /-- Every check holds. -/
  | all (checks : List Schema)
  /-- Nothing is accepted; `place` is the keyword it stands under. -/
  | never (place : String)
  | reference (target : String)
  /-- A part that is no schema; nothing around it can be used. -/
  | misfit (cause : Misfit)
  /-- Names are in alphabetical order, and as often as they are written. -/
  | type (names : List TypeName)
  | required (names : List String)
  | properties (listed : List (String × Schema))
  /-- The listed members and no others. -/
  | closed (listed : List (String × Schema))
  /-- The listed members, and others that meet a schema. -/
  | others (listed : List (String × Schema)) (rest : Schema)
  | noMembers
  | items (each : Schema)
  | itemsInTurn (each : List Schema)
  | enum (options : List Json)
  | const (value : Json)
  | format (name : FormatName)
  | atLeast (measure : Measure) (n : Nat)
  | atMost (measure : Measure) (n : Nat)
  | bound (kind : Bound) (limit : Json)
  | unique
  | not (schema : Schema) (source : Json)
  | anyOf (branches : List Schema)
  | oneOf (branches : List Schema)

namespace Schema

/-! ### Needs -/

/-- What must hold before a schema can be used: a reference leads somewhere, or never. -/
inductive Need where
  | target (reference : String)
  | never (cause : Misfit)

mutual
/-- The needs of a schema, in order. -/
def needs (formats : Bool) : Schema → List Need
  | .reference target => [.target target]
  | .misfit (.formatName found) => if formats then [.never (.formatName found)] else []
  | .misfit (.format name) => if formats then [.never (.format name)] else []
  | .misfit cause => [.never cause]
  | .all ss => needsIn formats ss
  | .properties ps => needsUnder formats ps
  | .closed ps => needsUnder formats ps
  | .others ps rest => needsUnder formats ps ++ needs formats rest
  | .items s => needs formats s
  | .itemsInTurn ss => needsIn formats ss
  | .not s _ => needs formats s
  | .anyOf ss => needsIn formats ss
  | .oneOf ss => needsIn formats ss
  | _ => []
def needsIn (formats : Bool) : List Schema → List Need
  | [] => []
  | s :: ss => needs formats s ++ needsIn formats ss
def needsUnder (formats : Bool) : List (String × Schema) → List Need
  | [] => []
  | (_, s) :: ps => needs formats s ++ needsUnder formats ps
end

end Schema

end RecordCuration.Draft7
