import RecordCuration.Draft7.Schema
import RecordCuration.Issue

/-!
Faults: a place of a document, the value there, and the constraint that it fails.
-/

namespace RecordCuration.Draft7

inductive Violation where
  | wrongType (names : List TypeName)
  | missing (name : String)
  | wrongFormat (name : FormatName)
  | unexpected (names : List String)
  | notAmong (options : List Json)
  | notConst (value : Json)
  | tooFew (measure : Measure) (n : Nat)
  | tooMany (measure : Measure) (n : Nat)
  | outOfBound (kind : Bound) (limit : Json)
  | notUnique
  | excluded (schema : Json)
  | noneOf
  | noneOfOne
  | severalOf
  | never (place : String)

/-- The last place on the way to the value, the value, and what is wrong with it. -/
structure Fault where
  path : Path
  found : Json
  violation : Violation

/-! ### Words -/

def Measure.unit : Measure → Nat → String
  | .length, n => if n = 1 then "character" else "characters"
  | .items, n => if n = 1 then "item" else "items"
  | .properties, n => if n = 1 then "property" else "properties"

def Measure.few : Measure → String
  | .length => "is shorter than"
  | _ => "has less than"

def Measure.many : Measure → String
  | .length => "is longer than"
  | _ => "has more than"

def Measure.minKeyword : Measure → String
  | .length => "minLength"
  | .items => "minItems"
  | .properties => "minProperties"

def Measure.maxKeyword : Measure → String
  | .length => "maxLength"
  | .items => "maxItems"
  | .properties => "maxProperties"

def Bound.keyword : Bound → String
  | .minimum => "minimum"
  | .maximum => "maximum"
  | .exclusiveMinimum => "exclusiveMinimum"
  | .exclusiveMaximum => "exclusiveMaximum"

def Bound.words : Bound → String
  | .minimum => "is less than the minimum of"
  | .maximum => "is greater than the maximum of"
  | .exclusiveMinimum => "is less than or equal to the minimum of"
  | .exclusiveMaximum => "is greater than or equal to the maximum of"

def inQuotes (s : String) : String := "\"" ++ s ++ "\""

namespace Violation

/-- One name alone, several as a list, in which a name that is written again does not count. -/
def typeWords (names : List TypeName) : String :=
  match names with
  | [t] => "is not of type " ++ inQuotes t.name
  | ts => "is not of types " ++ ", ".intercalate (ts.eraseDups.map fun t => inQuotes t.name)

def unexpectedWords (names : List String) : String :=
  "Additional properties are not allowed ("
    ++ ", ".intercalate (names.map fun n => "'" ++ n ++ "'")
    ++ (if names.length = 1 then " was unexpected)" else " were unexpected)")

/-- What is wrong with a value, in words. -/
def message (v : Violation) (found : Json) : String :=
  let subject := found.compact ++ " "
  match v with
  | .wrongType names => subject ++ typeWords names
  | .missing name => Json.quote name ++ " is a required property"
  | .wrongFormat name => subject ++ "is not a " ++ inQuotes name.name
  | .unexpected names => unexpectedWords names
  | .notAmong options => subject ++ "is not one of " ++ (Json.arr options).compact
  | .notConst value => value.compact ++ " was expected"
  | .tooFew m n => subject ++ m.few ++ " " ++ toString n ++ " " ++ m.unit n
  | .tooMany m n => subject ++ m.many ++ " " ++ toString n ++ " " ++ m.unit n
  | .outOfBound kind limit => subject ++ kind.words ++ " " ++ limit.compact
  | .notUnique => subject ++ "has non-unique elements"
  | .excluded schema => schema.compact ++ " is not allowed for " ++ found.compact
  | .noneOf =>
    subject ++ "is not valid under any of the schemas listed in the 'anyOf' keyword"
  | .noneOfOne =>
    subject ++ "is not valid under any of the schemas listed in the 'oneOf' keyword"
  | .severalOf =>
    subject ++ "is valid under more than one of the schemas listed in the 'oneOf' keyword"
  | .never _ => "False schema does not allow " ++ found.compact

def typeList (names : List TypeName) : String := ",".intercalate (names.eraseDups.map TypeName.name)

def kind (v : Violation) (found : Json) : IssueKind :=
  match v with
  | .wrongType names => .typeMismatch (typeList names) found.typeName
  | .missing name => .missingRequired name
  | .wrongFormat name => .formatViolation name.name
  | .unexpected names => .additionalProperties names
  | .notAmong _ => .enumMismatch
  | .notConst _ => .other "const"
  | .tooFew m _ => .other m.minKeyword
  | .tooMany m _ => .other m.maxKeyword
  | .outOfBound kind _ => .other kind.keyword
  | .notUnique => .other "uniqueItems"
  | .excluded _ => .other "not"
  | .noneOf => .other "anyOf"
  | .noneOfOne => .other "oneOf"
  | .severalOf => .other "oneOf"
  | .never place => .other place

def expected : Violation → Json
  | .wrongType names => .str (typeList names)
  | .missing name => .str name
  | .wrongFormat name => .str name.name
  | .unexpected _ => .bool false
  | .notAmong options => .arr options
  | _ => .null

end Violation

/-- What is wrong with a part of a schema, in words. -/
def Misfit.message : Misfit → String
  | .notOfType names found => (Violation.wrongType names).message found
  | .notATypeName found =>
    (Violation.notAmong (TypeName.all.map fun t => .str t.name)).message found
  | .unknownType => "Unexpected type"
  | .formatName found => (Violation.wrongType [.string]).message found
  | .keyword name => "Keyword '" ++ name ++ "' is not supported"
  | .format name => "Format '" ++ name ++ "' is not supported"

namespace Fault

def message (f : Fault) : String := f.violation.message f.found

def toIssue (f : Fault) : Issue :=
  ⟨Issue.pathOf f.path.pointer, f.violation.kind f.found, f.violation.expected, f.found,
    f.message⟩

end Fault

end RecordCuration.Draft7
