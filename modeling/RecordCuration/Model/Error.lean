import RecordCuration.File.View
import RecordCuration.Model.Version
import RecordCuration.Text.Quoted

/-!
What can be wrong with a model, its text or its file.
-/

namespace RecordCuration

/-- Why a well-formed text is no model. -/
inductive ShapeFault where
  | malformed
  | invalidType (found expected : String)
  | missingField (name : String)
  | duplicateField (name : String)
  | duplicateKey (key : String)
  | invalidLength (length : Nat) (expected : String)
  | trailing
  deriving DecidableEq, Repr

/-- What is wrong, in words; a malformed text has none. -/
def ShapeFault.detail? : ShapeFault → Option String
  | .malformed => none
  | .invalidType found expected => some ("invalid type: " ++ found ++ ", expected " ++ expected)
  | .missingField name => some ("missing field `" ++ name ++ "`")
  | .duplicateField name => some ("duplicate field `" ++ name ++ "`")
  | .duplicateKey key => some ("duplicate key '" ++ key ++ "'")
  | .invalidLength length expected =>
    some ("invalid length " ++ toString length ++ ", expected " ++ expected)
  | .trailing => some "trailing characters"

inductive FormatFault where
  | json (fault : ShapeFault)
  | yaml
  | version (fault : VersionFault)
  | repeatedElement (container element : String)
  deriving DecidableEq, Repr

def FormatFault.message : FormatFault → String
  | .json fault =>
    match fault.detail? with
    | none => "JSON parse error"
    | some detail => "JSON parse error: " ++ detail
  | .yaml => "YAML parse error"
  | .version fault => fault.message
  | .repeatedElement container element =>
    "container '" ++ container ++ "' lists subElement '" ++ element ++ "' more than once"

/-- What was looked for in some directories and is in none of them. -/
inductive MissingModel where
  | version (name : String) (paths : List String)
  | any (paths : List String)
  deriving DecidableEq, Repr

def MissingModel.message : MissingModel → String
  | .version name paths =>
    "SPASE model " ++ name ++ " not found in search paths: " ++ Text.quotedList paths
  | .any paths =>
    "no spase-<version> model files in search paths: " ++ Text.quotedList paths

inductive ModelError where
  | notFound (what : MissingModel)
  | invalidFormat (fault : FormatFault)
  | unknownMarker (marker : String) (field : Option (String × String))
  | undefinedElement (container element : String)
  | unknownObject (container field object : String)
  | unresolvedReference (element target : String)
  | missingOccurrence (container field : String)
  | undeclaredField (container field : String)
  | notAContainer (name : String)
  | io (fault : FileFault)
  deriving DecidableEq, Repr

namespace ModelError

def message : ModelError → String
  | .notFound what => "Model not found: " ++ what.message
  | .invalidFormat fault => "Invalid model format: " ++ fault.message
  | .unknownMarker marker none => "Unknown cardinality marker '" ++ marker ++ "'"
  | .unknownMarker marker (some (container, field)) =>
    "Unknown cardinality marker '" ++ marker ++ "' on field '" ++ container ++ "." ++ field ++ "'"
  | .undefinedElement container element =>
    "Element '" ++ element ++ "' of container '" ++ container
      ++ "' is not defined in the dictionary"
  | .unknownObject container field object =>
    "Ontology field '" ++ container ++ "." ++ field ++ "' names object '" ++ object
      ++ "', which is not in the dictionary"
  | .unresolvedReference element target =>
    "Element '" ++ element ++ "' has type '" ++ target
      ++ "', which is neither a primitive nor a dictionary Container/Enumeration"
  | .missingOccurrence container field =>
    "Field '" ++ container ++ "." ++ field ++ "' has no occurrence in the ontology"
  | .undeclaredField container field =>
    "Ontology declares '" ++ container ++ "." ++ field ++ "', which is not a subElement of '"
      ++ container ++ "'"
  | .notAContainer name =>
    "Ontology container '" ++ name ++ "' is not a Container in the dictionary"
  | .io fault => "IO error: " ++ fault.message

/-- Says which field an unknown marker stands on. -/
def atField (container field : String) : ModelError → ModelError
  | .unknownMarker marker _ => .unknownMarker marker (some (container, field))
  | e => e

end ModelError

end RecordCuration
