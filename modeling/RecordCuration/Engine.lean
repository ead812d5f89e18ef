import RecordCuration.Draft7.MetaSchema
import RecordCuration.Validator

/-!
Validation engines: a schema made ready, with the settings of its use.
-/

namespace RecordCuration

open Draft7

/-- Whether formats are asserted, and how many issues are kept; a limit of zero is none. -/
structure ValidationConfig where
  formats : Bool
  maxErrors : Nat
  deriving DecidableEq, Repr

def ValidationConfig.standard : ValidationConfig := ⟨true, 0⟩

structure Engine where
  schema : Schema
  library : Library
  config : ValidationConfig

namespace Engine

/-- Makes a schema ready. -/
def compile (source : Json) (config : ValidationConfig) : Except SchemaFault Engine :=
  match MetaSchema.faults source with
  | fault :: _ => .error (.invalid fault)
  | [] =>
    let schema := Schema.ofJson "unknown" source
    (Library.ofSchema config.formats source schema).map fun library => ⟨schema, library, config⟩

def faults (e : Engine) (doc : Json) : List Fault :=
  e.library.faults e.config.formats e.schema doc

/-- Every issue of a document. -/
def issues (e : Engine) (doc : Json) : List Issue := (e.faults doc).map Fault.toIssue

def validator (e : Engine) : Validator := ⟨e.issues, e.config.maxErrors⟩

instance : Coe Engine Validator := ⟨validator⟩

/-- The issues of a document up to the limit. -/
def validate (e : Engine) (doc : Json) : List Issue := e.validator.validate doc

@[simp] theorem validator_validate (e : Engine) (doc : Json) :
    e.validator.validate doc = e.validate doc := rfl

@[simp] theorem validator_issues (e : Engine) (doc : Json) :
    e.validator.issues doc = e.issues doc := rfl

theorem validate_of_unlimited {e : Engine} (h : e.config.maxErrors = 0) (doc : Json) :
    e.validate doc = e.issues doc := if_pos h

def isValid (e : Engine) (doc : Json) : Bool := (e.faults doc).isEmpty

end Engine

/-- The text of a schema that cannot be used. -/
def schemaErrorMessage (fault : SchemaFault) : String := "Schema error: " ++ fault.message

end RecordCuration
