import RecordCuration.Json.Printer
import RecordCuration.Path.Basic

/-!
Issues: one failed constraint at one place of a document.
-/

namespace RecordCuration

inductive IssueKind where
  | typeMismatch (expected actual : String)
  | missingRequired (property : String)
  | formatViolation (format : String)
  | additionalProperties (names : List String)
  | enumMismatch
  | other (keyword : String)
  deriving DecidableEq, Repr

/-- The schema keyword that the constraint belongs to. -/
def IssueKind.keyword : IssueKind → String
  | .typeMismatch _ _ => "type"
  | .missingRequired _ => "required"
  | .formatViolation _ => "format"
  | .additionalProperties _ => "additionalProperties"
  | .enumMismatch => "enum"
  | .other keyword => keyword

/-- `found` is the value that failed, as it was then; `expected` is what the constraint asks. -/
structure Issue where
  path : Path
  kind : IssueKind
  expected : Json
  found : Json
  message : String

namespace Issue

/-- The issue in a line; the whole document shows as a slash. -/
def shown (i : Issue) : String :=
  (if i.path.isEmpty then "/" else i.path.pointer) ++ ": " ++ i.message

/-- The path that a pointer to a place names; a text that is none stands for the whole
document. -/
def pathOf (pointer : String) : Path :=
  match Path.ofPointer pointer with
  | .ok p => p
  | .error _ => []

end Issue

end RecordCuration
