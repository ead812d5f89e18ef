import RecordCuration.Issue

/-!
Repair rules: what to write where, given an issue and the value it is about.

A rule proposes one fix or none. A catalogue lists rules by priority, and the first proposal
counts. The standard rules each mend one habit of hand-written records.
-/

namespace RecordCuration

/-- A value to write at a place. -/
structure Fix where
  path : Path
  value : Json

structure Rule where
  name : String
  /-- What to write for an issue, given the value that stands at its place now. -/
  propose : Issue → Json → Option Fix

namespace Rule

/-- A lone value where a list is wanted becomes a list of one. -/
def wrapInArray : Rule where
  name := "wrap-in-array"
  propose i current :=
    match i.kind with
    | .typeMismatch expected _ =>
      if expected = "array" ∧ current.items?.isNone then some ⟨i.path, .arr [current]⟩ else none
    | _ => none

/-- A time span without an end ends when it starts. -/
def stopDateFromStartDate : Rule where
  name := "stop-date-from-start-date"
  propose i current :=
    match i.kind, current with
    | .missingRequired property, .obj ms =>
      if property = "StopDate" ∧ (ms.lookup "StopDate").isNone then
        (ms.lookup "StartDate").map (⟨i.path ++ [.key "StopDate"], ·⟩)
      else none
    | _, _ => none

/-- A time without an offset is universal time. -/
def utcSuffix : Rule where
  name := "utc-suffix"
  propose i current :=
    match i.kind, current with
    | .formatViolation format, .str text =>
      if format = "date-time" ∧ text.toList.getLast? ≠ some 'Z' then
        some ⟨i.path, .str (text ++ "Z")⟩
      else none
    | _, _ => none

/-- A value as a string; what is no string is written out. -/
def asText : Json → String
  | .str s => s
  | v => v.compact

/-- A list where a string is wanted gives way to its first item. -/
def firstElementAsString : Rule where
  name := "first-element-as-string"
  propose i current :=
    match i.kind, current with
    | .typeMismatch expected _, .arr (first :: _) =>
      if expected = "string" then some ⟨i.path, .str (asText first)⟩ else none
    | _, _ => none

end Rule

/-- Rules by priority. -/
abbrev Catalogue := List Rule

namespace Catalogue

def standard : Catalogue :=
  [.wrapInArray, .stopDateFromStartDate, .utcSuffix, .firstElementAsString]

def names (c : Catalogue) : List String := c.map Rule.name

/-- The first proposal, with the name of its rule. -/
def propose (c : Catalogue) (i : Issue) (current : Json) : Option (String × Fix) :=
  c.findSome? fun rule => (rule.propose i current).map (rule.name, ·)

end Catalogue

end RecordCuration
