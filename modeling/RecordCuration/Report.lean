import RecordCuration.Issue
import RecordCuration.Text.Delimited

/-!
Reports: the issues of one record, as text for a reader and as rows of an error table.
-/

namespace RecordCuration

/-- The issues of a record that was read from `source` as one of a class. -/
structure Report where
  className : String
  source : String
  issues : List Issue

namespace Report

def isValid (r : Report) : Bool := r.issues.isEmpty

/-- A line on the record, then a line for each issue. -/
def text (r : Report) : String :=
  let head := r.source ++ " (" ++ r.className ++ "): "
  match r.issues with
  | [] => head ++ "valid\n"
  | is => head ++ toString is.length ++ " issue(s)\n" ++
      String.join (is.map fun i => "  " ++ i.shown ++ "\n")

/-- The columns of the error table. -/
def columns : List String :=
  ["frame_type", "source", "message", "path", "instance", "validator", "validator_value"]

/-- A value in a cell: a string stands for itself, and null is an empty cell. -/
def cellText : Json → String
  | .str s => s
  | .null => ""
  | v => v.compact

/-- A row of the error table for each issue. -/
def rows (r : Report) : List (List String) :=
  r.issues.map fun i =>
    [r.className, r.source, i.message, i.path.pointer, cellText i.found, i.kind.keyword,
      cellText i.expected]

end Report

/-- The form of an error table. -/
structure ErrorTable where
  delimiter : Char
  header : Bool

namespace ErrorTable

def standard : ErrorTable := ⟨',', true⟩

def records (t : ErrorTable) (reports : List Report) : List (List String) :=
  (if t.header then [Report.columns] else []) ++ reports.flatMap Report.rows

/-- The table of the issues of some reports. -/
def write (t : ErrorTable) (reports : List Report) : String :=
  String.ofList (Text.Delimited.table t.delimiter
    ((t.records reports).map fun cells => cells.map String.toList))

end ErrorTable

end RecordCuration
