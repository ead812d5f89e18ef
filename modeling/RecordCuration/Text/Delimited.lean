/-!
Delimited tables: a record is a line, its cells stand between delimiters.

A cell that could be misread stands in quotes, with every quote in it written twice.
-/

namespace RecordCuration.Text.Delimited

/-- Whether a cell holds what would end it. -/
def needsQuotes (delimiter : Char) (cell : List Char) : Bool :=
  cell.any fun c => c = delimiter || c = '"' || c = '\n' || c = '\r'

def doubleQuotes (cell : List Char) : List Char :=
  cell.flatMap fun c => if c = '"' then ['"', '"'] else [c]

def cell (delimiter : Char) (text : List Char) : List Char :=
  if needsQuotes delimiter text then '"' :: doubleQuotes text ++ ['"'] else text

def record (delimiter : Char) (cells : List (List Char)) : List Char :=
  [delimiter].intercalate (cells.map (cell delimiter)) ++ ['\n']

def table (delimiter : Char) (records : List (List (List Char))) : List Char :=
  records.flatMap (record delimiter)

end RecordCuration.Text.Delimited
