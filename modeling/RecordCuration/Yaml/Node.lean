/-!
YAML documents of plain data: scalars, sequences and mappings.

A scalar keeps its text and whether it was written plain; what a plain text means is for its reader
to say.
-/

namespace RecordCuration.Yaml

inductive Node where
  | scalar (text : String) (plain : Bool)
  | sequence (items : List Node)
  | mapping (members : List (Node × Node))
  deriving Repr

namespace Node

/-- The node where nothing is written. -/
def empty : Node := .scalar "" true

/-- Whether a node stands for no value. -/
def isNull : Node → Bool
  | .scalar text true => text ∈ ["", "~", "null", "Null", "NULL"]
  | _ => false

def text? : Node → Option String
  | .scalar text _ => some text
  | _ => none

/-- The items of a sequence; the empty node has none. -/
def items? : Node → Option (List Node)
  | .sequence items => some items
  | .scalar "" true => some []
  | _ => none

/-- The members of a mapping whose keys are texts; the empty node has none. -/
def members? : Node → Option (List (String × Node))
  | .mapping members => members.mapM fun m => m.1.text?.map (·, m.2)
  | .scalar "" true => some []
  | _ => none

end Node

end RecordCuration.Yaml
