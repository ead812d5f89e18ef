import RecordCuration.Model.Error

/-!
What can be wrong with a graph schema, with a class frame, or in asking for one.
-/

namespace RecordCuration

/-- Why a document is no part of a graph schema, or no frame. -/
inductive FrameFault where
  | notAnArray
  | unsupportedDocument (type : String)
  | missingId
  | notAValueList
  | valueNotAString (text : String)
  | unknownWrapper (owner field wrapper : String)
  | missingClass (owner field : String)
  | notATypeOrWrapper (owner field : String)
  | unrecognisedType (owner field : String)
  | unknownType (owner field type : String)
  | notAnObject (owner : String)
  deriving DecidableEq, Repr

namespace FrameFault

def fieldName (owner field : String) : String := "field '" ++ owner ++ "." ++ field ++ "'"

def message : FrameFault → String
  | .notAnArray => "graph schema must be a JSON array"
  | .unsupportedDocument type => "unsupported schema document type '" ++ type ++ "'"
  | .missingId => "schema document without @id"
  | .notAValueList => "expected an array of values"
  | .valueNotAString text => "enum value " ++ text ++ " is not a string"
  | .unknownWrapper owner field wrapper =>
    fieldName owner field ++ " has unknown wrapper '" ++ wrapper ++ "'"
  | .missingClass owner field => fieldName owner field ++ " has no @class"
  | .notATypeOrWrapper owner field =>
    fieldName owner field ++ " is neither a type name nor a wrapper"
  | .unrecognisedType owner field => fieldName owner field ++ " has an unrecognised type"
  | .unknownType owner field type =>
    fieldName owner field ++ " references unknown type '" ++ type ++ "'"
  | .notAnObject owner => "frame for '" ++ owner ++ "' is not an object"

end FrameFault

inductive GraphError where
  | notFound (name : String)
  | duplicateId (id : String)
  | invalidFrame (fault : FrameFault)
  | model (e : ModelError)
  deriving DecidableEq, Repr

def GraphError.message : GraphError → String
  | .notFound name => "Class not found: " ++ name
  | .duplicateId id => "Duplicate schema id: " ++ id
  | .invalidFrame fault => "Invalid frame: " ++ fault.message
  | .model e => "Model error: " ++ e.message

end RecordCuration
