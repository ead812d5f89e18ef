import RecordCuration.Draft7.SchemaReader

/-!
Where references lead: `#` is the whole schema, `#/...` is a pointer into it. A schema has no other
names for its parts, and other schemas are not at hand.

The pointer is percent-decoded and split at slashes. In each token a tilde and the character after
it are read as one: `~1` is a slash and `~0` a tilde, any other pair stays.
-/

namespace RecordCuration.Draft7

inductive ReferenceFault where
  | pointerToNowhere (pointer : String)
  | badIndex (pointer index : String)
  | badEncoding (pointer : String)
  | noAnchor (name : String)
  | badAnchor (name : String)
  | elsewhere (target : String)

def ReferenceFault.message : ReferenceFault → String
  | .pointerToNowhere pointer => "Pointer '" ++ pointer ++ "' does not exist"
  | .badIndex pointer index =>
    "Failed to parse array index '" ++ index ++ "' in pointer '" ++ pointer ++ "'"
  | .badEncoding pointer =>
    "Invalid percent encoding in pointer '" ++ pointer
      ++ "': the decoded bytes do not represent valid UTF-8"
  | .noAnchor name => "Anchor '" ++ name ++ "' does not exist"
  | .badAnchor name => "Anchor '" ++ name ++ "' is invalid"
  | .elsewhere target => "Resource '" ++ target ++ "' is not present in a registry"

namespace Reference

/-- The bytes of a text after decoding; a `%` without two hexadecimal digits stands for itself. -/
def decodeBytes : List Char → List UInt8
  | [] => []
  | '%' :: a :: b :: cs =>
    match Text.hexDigit? a, Text.hexDigit? b with
    | some x, some y => (16 * x + y).toUInt8 :: decodeBytes cs
    | _, _ => '%'.toNat.toUInt8 :: decodeBytes (a :: b :: cs)
  | c :: cs => (String.singleton c).toUTF8.toList ++ decodeBytes cs

def percentDecode? (cs : List Char) : Option (List Char) :=
  (String.fromUTF8? ⟨(decodeBytes cs).toArray⟩).map String.toList

/-- Reads a token back from left to right; what was read is not read again, so that the second
tilde of a pair escapes nothing. -/
def unescape : List Char → List Char
  | [] => []
  | [c] => [c]
  | '~' :: '0' :: cs => '~' :: unescape cs
  | '~' :: '1' :: cs => '/' :: unescape cs
  | '~' :: c :: cs => '~' :: c :: unescape cs
  | c :: d :: cs => c :: unescape (d :: cs)

/-- One token further. -/
def step (pointer : String) (v : Json) (token : List Char) : Except ReferenceFault Json :=
  match v with
  | .arr vs =>
    match Text.count? indexBound token with
    | none => .error (.badIndex pointer (String.ofList token))
    | some i =>
      match vs[i]? with
      | some w => .ok w
      | none => .error (.pointerToNowhere pointer)
  | v =>
    match v.member? (String.ofList (unescape token)) with
    | some w => .ok w
    | none => .error (.pointerToNowhere pointer)

/-- The part of a schema that a reference names. -/
def resolve (root : Json) (target : String) : Except ReferenceFault Json :=
  match target.toList with
  | [] => .ok root
  | ['#'] => .ok root
  | '#' :: '/' :: cs =>
    let pointer := String.ofList ('/' :: cs)
    match percentDecode? cs with
    | none => .error (.badEncoding pointer)
    | some cs => (Text.split '/' cs).foldlM (step pointer) root
  | '#' :: cs =>
    .error (if '/' ∈ cs then .badAnchor (String.ofList cs) else .noAnchor (String.ofList cs))
  | _ => .error (.elsewhere target)

/-- The part as a schema. -/
def schemaAt (root : Json) (target : String) : Except ReferenceFault Schema :=
  (resolve root target).map (Schema.ofJson "$ref")

end Reference

end RecordCuration.Draft7
