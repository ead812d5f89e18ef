import RecordCuration.Text.Digit
import RecordCuration.Text.Split

/-!
Paths into a document, and their text as JSON pointers.

A path is a list of steps, each an object key or an array position. In a pointer every step is a
token after a slash, with `~` written `~0` and `/` written `~1`. A token that is a canonical
numeral of 64 bits reads as a position; a key that looks like one still works as a position, and a
position as a key.
-/

namespace RecordCuration

inductive Segment where
  | key (k : String)
  | index (n : Nat)
  deriving DecidableEq, Repr

abbrev Path := List Segment

inductive PathError where
  | nodeNotFound (pointer : String)
  | invalidPath (text reason : String)
  | typeMismatch (pointer found : String)
  deriving DecidableEq, Repr

def PathError.message : PathError → String
  | .nodeNotFound pointer => "Node not found at path: " ++ pointer
  | .invalidPath text reason => "Invalid path '" ++ text ++ "': " ++ reason
  | .typeMismatch pointer found =>
    "Type mismatch at '" ++ pointer ++ "': expected object or array, found " ++ found

/-- Positions lie below this bound. -/
def indexBound : Nat := UInt64.size

/-- The position that a token writes: digits without a leading zero, unless it stands alone. -/
def readIndex? (token : String) : Option Nat :=
  let cs := token.toList
  if Text.hasLeadingZero cs then none else (Text.natural? 10 cs).filter (· < indexBound)

namespace Segment

/-- The step as a bare token. -/
def token : Segment → String
  | .key k => k
  | .index n => toString n

/-- The step as an array position, if it can be one. -/
def asIndex : Segment → Option Nat
  | .key k => readIndex? k
  | .index n => some n

def ofToken (token : String) : Segment :=
  match readIndex? token with
  | some n => .index n
  | none => .key token

def escape : List Char → List Char
  | [] => []
  | '~' :: cs => '~' :: '0' :: escape cs
  | '/' :: cs => '~' :: '1' :: escape cs
  | c :: cs => c :: escape cs

/-- Undoes `escape`; `none` when a `~` is followed by neither `0` nor `1`. -/
def unescape : List Char → Option (List Char)
  | [] => some []
  | '~' :: '0' :: cs => (unescape cs).map ('~' :: ·)
  | '~' :: '1' :: cs => (unescape cs).map ('/' :: ·)
  | '~' :: _ => none
  | c :: cs => (unescape cs).map (c :: ·)

/-- The token as it stands in a pointer. -/
def shown : Segment → String
  | .key k => String.ofList (escape k.toList)
  | .index n => toString n

end Segment

namespace Path

def pointer (p : Path) : String := String.join (p.map fun s => "/" ++ s.shown)

def readToken (text : String) (raw : List Char) : Except PathError Segment :=
  match Segment.unescape raw with
  | some cs => .ok (.ofToken (String.ofList cs))
  | none => .error (.invalidPath text ("invalid escape in token '" ++ String.ofList raw ++ "'"))

/-- Reads a pointer: empty for the whole document, else tokens after slashes. -/
def ofPointer (text : String) : Except PathError Path :=
  match text.toList with
  | [] => .ok []
  | '/' :: cs => (Text.split '/' cs).mapM (readToken text)
  | _ => .error (.invalidPath text "pointer must start with '/'")

/-- The path to the parent and the last step; `none` for the whole document. -/
def splitLast? (p : Path) : Option (Path × Segment) := p.getLast?.map (p.dropLast, ·)

end Path

end RecordCuration
