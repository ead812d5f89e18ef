import RecordCuration.Text.Digit
import RecordCuration.Text.Split

/-!
Versions of published models: up to three numbers between dots, missing ones zero.
-/

namespace RecordCuration

structure Version where
  major : Nat
  minor : Nat
  patch : Nat
  deriving DecidableEq, Repr

inductive VersionFault where
  | empty
  | tooMany (text : String)
  | badComponent (part : String)
  deriving DecidableEq, Repr

def VersionFault.message : VersionFault → String
  | .empty => "Empty version string"
  | .tooMany text => "Too many version components: " ++ text
  | .badComponent part => "Invalid version component: " ++ part

namespace Version

def shown (v : Version) : String :=
  toString v.major ++ "." ++ toString v.minor ++ "." ++ toString v.patch

/-- A number of 32 bits, perhaps after a plus sign. -/
def component? (part : List Char) : Option Nat := Text.count? UInt32.size part

/-- Reads components until one is bad or more than `room` have come. -/
def components (text : String) : Nat → List (List Char) → Except VersionFault (List Nat)
  | _, [] => .ok []
  | 0, _ :: _ => .error (.tooMany text)
  | room + 1, part :: parts =>
    match component? part with
    | none => .error (.badComponent (String.ofList part))
    | some n => (components text room parts).map (n :: ·)

def parse (text : String) : Except VersionFault Version :=
  if text.isEmpty then .error .empty
  else (components text 3 (Text.split '.' text.toList)).map fun ns =>
    ⟨ns.getD 0 0, ns.getD 1 0, ns.getD 2 0⟩

/-- Versions by their first differing number. -/
def lt (v w : Version) : Bool :=
  v.major < w.major || v.major == w.major &&
    (v.minor < w.minor || v.minor == w.minor && v.patch < w.patch)

def le (v w : Version) : Bool := !lt w v

/-- Versions in ascending order. -/
def sort (vs : List Version) : List Version := vs.mergeSort le

end Version

end RecordCuration
