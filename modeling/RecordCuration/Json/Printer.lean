import RecordCuration.Decimal.Shortest
import RecordCuration.Json.Basic

/-!
Writing JSON values: compact text, and text with an indent of two spaces.
-/

namespace RecordCuration

open Decimal

/-- How a double is laid out: values from `10 ^ plainFrom` and below `10 ^ plainTo` have a point
and no exponent. -/
structure RealLayout where
  plainFrom : Int
  plainTo : Int
  deriving DecidableEq, Repr

namespace RealLayout

def zeros (n : Nat) : String := String.ofList (List.replicate n '0')

/-- A point after `n` digits, the last of them not the end of the text. -/
def pointAt (digits : List Char) (n : Nat) : String :=
  String.ofList (digits.take n) ++ "." ++ String.ofList (digits.drop n)

def plain (digits : List Char) (exponent : Int) : String :=
  let point := (digits.length : Int) + exponent
  if 0 ≤ exponent then String.ofList digits ++ zeros exponent.toNat ++ ".0"
  else if 0 < point then pointAt digits point.toNat
  else "0." ++ zeros (-point).toNat ++ String.ofList digits

def signed (n : Int) : String := (if n < 0 then "-" else "+") ++ toString n.natAbs

def scientific (digits : List Char) (lead : Int) : String :=
  let mark := "e" ++ signed lead
  if digits.length ≤ 1 then String.ofList digits ++ mark else pointAt digits 1 ++ mark

def writeMagnitude (layout : RealLayout) (units : Nat) : String :=
  if units = 0 then "0.0" else
    let s := Double.shortest units
    let digits := Nat.toDigits 10 s.digits
    let lead := s.exponent + digits.length - 1
    if layout.plainFrom ≤ lead ∧ lead < layout.plainTo then plain digits s.exponent
    else scientific digits lead

def write (layout : RealLayout) (x : Double) : String :=
  if x.negative then "-" ++ layout.writeMagnitude x.units else layout.writeMagnitude x.units

end RealLayout

namespace Json

/-- Plain from `0.00001` to below `10 ^ 16`, else with an exponent. -/
def realLayout : RealLayout := ⟨-5, 16⟩

def hexDigit (n : Nat) : Char := Nat.digitChar n

/-- Quotes, backslashes and control characters are escaped, nothing else. -/
def escapeChar (c : Char) : List Char :=
  match c with
  | '"' => ['\\', '"']
  | '\\' => ['\\', '\\']
  | '\x08' => ['\\', 'b']
  | '\x0c' => ['\\', 'f']
  | '\n' => ['\\', 'n']
  | '\r' => ['\\', 'r']
  | '\t' => ['\\', 't']
  | c =>
    if c < ' ' then ['\\', 'u', '0', '0', hexDigit (c.toNat / 16), hexDigit (c.toNat % 16)]
    else [c]

/-- A string as JSON text. -/
def quote (s : String) : String :=
  "\"" ++ String.ofList (s.toList.flatMap escapeChar) ++ "\""

/-- Text of a value that holds no others. -/
def atom : Json → String
  | .null => "null"
  | .bool b => if b then "true" else "false"
  | .int n => toString n
  | .real x => realLayout.write x
  | .str s => quote s
  | .arr _ => "[]"
  | .obj _ => "\x7b\x7d"

mutual
/-- A value as text without spaces. -/
def compact : Json → String
  | .arr items => "[" ++ ",".intercalate (compactItems items) ++ "]"
  | .obj members => "\x7b" ++ ",".intercalate (compactMembers members) ++ "\x7d"
  | v => atom v
def compactItems : List Json → List String
  | [] => []
  | x :: xs => compact x :: compactItems xs
def compactMembers : List (String × Json) → List String
  | [] => []
  | (k, v) :: ms => (quote k ++ ":" ++ compact v) :: compactMembers ms
end

def newline (indent : Nat) : String := "\n" ++ String.ofList (List.replicate (2 * indent) ' ')

/-- Entries between brackets, each on its own line. -/
def block (indent : Nat) (opening closing : String) (entries : List String) : String :=
  match entries with
  | [] => opening ++ closing
  | entries =>
    opening ++ newline (indent + 1) ++ ("," ++ newline (indent + 1)).intercalate entries
      ++ newline indent ++ closing

mutual
def indented (indent : Nat) : Json → String
  | .arr items => block indent "[" "]" (indentedItems (indent + 1) items)
  | .obj members => block indent "\x7b" "\x7d" (indentedMembers (indent + 1) members)
  | v => atom v
def indentedItems (indent : Nat) : List Json → List String
  | [] => []
  | x :: xs => indented indent x :: indentedItems indent xs
def indentedMembers (indent : Nat) : List (String × Json) → List String
  | [] => []
  | (k, v) :: ms => (quote k ++ ": " ++ indented indent v) :: indentedMembers indent ms
end

/-- A value as text with an indent of two spaces. -/
def pretty (v : Json) : String := indented 0 v

end Json

end RecordCuration
