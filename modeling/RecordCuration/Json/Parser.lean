import RecordCuration.Json.Basic
import RecordCuration.Json.Members
import RecordCuration.Json.Source

/-!
Reading JSON text into values.

A repeated member keeps its first place and takes its last value. At most 127 containers may be
nested, escapes must join into whole characters, and a numeral must fit a double.
-/

namespace RecordCuration.Json

/-- The character of a pair of UTF-16 surrogates. -/
def ofSurrogates (high low : Nat) : Char :=
  Char.ofNat (0x10000 + (high - 0xD800) * 0x400 + (low - 0xDC00))

/-- Joins escaped surrogates into characters; `none` when one stands alone. -/
def joinPieces : List Piece → Option (List Char)
  | [] => some []
  | .char c :: ps => (joinPieces ps).map (c :: ·)
  | .unit n :: ps =>
    if n < 0xD800 ∨ 0xDFFF < n then (joinPieces ps).map (Char.ofNat n :: ·)
    else if n < 0xDC00 then
      match ps with
      | .unit m :: ps =>
        if 0xDC00 ≤ m ∧ m ≤ 0xDFFF then (joinPieces ps).map (ofSurrogates n m :: ·) else none
      | _ => none
    else none

def text? (ps : List Piece) : Option String := (joinPieces ps).map String.ofList

namespace Source

mutual
/-- The value of a tree with at most `room` nested containers. -/
def toJson? (room : Nat) : Source → Option Json
  | .null => some .null
  | .bool b => some (.bool b)
  | .num n => n.toNumber?.map Json.ofNumber
  | .text ps => (text? ps).map .str
  | .arr items => if room = 0 then none else (items? (room - 1) items).map .arr
  | .obj members =>
    if room = 0 then none
    else (members? (room - 1) members).map fun ms => .obj (Members.ofWrites ms)
def items? (room : Nat) : List Source → Option (List Json)
  | [] => some []
  | x :: xs => do
    let v ← toJson? room x
    let vs ← items? room xs
    pure (v :: vs)
def members? (room : Nat) : List (List Piece × Source) → Option (List (String × Json))
  | [] => some []
  | (name, x) :: ms => do
    let k ← text? name
    let v ← toJson? room x
    let vs ← members? room ms
    pure ((k, v) :: vs)
end

end Source

/-- How many containers a text may nest. -/
def maxNesting : Nat := 127

/-- Reads a text as a JSON value. -/
def ofString? (s : String) : Option Json :=
  Source.ofString? s >>= Source.toJson? maxNesting

end RecordCuration.Json
