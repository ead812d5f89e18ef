import RecordCuration.Decimal.Numeral

/-!
JSON values with their member order.

An object is the list of its members in order. A document that was read from text has distinct
member names at every level (`WellFormed`); the operations keep that.
-/

namespace RecordCuration

open Decimal (Double Number)

inductive Json where
  | null
  | bool (b : Bool)
  | int (n : Int)
  | real (x : Double)
  | str (s : String)
  | arr (items : List Json)
  | obj (members : List (String × Json))
  deriving Repr

namespace Json

instance : Inhabited Json := ⟨.null⟩

def ofNumber : Number → Json
  | .int n => .int n
  | .real x => .real x

/-- The type name of a value in a schema's words. -/
def typeName : Json → String
  | .null => "null"
  | .bool _ => "boolean"
  | .int _ => "integer"
  | .real _ => "number"
  | .str _ => "string"
  | .arr _ => "array"
  | .obj _ => "object"

mutual
/-- Equality of documents: members agree in any order, an integer is never a double, and the two
zeros of a double agree. -/
def same : Json → Json → Bool
  | .null, .null => true
  | .bool a, .bool b => a == b
  | .int m, .int n => m == n
  | .real x, .real y => x.sameValue y
  | .str s, .str t => s == t
  | .arr xs, .arr ys => sameItems xs ys
  | .obj ms, .obj ns => ms.length == ns.length && sameMembers ms ns
  | _, _ => false
def sameItems : List Json → List Json → Bool
  | [], [] => true
  | x :: xs, y :: ys => same x y && sameItems xs ys
  | _, _ => false
def sameMembers : List (String × Json) → List (String × Json) → Bool
  | [], _ => true
  | (k, v) :: ms, ns =>
    (match ns.lookup k with
      | some w => same v w
      | none => false) && sameMembers ms ns
end

mutual
/-- Whether the member names of every object are distinct. -/
def WellFormed : Json → Prop
  | .arr xs => WellFormedItems xs
  | .obj ms => (ms.map Prod.fst).Nodup ∧ WellFormedMembers ms
  | _ => True
def WellFormedItems : List Json → Prop
  | [] => True
  | x :: xs => WellFormed x ∧ WellFormedItems xs
def WellFormedMembers : List (String × Json) → Prop
  | [] => True
  | (_, v) :: ms => WellFormed v ∧ WellFormedMembers ms
end

mutual
/-- The number of values in a document, itself included. -/
def size : Json → Nat
  | .arr xs => sizeItems xs + 1
  | .obj ms => sizeMembers ms + 1
  | _ => 1
def sizeItems : List Json → Nat
  | [] => 0
  | x :: xs => size x + sizeItems xs
def sizeMembers : List (String × Json) → Nat
  | [] => 0
  | (_, v) :: ms => size v + sizeMembers ms
end

mutual
/-- How many containers are nested in a document. -/
def depth : Json → Nat
  | .arr xs => depthItems xs + 1
  | .obj ms => depthMembers ms + 1
  | _ => 0
def depthItems : List Json → Nat
  | [] => 0
  | x :: xs => max (depth x) (depthItems xs)
def depthMembers : List (String × Json) → Nat
  | [] => 0
  | (_, v) :: ms => max (depth v) (depthMembers ms)
end

/-- The value of a member; `none` also when the value is no object. -/
def member? (name : String) : Json → Option Json
  | .obj ms => ms.lookup name
  | _ => none

def string? : Json → Option String
  | .str s => some s
  | _ => none

def members? : Json → Option (List (String × Json))
  | .obj ms => some ms
  | _ => none

def items? : Json → Option (List Json)
  | .arr xs => some xs
  | _ => none

/-- An array of strings. -/
def strings (ss : List String) : Json := .arr (ss.map .str)

end Json

end RecordCuration
