import RecordCuration.Draft7.Fault
import RecordCuration.Json.Members

/-!
Checking documents against schemas.

A check gives the faults of a value in order. What a reference leads to is a parameter, so checks
follow the structure of the schema; `Library` supplies it from the schemas that references name. At
one value no reference is followed twice, unless references go in a circle without a step into the
value, and the levels of the value are as many as it nests.
-/

namespace RecordCuration.Draft7

/-- The faults of a value that stands at a path. -/
abbrev Check := Path → Json → List Fault

namespace Check

def fault (v : Violation) : Check := fun path found => [⟨path, found, v⟩]

/-- One fault unless the value passes. -/
def test (ok : Json → Bool) (v : Violation) : Check := fun path found =>
  if ok found then [] else fault v path found

def passes (c : Check) (path : Path) (v : Json) : Bool := (c path v).isEmpty

/-- Every check in turn. -/
def every (cs : List Check) : Check := fun path v => cs.flatMap fun c => c path v

def required (names : List String) : Check := fun path v =>
  match v with
  | .obj ms => names.flatMap fun name =>
    if (ms.lookup name).isSome then [] else fault (.missing name) path v
  | _ => []

/-- The listed members, in the order of the list. -/
def properties (listed : List (String × Check)) : Check := fun path v =>
  match v with
  | .obj ms => listed.flatMap fun p =>
    match ms.lookup p.1 with
    | some w => p.2 (path ++ [.key p.1]) w
    | none => []
  | _ => []

/-- Members that are not listed. -/
def unlisted (listed : List (String × Check)) (ms : List (String × Json)) : List String :=
  (ms.filter fun m => (listed.lookup m.1).isNone).map Prod.fst

/-- One fault for all members that are not expected. -/
def stray (names : List String) : Check := fun path v =>
  match names with
  | [] => []
  | names => fault (.unexpected names) path v

theorem stray_eq_nil_iff {names : List String} {path : Path} {v : Json} :
    stray names path v = [] ↔ names = [] := by
  cases names <;> simp [stray, fault]

/-- A member by its own check, if it is listed. -/
def ifListed (listed : List (String × Check)) (path : Path) (m : String × Json) : List Fault :=
  match listed.lookup m.1 with
  | some c => c (path ++ [.key m.1]) m.2
  | none => []

/-- The listed members in the order of the document, then all others. -/
def closed (listed : List (String × Check)) : Check := fun path v =>
  match v with
  | .obj ms => ms.flatMap (ifListed listed path) ++ stray (unlisted listed ms) path v
  | _ => []

/-- Every member in the order of the document, against its own check or the common one. -/
def others (listed : List (String × Check)) (rest : Check) : Check := fun path v =>
  match v with
  | .obj ms => ms.flatMap fun m => ((listed.lookup m.1).getD rest) (path ++ [.key m.1]) m.2
  | _ => []

/-- The fault shows the first member but stands at the object. -/
def noMembers : Check := fun path v =>
  match v with
  | .obj ((_, w) :: _) => [⟨path, w, .never "additionalProperties"⟩]
  | _ => []

def items (each : Check) : Check := fun path v =>
  match v with
  | .arr vs => vs.zipIdx.flatMap fun x => each (path ++ [.index x.2]) x.1
  | _ => []

def itemsInTurn (each : List Check) : Check := fun path v =>
  match v with
  | .arr vs => (each.zip vs).zipIdx.flatMap fun x => x.1.1 (path ++ [.index x.2]) x.1.2
  | _ => []

end Check

/-! ### Values under constraints -/

mutual
/-- Equality in a schema's sense: numbers by value, members in order. -/
def equal : Json → Json → Bool
  | .null, .null => true
  | .bool a, .bool b => a == b
  | .int m, .int n => m == n
  | .int m, .real y => Decimal.Double.unitsOfInt m == y.value
  | .real x, .int n => x.value == Decimal.Double.unitsOfInt n
  | .real x, .real y => x.value == y.value
  | .str s, .str t => s == t
  | .arr xs, .arr ys => equalItems xs ys
  | .obj ms, .obj ns => equalMembers ms ns
  | _, _ => false
def equalItems : List Json → List Json → Bool
  | [], [] => true
  | x :: xs, y :: ys => equal x y && equalItems xs ys
  | _, _ => false
def equalMembers : List (String × Json) → List (String × Json) → Bool
  | [], [] => true
  | (k, v) :: ms, (l, w) :: ns => k == l && equal v w && equalMembers ms ns
  | _, _ => false
end

/-- A number as the nearest double, in the smallest units. -/
def nearestUnits? : Json → Option Int
  | .int n => some (Decimal.Double.nearestUnits n)
  | .real x => some x.value
  | _ => none

/-- Whether a value is the constant of a schema. A number need only be close to a constant number,
both taken as doubles; inside of arrays and objects numbers are equal. -/
def isConst (value v : Json) : Bool :=
  match nearestUnits? value, nearestUnits? v with
  | some m, some n => Decimal.Double.areClose m n
  | _, _ => equal value v

/-- Whether no two items agree. -/
def allDistinct (agree : Json → Json → Bool) : List Json → Bool
  | [] => true
  | v :: vs => !vs.any (agree v) && allDistinct agree vs

/-- Up to this length the items of an array are compared as values of a schema, in longer arrays
as documents. -/
def shortArray : Nat := 15

def isUnique : Json → Bool
  | .arr vs => allDistinct (if vs.length ≤ shortArray then equal else Json.same) vs
  | _ => true

/-- A number in the smallest units. -/
def numberUnits? : Json → Option Int
  | .int n => some (Decimal.Double.unitsOfInt n)
  | .real x => some x.value
  | _ => none

def Bound.holds (b : Bound) (n limit : Int) : Bool :=
  match b with
  | .minimum => limit ≤ n
  | .maximum => n ≤ limit
  | .exclusiveMinimum => limit < n
  | .exclusiveMaximum => n < limit

/-- Only numbers are bounded. -/
def Bound.admits (b : Bound) (limit : Json) (v : Json) : Bool :=
  match numberUnits? v, numberUnits? limit with
  | some n, some l => b.holds n l
  | _, _ => true

def Measure.size? : Measure → Json → Option Nat
  | .length, .str s => some s.length
  | .items, .arr vs => some vs.length
  | .properties, .obj ms => some ms.length
  | _, _ => none

def FormatName.admitsValue (f : FormatName) : Json → Bool
  | .str s => f.admits s
  | _ => true

/-! ### Schemas as checks -/

/-- What checking depends on besides the schema: whether formats count, where references lead at
this value, and where they lead at its parts. -/
structure Rules where
  formats : Bool
  follow : String → Check
  step : String → Check

/-- The rules at the parts of a value. -/
def Rules.inside (r : Rules) : Rules := { r with follow := r.step }

namespace Schema

def anyOfCheck (cs : List Check) : Check := fun path v =>
  if cs.any (·.passes path v) then [] else Check.fault .noneOf path v

def oneOfCheck (cs : List Check) : Check := fun path v =>
  match (cs.filter (·.passes path v)).length with
  | 0 => Check.fault .noneOfOne path v
  | 1 => []
  | _ => Check.fault .severalOf path v

def notCheck (c : Check) (source : Json) : Check := fun path v =>
  if c.passes path v then Check.fault (.excluded source) path v else []

mutual
def check (r : Rules) : Schema → Check
  | .all ss => Check.every (checks r ss)
  | .never place => Check.fault (.never place)
  | .reference target => r.follow target
  | .misfit _ => fun _ _ => []
  | .type names => Check.test (fun v => names.any (·.admits v)) (.wrongType names)
  | .required names => Check.required names
  | .properties ps => Check.properties (namedChecks r.inside ps)
  | .closed ps => Check.closed (namedChecks r.inside ps)
  | .others ps rest => Check.others (namedChecks r.inside ps) (check r.inside rest)
  | .noMembers => Check.noMembers
  | .items s => Check.items (check r.inside s)
  | .itemsInTurn ss => Check.itemsInTurn (checks r.inside ss)
  | .enum options => Check.test (fun v => options.any (equal · v)) (.notAmong options)
  | .const value => Check.test (isConst value) (.notConst value)
  | .format f => Check.test (fun v => !r.formats || f.admitsValue v) (.wrongFormat f)
  | .atLeast m n => Check.test (fun v => (m.size? v).all (n ≤ ·)) (.tooFew m n)
  | .atMost m n => Check.test (fun v => (m.size? v).all (· ≤ n)) (.tooMany m n)
  | .bound b limit => Check.test (b.admits limit) (.outOfBound b limit)
  | .unique => Check.test isUnique .notUnique
  | .not s source => notCheck (check r s) source
  | .anyOf ss => anyOfCheck (checks r ss)
  | .oneOf ss => oneOfCheck (checks r ss)
def checks (r : Rules) : List Schema → List Check
  | [] => []
  | s :: ss => check r s :: checks r ss
def namedChecks (r : Rules) : List (String × Schema) → List (String × Check)
  | [] => []
  | (name, s) :: ps => (name, check r s) :: namedChecks r ps
end

theorem checks_eq (r : Rules) (ss : List Schema) : checks r ss = ss.map (check r) := by
  induction ss with
  | nil => rfl
  | cons s ss ih => rw [checks, ih, List.map_cons]

theorem namedChecks_eq (r : Rules) (ps : List (String × Schema)) :
    namedChecks r ps = ps.map fun p => (p.1, p.2.check r) := by
  induction ps with
  | nil => rfl
  | cons p ps ih => rw [namedChecks, ih, List.map_cons]

theorem lookup_namedChecks (r : Rules) (ps : List (String × Schema)) (name : String) :
    (namedChecks r ps).lookup name = (ps.lookup name).map (check r) := by
  rw [namedChecks_eq, Members.lookup_map]

end Schema

/-- The schemas that references name. -/
abbrev Library := List (String × Schema)

namespace Library

/-- Where a reference leads, through at most `hops` references on the way, when `step` is where
references lead at the parts of the value. -/
def followFrom (lib : Library) (formats : Bool) (step : String → Check) : Nat → String → Check
  | 0, _ => fun _ _ => []
  | hops + 1, target =>
    match lib.lookup target with
    | none => fun _ _ => []
    | some s => s.check ⟨formats, lib.followFrom formats step hops, step⟩

/-- At one value each reference is followed once. -/
def hops (lib : Library) : Nat := lib.length + 1

/-- Where references lead at values that nest less than `levels`. -/
def follow (lib : Library) (formats : Bool) : (levels : Nat) → String → Check
  | 0, _ => fun _ _ => []
  | levels + 1, target => lib.followFrom formats (lib.follow formats levels) lib.hops target

/-- The rules for values that nest no more than `levels`. -/
def rules (lib : Library) (formats : Bool) (levels : Nat) : Rules :=
  ⟨formats, lib.follow formats (levels + 1), lib.follow formats levels⟩

/-- The faults of a document. -/
def faults (lib : Library) (formats : Bool) (s : Schema) (doc : Json) : List Fault :=
  s.check (lib.rules formats doc.depth) [] doc

end Library

end RecordCuration.Draft7
