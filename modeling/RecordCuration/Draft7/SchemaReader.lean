import RecordCuration.Draft7.Schema

/-!
Reading schemas from JSON.

The keywords of a schema object become checks in the order in which they are written. A reference
stands alone: its siblings do not count. Next to `additionalProperties` other than `true`,
`properties` is part of that check. Keywords and formats that draft 7 does not know are no checks.
Every value can be read: a value that cannot stand where it does becomes a misfit in its place, and
so does a keyword or a format that draft 7 knows and that is not checked here.
-/

namespace RecordCuration.Draft7

namespace Schema

/-- The place under a token: tokens that are empty or all digits do not count. -/
def descend (place token : String) : String :=
  if token.toList.all Char.isDigit then place else (Segment.key token).shown

/-- A check from the value of its keyword. -/
def checked {α : Type} (make : α → Schema) : Except Misfit α → Schema
  | .ok x => make x
  | .error cause => .misfit cause

/-! ### Values of keywords -/

def textOf : Json → Except Misfit String
  | .str s => .ok s
  | v => .error (.notOfType [.string] v)

def itemsOf : Json → Except Misfit (List Json)
  | .arr vs => .ok vs
  | v => .error (.notOfType [.array] v)

def textsOf (v : Json) : Except Misfit (List String) := itemsOf v >>= List.mapM textOf

def numberOf : Json → Except Misfit Json
  | .int n => .ok (.int n)
  | .real x => .ok (.real x)
  | v => .error (.notOfType [.number] v)

/-- A name among several. -/
def typeNameOf (v : Json) : Except Misfit TypeName := do
  match TypeName.ofName? (← textOf v) with
  | some t => pure t
  | none => throw (.notATypeName v)

def onlyType (s : String) : Except Misfit (List TypeName) :=
  match TypeName.ofName? s with
  | some t => .ok [t]
  | none => .error .unknownType

def inOrder (names : List TypeName) : List TypeName :=
  TypeName.all.flatMap fun t => names.filter (· = t)

def typesOf : Json → Except Misfit (List TypeName)
  | .str s => onlyType s
  | .arr [.str s] => onlyType s
  | .arr vs => (vs.mapM typeNameOf).map inOrder
  | v => .error (.notOfType [.array, .string] v)

/-- No limit of size lies beyond. -/
def maxLimit : Nat := UInt64.size - 1

/-- A limit of size, which may be written as a double without a fraction; what is below zero counts
as zero. -/
def limitOf : Json → Except Misfit Nat
  | .int n => .ok (min n.toNat maxLimit)
  | .real x =>
    if x.isWhole then .ok (min (x.value.toNat / Decimal.Double.one) maxLimit)
    else .error (.notOfType [.integer] (.real x))
  | v => .error (.notOfType [.integer] v)

/-- The formats of draft 7 that are not checked. -/
def uncheckedFormats : List String :=
  ["email", "hostname", "idn-email", "idn-hostname", "ipv4", "ipv6", "iri", "iri-reference",
    "json-pointer", "regex", "relative-json-pointer", "uri-template"]

def formatCheck? : Json → Option Schema
  | .str s =>
    match FormatName.ofName? s with
    | some f => some (.format f)
    | none => if s ∈ uncheckedFormats then some (.misfit (.format s)) else none
  | v => some (.misfit (.formatName v))

/-! ### Schemas within schemas -/

/-- The value of a keyword, with the schemas in it. -/
inductive Part where
  | plain
  | schema (s : Schema)
  | list (ss : List Schema)
  | named (ss : List (String × Schema))

/-- The keywords of a schema object with their values. -/
abbrev Parts := List (String × Json × Part)

def Parts.value? (ps : Parts) (keyword : String) : Option Json :=
  (ps.lookup keyword).map Prod.fst

/-- A value that holds no schemas, as a schema. -/
def plainSchema (place : String) : Json → Schema
  | .bool true => .all []
  | .bool false => .never place
  | v => .misfit (.notOfType [.boolean, .object] v)

def schemaOf (place : String) (value : Json) : Part → Schema
  | .schema s => s
  | _ => plainSchema place value

def schemasOf (value : Json) : Part → Except Misfit (List Schema)
  | .list ss => .ok ss
  | _ => .error (.notOfType [.array] value)

def namedOf (value : Json) : Part → Except Misfit (List (String × Schema))
  | .named listed => .ok listed
  | _ => .error (.notOfType [.object] value)

/-- Whether `additionalProperties` takes over the check of `properties`. -/
def Parts.isRestricted (ps : Parts) : Bool :=
  match ps.value? "additionalProperties" with
  | some (.bool false) => true
  | some (.obj _) => true
  | _ => false

/-- The schemas under `properties`, if the keyword is there. -/
def Parts.properties (ps : Parts) : Option (Except Misfit (List (String × Schema))) :=
  (ps.lookup "properties").map fun p => namedOf p.1 p.2

/-- The check of the members that `properties` does not list, and of those that it does. -/
def additionalCheck? (place : String) (ps : Parts) (value : Json) (part : Part) :
    Option Schema :=
  match value with
  | .bool true => none
  | .bool false =>
    match ps.properties with
    | none => some .noMembers
    | some listed => some (checked .closed listed)
  | v =>
    let rest := schemaOf place v part
    some (checked (.others · rest) (ps.properties.getD (.ok [])))

def itemsCheck? (place : String) (value : Json) (part : Part) : Option Schema :=
  match part, value with
  | .schema s, _ => some (.items s)
  | .list ss, _ => some (.itemsInTurn ss)
  | _, .bool false => some (.items (.never place))
  | _, _ => none

/-- The keywords of draft 7 that are not checked. One of them would change what a reference under
it names. -/
def uncheckedKeywords : List String :=
  ["pattern", "patternProperties", "propertyNames", "multipleOf", "contains", "dependencies", "if",
    "additionalItems", "contentEncoding", "contentMediaType", "$id"]

/-- The check that a keyword stands for; `place` is where its value stands. -/
def checkOf? (place : String) (ps : Parts) (keyword : String) (value : Json) (part : Part) :
    Option Schema :=
  match keyword with
  | "type" => some (checked .type (typesOf value))
  | "required" => some (checked .required (textsOf value))
  | "properties" =>
    if ps.isRestricted then none else some (checked .properties (namedOf value part))
  | "additionalProperties" => additionalCheck? place ps value part
  | "items" => itemsCheck? place value part
  | "enum" => some (checked .enum (itemsOf value))
  | "const" => some (.const value)
  | "format" => formatCheck? value
  | "minLength" => some (checked (.atLeast .length) (limitOf value))
  | "maxLength" => some (checked (.atMost .length) (limitOf value))
  | "minItems" => some (checked (.atLeast .items) (limitOf value))
  | "maxItems" => some (checked (.atMost .items) (limitOf value))
  | "minProperties" => some (checked (.atLeast .properties) (limitOf value))
  | "maxProperties" => some (checked (.atMost .properties) (limitOf value))
  | "minimum" => some (checked (.bound .minimum) (numberOf value))
  | "maximum" => some (checked (.bound .maximum) (numberOf value))
  | "exclusiveMinimum" => some (checked (.bound .exclusiveMinimum) (numberOf value))
  | "exclusiveMaximum" => some (checked (.bound .exclusiveMaximum) (numberOf value))
  | "uniqueItems" => if value matches .bool true then some .unique else none
  | "not" => some (.not (schemaOf place value part) value)
  | "anyOf" => some (checked .anyOf (schemasOf value part))
  | "oneOf" => some (checked .oneOf (schemasOf value part))
  | "allOf" => some (checked .all (schemasOf value part))
  | _ => if keyword ∈ uncheckedKeywords then some (.misfit (.keyword keyword)) else none

def assemble (place : String) (ps : Parts) : Schema :=
  match ps.value? "$ref" with
  | some target => checked .reference (textOf target)
  | none => .all (ps.filterMap fun p => checkOf? (descend place p.1) ps p.1 p.2.1 p.2.2)

mutual
/-- The schema that a JSON value is at a place. -/
def ofJson (place : String) : Json → Schema
  | .obj ms => assemble place (partsOf place ms)
  | v => plainSchema place v
def partsOf (place : String) : List (String × Json) → Parts
  | [] => []
  | (keyword, v) :: ms =>
    (keyword, v, partOf (descend place keyword) (keyword = "properties") v) :: partsOf place ms
def partOf (place : String) (isMap : Bool) : Json → Part
  | .obj ns =>
    if isMap then .named (membersOf place ns) else .schema (assemble place (partsOf place ns))
  | .arr vs => .list (listOf place vs)
  | _ => .plain
def membersOf (place : String) : List (String × Json) → List (String × Schema)
  | [] => []
  | (name, v) :: ms => (name, ofJson (descend place name) v) :: membersOf place ms
def listOf (place : String) : List Json → List Schema
  | [] => []
  | v :: vs => ofJson place v :: listOf place vs
end

end Schema

end RecordCuration.Draft7
