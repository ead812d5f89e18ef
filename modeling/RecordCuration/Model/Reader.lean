import RecordCuration.Json.Parser
import RecordCuration.Json.Printer
import RecordCuration.Model.Basic
import RecordCuration.Model.Error
import RecordCuration.Text.Quoted
import RecordCuration.Yaml.Reader

/-!
Reading models from a notation that has texts, lists and members.

Each of the three record types is written as members, or as the list of its fields in order where
the notation has that form.
Reading goes from left to right and stops at the first fault; a repeated name is a fault, unknown
members of a record are skipped.
-/

namespace RecordCuration

/-- What the reader needs of a notation. -/
class Notation (σ : Type) where
  /-- The text of a value, or what stands there instead. -/
  text : σ → Except ShapeFault String
  isNull : σ → Bool
  items? : σ → Option (List σ)
  /-- The fields of a record that is written as a list. -/
  fields? : σ → Option (List σ)
  members? : σ → Option (List (String × σ))
  /-- A value that is not of the `expected` kind. -/
  mismatch : (expected : String) → σ → ShapeFault

namespace Model

variable {σ : Type} [Notation σ]

open Notation

def optionalText (v : σ) : Except ShapeFault (Option String) :=
  if isNull v then .ok none else (text v).map some

def texts (v : σ) : Except ShapeFault (List String) :=
  match items? v with
  | some vs => vs.mapM text
  | none => .error (mismatch "a sequence" v)

/-- Members as a table; a name is found repeated once its value has been read. -/
def table {α : Type} (read : σ → Except ShapeFault α) (v : σ) : Except ShapeFault (Table α) :=
  match members? v with
  | none => .error (mismatch "a map with unique string keys" v)
  | some ms => ms.foldlM (fun t m => do
      let x ← read m.2
      match t.push? m.1 x with
      | some t => pure t
      | none => .error (.duplicateKey m.1)) Table.empty

/-- Fills a field of a record that is being read; it must still be free. -/
def fill {α : Type} (name : String) (field : Option α) (read : σ → Except ShapeFault α) (v : σ) :
    Except ShapeFault (Option α) :=
  match field with
  | some _ => .error (.duplicateField name)
  | none => (read v).map some

def need {α : Type} (name : String) (field : Option α) : Except ShapeFault α :=
  match field with
  | some x => .ok x
  | none => .error (.missingField name)

/-- The next value of a record written as a list. -/
def item {α : Type} (read : σ → Except ShapeFault α) (position : Nat) (expected : String)
    (vs : List σ) : Except ShapeFault α :=
  match vs[position]? with
  | some v => read v
  | none => .error (.invalidLength position expected)

def itemOr {α : Type} (default : α) (read : σ → Except ShapeFault α) (position : Nat)
    (vs : List σ) : Except ShapeFault α :=
  match vs[position]? with
  | some v => read v
  | none => .ok default

def ended (length : Nat) (vs : List σ) : Except ShapeFault Unit :=
  if vs.length ≤ length then .ok () else .error .trailing

/-! ### Dictionary entries -/

structure PartialEntry where
  tag : Option String
  definition : Option String
  subElements : Option (List String)
  allowedValues : Option (List String)

def entryMember (p : PartialEntry) (m : String × σ) : Except ShapeFault PartialEntry :=
  match m.1 with
  | "type" => (fill "type" p.tag text m.2).map ({ p with tag := · })
  | "definition" => (fill "definition" p.definition text m.2).map ({ p with definition := · })
  | "subElements" => (fill "subElements" p.subElements texts m.2).map ({ p with subElements := · })
  | "allowedValues" =>
    (fill "allowedValues" p.allowedValues texts m.2).map ({ p with allowedValues := · })
  | _ => .ok p

def entryOfMembers (ms : List (String × σ)) : Except ShapeFault TypeEntry := do
  let p ← ms.foldlM entryMember ⟨none, none, none, none⟩
  let tag ← need "type" p.tag
  pure ⟨.ofName tag, p.definition.getD "", p.subElements.getD [], p.allowedValues.getD []⟩

def entryOfItems (vs : List σ) : Except ShapeFault TypeEntry := do
  let tag ← item text 0 "struct TypeDefinition with 4 elements" vs
  let definition ← itemOr "" text 1 vs
  let subElements ← itemOr [] texts 2 vs
  let allowedValues ← itemOr [] texts 3 vs
  ended 4 vs
  pure ⟨.ofName tag, definition, subElements, allowedValues⟩

/-- A record from its members or its list of fields. -/
def record {α : Type} (expected : String) (ofMembers : List (String × σ) → Except ShapeFault α)
    (ofItems : List σ → Except ShapeFault α) (v : σ) : Except ShapeFault α :=
  match members? v, fields? v with
  | some ms, _ => ofMembers ms
  | none, some vs => ofItems vs
  | none, none => .error (mismatch expected v)

def entry (v : σ) : Except ShapeFault TypeEntry :=
  record "struct TypeDefinition" entryOfMembers entryOfItems v

/-! ### Fields -/

structure PartialUse where
  object : Option String
  occurrence : Option String

def useMember (p : PartialUse) (m : String × σ) : Except ShapeFault PartialUse :=
  match m.1 with
  | "object" => (fill "object" p.object text m.2).map ({ p with object := · })
  | "occurrence" => (fill "occurrence" p.occurrence text m.2).map ({ p with occurrence := · })
  | _ => .ok p

def useOfMembers (ms : List (String × σ)) : Except ShapeFault FieldUse := do
  let p ← ms.foldlM useMember ⟨none, none⟩
  let object ← need "object" p.object
  let occurrence ← need "occurrence" p.occurrence
  pure ⟨object, occurrence⟩

def useOfItems (vs : List σ) : Except ShapeFault FieldUse := do
  let object ← item text 0 "struct FieldDescriptor with 2 elements" vs
  let occurrence ← item text 1 "struct FieldDescriptor with 2 elements" vs
  ended 2 vs
  pure ⟨object, occurrence⟩

def use (v : σ) : Except ShapeFault FieldUse :=
  record "struct FieldDescriptor" useOfMembers useOfItems v

/-! ### Models -/

structure PartialModel where
  version : Option (Option String)
  dictionary : Option Dictionary
  ontology : Option Ontology

def dictionaryOf (v : σ) : Except ShapeFault Dictionary := table entry v

def ontologyOf (v : σ) : Except ShapeFault Ontology := table (table use) v

def modelMember (p : PartialModel) (m : String × σ) : Except ShapeFault PartialModel :=
  match m.1 with
  | "version" => (fill "version" p.version optionalText m.2).map ({ p with version := · })
  | "dictionary" =>
    (fill "dictionary" p.dictionary dictionaryOf m.2).map ({ p with dictionary := · })
  | "ontology" => (fill "ontology" p.ontology ontologyOf m.2).map ({ p with ontology := · })
  | _ => .ok p

def ofMembers (ms : List (String × σ)) : Except ShapeFault Model := do
  let p ← ms.foldlM modelMember ⟨none, none, none⟩
  let dictionary ← need "dictionary" p.dictionary
  let ontology ← need "ontology" p.ontology
  pure ⟨p.version.getD none, dictionary, ontology⟩

def ofItems (vs : List σ) : Except ShapeFault Model := do
  let version ← itemOr none optionalText 0 vs
  let dictionary ← item dictionaryOf 1 "struct SpaseModel with 3 elements" vs
  let ontology ← item ontologyOf 2 "struct SpaseModel with 3 elements" vs
  ended 3 vs
  pure ⟨version, dictionary, ontology⟩

def read (v : σ) : Except ShapeFault Model := record "struct SpaseModel" ofMembers ofItems v

end Model

/-! ### JSON -/

namespace Json.Source

open Decimal

def foundNumber : Number → String
  | .int n => "integer `" ++ toString n ++ "`"
  | .real x => "floating point `" ++ realLayout.write x ++ "`"

/-- What stands at a place, in words. -/
def found? : Source → Option String
  | .null => some "null"
  | .bool b => some ("boolean `" ++ toString b ++ "`")
  | .num n => n.toNumber?.map foundNumber
  | .text ps => (text? ps).map fun s => "string " ++ Text.quoted s
  | .arr _ => some "sequence"
  | .obj _ => some "map"

def fault (expected : String) (v : Source) : ShapeFault :=
  match v.found? with
  | some found => .invalidType found expected
  | none => .malformed

def modelText : Source → Except ShapeFault String
  | .text ps =>
    match text? ps with
    | some s => .ok s
    | none => .error .malformed
  | v => .error (fault "a string" v)

def namedMembers? : Source → Option (List (String × Source))
  | .obj ms => ms.mapM fun m => (text? m.1).map (·, m.2)
  | _ => none

instance : Notation Source where
  text := modelText
  isNull v := v matches .null
  items?
    | .arr vs => some vs
    | _ => none
  fields?
    | .arr vs => some vs
    | _ => none
  members? := namedMembers?
  mismatch := fault

end Json.Source

/-- Reads a model from JSON text. A fault in a text that is no JSON has no detail. -/
def Model.ofJsonText (s : String) : Except ModelError Model :=
  match Json.Source.ofString? s with
  | none => .error (.invalidFormat (.json .malformed))
  | some v =>
    match Model.read v with
    | .ok m => .ok m
    | .error fault =>
      if (Json.ofString? s).isSome then .error (.invalidFormat (.json fault))
      else .error (.invalidFormat (.json .malformed))

/-! ### YAML -/

namespace Yaml.Node

/-- Every scalar has a text; a sequence never stands for a record. -/
instance : Notation Node where
  text v := match v.text? with
    | some s => .ok s
    | none => .error .malformed
  isNull := isNull
  items? := items?
  fields? _ := none
  members? := members?
  mismatch _ _ := .malformed

end Yaml.Node

/-- Reads a model from YAML text. -/
def Model.ofYamlText (s : String) : Except ModelError Model :=
  match Yaml.Node.ofString? s with
  | none => .error (.invalidFormat .yaml)
  | some v => (Model.read v).mapError fun _ => .invalidFormat .yaml

end RecordCuration
