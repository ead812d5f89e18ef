import RecordCuration.Graph.Basic
import RecordCuration.Repair.Run
import RecordCuration.Yaml.Reader

/-!
Settings: where models are sought, the context of graph schemas, and the limit of repair.

A file of settings is YAML. What it leaves out has its standard value, and members of other names
are skipped.
-/

namespace RecordCuration.CommandLine

structure Settings where
  modelPaths : List String
  context : GraphContext
  maxPasses : Nat

namespace Settings

open Yaml (Node)

def standard : Settings := ⟨[], .standard, Repairer.standardPasses⟩

/-- The member of a name, which stands once at most. -/
def member {α : Type} (ms : List (String × Node)) (name : String) (read : Node → Option α)
    (default : α) : Option α :=
  match ms.filter (·.1 == name) with
  | [] => some default
  | [m] => read m.2
  | _ => none

def texts (v : Node) : Option (List String) := v.items? >>= List.mapM Node.text?

def contextOf (v : Node) : Option GraphContext := do
  let ms ← v.members?
  let base ← member ms "base" Node.text? GraphContext.standard.base
  let schema ← member ms "schema" Node.text? GraphContext.standard.schema
  pure ⟨base, schema⟩

/-- A whole number as YAML writes it: decimal without leading zeros, or after a mark of its base.
-/
def wholeNumber? (s : String) : Option Nat :=
  match Text.dropPlus s.toList with
  | '0' :: 'x' :: cs => Text.natural? 16 cs
  | '0' :: 'o' :: cs => Text.natural? 8 cs
  | '0' :: 'b' :: cs => Text.natural? 2 cs
  | cs => if Text.hasLeadingZero cs then none else Text.natural? 10 cs

def count (v : Node) : Option Nat :=
  match v with
  | .scalar text true => (wholeNumber? text).filter (· < UInt64.size)
  | _ => none

def maxPassesOf (v : Node) : Option Nat := do
  member (← v.members?) "max_iterations" count Repairer.standardPasses

def ofNode (v : Node) : Option Settings := do
  let ms ← v.members?
  let modelPaths ← member ms "model_paths" texts []
  let context ← member ms "context" contextOf .standard
  let maxPasses ← member ms "repair" maxPassesOf Repairer.standardPasses
  pure ⟨modelPaths, context, maxPasses⟩

/-- Reads settings from YAML text. -/
def ofString? (s : String) : Option Settings := Node.ofString? s >>= ofNode

end Settings

end RecordCuration.CommandLine
