import RecordCuration.File.View
import RecordCuration.Model.Reader

/-!
Model libraries: published models by version, in the files of some directories.

A model is read from its file once and kept under the version that it was asked for by. The file of
a version is sought directory by directory and, in each, extension by extension.
-/

namespace RecordCuration

structure ModelLibrary where
  /-- The directories, in the order of search. -/
  paths : List String
  /-- The models kept, by version as asked for. -/
  kept : List (String × Model)

namespace ModelLibrary

def ofPaths (paths : List String) : ModelLibrary := ⟨paths, []⟩

def addPath (l : ModelLibrary) (path : String) : ModelLibrary :=
  { l with paths := l.paths ++ [path] }

def get? (l : ModelLibrary) (version : String) : Option Model := l.kept.lookup version

def filePrefix : String := "spase-"

def extensions : List String := ["json", "yaml", "yml"]

/-- The version that a file name is for. -/
def versionOf? (name : String) : Option Version := do
  let (stem, extension) ← FileName.splitPoint? name.toList
  let marker := filePrefix.toList
  if String.ofList extension ∈ extensions && stem.take marker.length == marker then
    (Version.parse (String.ofList (stem.drop marker.length))).toOption
  else none

/-- The versions that the directories have names for, in ascending order. -/
def available (l : ModelLibrary) (view : FileView) : List Version :=
  let names := l.paths.flatMap fun path => (view.names? path).getD []
  (Version.sort (names.filterMap versionOf?)).eraseDups

/-- Where the file of a version may be, in the order of search. -/
def candidates (l : ModelLibrary) (version : String) : List String :=
  l.paths.flatMap fun path =>
    extensions.map fun extension =>
      FileName.join path (filePrefix ++ version ++ "." ++ extension)

def find (l : ModelLibrary) (view : FileView) (version : String) : Except ModelError String :=
  match (l.candidates version).find? view.leads with
  | some path => .ok path
  | none => .error (.notFound (.version version l.paths))

/-- Reads a model from a file, in the notation that its extension names. -/
def modelAt (view : FileView) (path : String) : Except ModelError Model :=
  match view.read path with
  | .error fault => .error (.io fault)
  | .ok text =>
    if FileName.extension? path ∈ [some "yaml", some "yml"] then Model.ofYamlText text
    else Model.ofJsonText text

/-- Reads the model of a version from its file; a model without a version gets this one. -/
def fetch (l : ModelLibrary) (view : FileView) (version : String) : Except ModelError Model := do
  let m ← modelAt view (← l.find view version)
  pure { m with version := some (m.version.getD version) }

/-- The model of a version, kept or fetched. -/
def load (l : ModelLibrary) (view : FileView) (version : String) :
    ModelLibrary × Except ModelError Model :=
  match l.get? version with
  | some m => (l, .ok m)
  | none =>
    match l.fetch view version with
    | .ok m => ({ l with kept := (version, m) :: l.kept }, .ok m)
    | .error e => (l, .error e)

/-- The model of the greatest version that the directories have a name for. -/
def loadLatest (l : ModelLibrary) (view : FileView) : ModelLibrary × Except ModelError Model :=
  match (l.available view).getLast? with
  | some version => l.load view version.shown
  | none => (l, .error (.notFound (.any l.paths)))

end ModelLibrary

end RecordCuration
