import RecordCuration.File.Name

/-!
Files as a program sees them: a view tells what a path leads to.
-/

namespace RecordCuration

/-- A file, with its text if it has one, or a directory of names. -/
inductive FileEntry where
  | file (text : Option String)
  | directory (names : List String)

/-- Why a file cannot be read or written. -/
inductive FileFault where
  | missing
  | throughFile
  | isDirectory
  | noText
  deriving DecidableEq, Repr

def FileFault.message : FileFault → String
  | .missing => "No such file or directory (os error 2)"
  | .throughFile => "Not a directory (os error 20)"
  | .isDirectory => "Is a directory (os error 21)"
  | .noText => "stream did not contain valid UTF-8"

abbrev FileView := String → Option FileEntry

namespace FileView

def isFile (view : FileView) (path : String) : Bool := view path matches some (.file _)

/-- Whether a path leads anywhere. -/
def leads (view : FileView) (path : String) : Bool := (view path).isSome

/-- Why a path leads nowhere. -/
def absence (view : FileView) (path : String) : FileFault :=
  if view.isFile (FileName.parent path) then .throughFile else .missing

def read (view : FileView) (path : String) : Except FileFault String :=
  match view path with
  | some (.file (some text)) => .ok text
  | some (.file none) => .error .noText
  | some (.directory _) => .error .isDirectory
  | none => .error (view.absence path)

/-- The names in a directory. -/
def names? (view : FileView) (path : String) : Option (List String) :=
  match view path with
  | some (.directory names) => some names
  | _ => none

/-- Why no file can be written at a path. -/
def writeFault? (view : FileView) (path : String) : Option FileFault :=
  match view path with
  | some (.file _) => none
  | some (.directory _) => some .isDirectory
  | none =>
    if (view.names? (FileName.parent path)).isSome then none else some (view.absence path)

/-- The view after a file has been written. -/
def update (view : FileView) (path text : String) : FileView := fun p =>
  if p = path then some (.file (some text)) else view p

end FileView

end RecordCuration
