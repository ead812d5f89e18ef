import RecordCuration.CommandLine.Run

/-!
The program: it looks up the files that a call can need, runs it, and prints and writes what the
run gives.
-/

namespace RecordCuration.CommandLine

/-- The files that a call names, and where it writes. -/
def Invocation.paths (i : Invocation) : List String :=
  let own := match i.command with
    | .graphSchema name output => name :: output.toList
    | .jsonSchema name _ output => name :: output.toList
    | .validate path name _ report => path :: name :: report.toList
    | .repair path name _ output _ => path :: name :: output.toList
  i.config.toList ++ own

def Invocation.modelName (i : Invocation) : String :=
  match i.command with
  | .graphSchema name _ => name
  | .jsonSchema name _ _ => name
  | .validate _ name _ _ => name
  | .repair _ name _ _ _ => name

/-- Where the model of a call is sought when it is named by version. -/
def Invocation.candidates (i : Invocation) (view : FileView) : List String :=
  match settings view i.config with
  | .ok s => (ModelLibrary.ofPaths s.modelPaths).candidates i.modelName
  | .error _ => []

/-- Looks up a path; a directory opens like a file and cannot be read. -/
def lookUp (path : String) : IO (Option FileEntry) := do
  match ← EIO.toBaseIO (IO.FS.Handle.mk path .read) with
  | .error (.permissionDenied ..) => pure (some (.file none))
  | .error _ => pure none
  | .ok handle =>
    match ← EIO.toBaseIO handle.readToEnd with
    | .ok text => pure (some (.file (some text)))
    | .error (.userError _) => pure (some (.file none))
    | .error _ => pure (some (.directory []))

/-- A view of some paths and the directories they lead into. -/
def viewOf (paths : List String) : IO FileView := do
  let all := paths ++ paths.map FileName.parent
  let entries ← all.mapM fun path => do pure (path, ← lookUp path)
  pure fun path => (entries.lookup path).join

end RecordCuration.CommandLine

open RecordCuration RecordCuration.CommandLine in
def main (args : List String) : IO UInt32 := do
  let view : FileView ← match Invocation.ofArguments args with
    | .error _ => pure fun _ => none
    | .ok i => do
      let first ← viewOf i.paths
      viewOf (i.paths ++ i.candidates first)
  let result := run args view
  IO.print result.output
  IO.eprint result.errors
  for (path, text) in result.written do
    IO.FS.writeFile path text
  pure result.code
