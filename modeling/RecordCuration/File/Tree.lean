import RecordCuration.File.View

/-!
The tree of one directory, and the view it gives.

A path goes step by step from the directory; a path out of it leads nowhere.
-/

namespace RecordCuration

/-- Files by the names on the way to them, and the ways to the directories. -/
structure FileTree where
  files : List (List String × String)
  directories : List (List String)

namespace FileTree

def empty : FileTree := ⟨[], []⟩

def isDirectory (t : FileTree) (way : List String) : Bool := way.isEmpty || way ∈ t.directories

/-- The names in a directory. -/
def names (t : FileTree) (way : List String) : List String :=
  let inside := fun (w : List String) => if w.dropLast = way then w.getLast? else none
  t.files.filterMap (fun f => inside f.1) ++ t.directories.filterMap inside

def step (t : FileTree) (way : List String) (name : String) : Option (List String) :=
  if !t.isDirectory way then none
  else if name = "" ∨ name = "." then some way
  else if name = ".." then if way.isEmpty then none else some way.dropLast
  else some (way ++ [name])

/-- The way that a path names; what it leads to need not be there. -/
def resolve (t : FileTree) (path : String) : Option (List String) :=
  if path.isEmpty || path.startsWith "/" then none
  else ((Text.split '/' path.toList).map String.ofList).foldlM t.step []

def entry? (t : FileTree) (way : List String) : Option FileEntry :=
  match t.files.lookup way with
  | some text => some (.file (some text))
  | none => if t.isDirectory way then some (.directory (t.names way)) else none

def view (t : FileTree) : FileView := fun path => t.resolve path >>= t.entry?

def put (t : FileTree) (way : List String) (text : String) : FileTree :=
  { t with files := (way, text) :: t.files.filter (·.1 ≠ way) }

/-- Writes a file into a directory that is there; `none` when the path cannot hold a file. -/
def write (t : FileTree) (path text : String) : Option FileTree := do
  let way ← t.resolve path
  if t.isDirectory way then none else some (t.put way text)

/-- Takes a file out; `none` when there is none. -/
def remove (t : FileTree) (path : String) : Option FileTree := do
  let way ← t.resolve path
  if (t.files.lookup way).isNone then none
  else some { t with files := t.files.filter (·.1 ≠ way) }

/-- The ways to the directories around a place, from the outermost. -/
def around (way : List String) : List (List String) := (List.range way.length).map way.take

/-- Makes a directory and those around it. -/
def makeDirectory (t : FileTree) (way : List String) : FileTree :=
  { t with directories := t.directories ++ (around way ++ [way]).filter fun w => !t.isDirectory w }

/-- Writes a file and makes the directories around it; `none` when a file is in the way. -/
def create (t : FileTree) (way : List String) (text : String) : Option FileTree :=
  if t.isDirectory way || (around way).any fun w => (t.files.lookup w).isSome then none
  else some ((t.makeDirectory way.dropLast).put way text)

end FileTree

end RecordCuration
