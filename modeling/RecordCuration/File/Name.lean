import RecordCuration.Text.Split

/-!
Names of files: paths with slashes, and names with points.
-/

namespace RecordCuration.FileName

/-- The path of a name in a directory. -/
def join (directory name : String) : String :=
  if directory.isEmpty || directory.endsWith "/" then directory ++ name
  else directory ++ "/" ++ name

/-- A name before and after its last point; a leading point divides nothing. -/
def splitPoint? (name : List Char) : Option (List Char × List Char) :=
  let tail := name.reverse.takeWhile (· ≠ '.')
  let head := name.reverse.drop (tail.length + 1)
  if tail.length < name.length && !head.isEmpty then some (head.reverse, tail.reverse) else none

/-- The name that a path ends in. -/
def last? (path : String) : Option (List Char) :=
  match ((Text.split '/' path.toList).filter (· ∉ [[], ['.']])).getLast? with
  | some ['.', '.'] => none
  | name => name

/-- What follows the last point of the name that a path ends in. -/
def extension? (path : String) : Option String := do
  let name ← last? path
  let (_, extension) ← splitPoint? name
  some (String.ofList extension)

/-- The directory that a path leads into. -/
def parent (path : String) : String :=
  match path.toList.reverse.dropWhile (· ≠ '/') with
  | [] => "."
  | ['/'] => "/"
  | _ :: cs => String.ofList cs.reverse

end RecordCuration.FileName
