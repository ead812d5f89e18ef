import RecordCuration.Json.Basic
import RecordCuration.Json.Members
import RecordCuration.Path.Basic

/-!
Positions inside a document: reading from one, and writing at one.

A cursor knows the value it stands on and the path it took from the root. A write cursor also
knows the whole document as a function of the value it stands on, so a write gives back the
document. Writing the last step of a path inserts or replaces an object member, and replaces an
array item that is there.
-/

namespace RecordCuration

namespace Json

/-- The part of a value that one step leads to. -/
def child? (seg : Segment) : Json → Option Json
  | .obj ms => ms.lookup seg.token
  | .arr xs => seg.asIndex >>= (xs[·]?)
  | _ => none

/-- The value with the part that one step leads to replaced. -/
def setChild (seg : Segment) (v : Json) : Json → Json
  | .obj ms => .obj (Members.insert seg.token v ms)
  | .arr xs =>
    match seg.asIndex with
    | some i => .arr (xs.set i v)
    | none => .arr xs
  | w => w

def isContainer : Json → Bool
  | .obj _ => true
  | .arr _ => true
  | _ => false

/-- Takes one step to `path`, which the step ends. -/
def step (path : Path) (seg : Segment) (v : Json) : Except PathError Json :=
  match v.child? seg with
  | some w => .ok w
  | none =>
    if v.isContainer then .error (.nodeNotFound path.pointer)
    else .error (.typeMismatch path.pointer v.typeName)

end Json

/-- A place to read. -/
structure Cursor where
  value : Json
  path : Path

namespace Cursor

def root (doc : Json) : Cursor := ⟨doc, []⟩

def child (c : Cursor) (seg : Segment) : Except PathError Cursor :=
  let path := c.path ++ [seg]
  (c.value.step path seg).map (⟨·, path⟩)

def navigate (c : Cursor) (p : Path) : Except PathError Cursor := p.foldlM child c

end Cursor

/-- A place to write; `rebuild` is the whole document as a function of the value here. -/
structure WriteCursor where
  value : Json
  path : Path
  rebuild : Json → Json

namespace WriteCursor

def root (doc : Json) : WriteCursor := ⟨doc, [], id⟩

def child (c : WriteCursor) (seg : Segment) : Except PathError WriteCursor :=
  let path := c.path ++ [seg]
  (c.value.step path seg).map
    (⟨·, path, fun v => c.rebuild (Json.setChild seg v c.value)⟩)

def navigate (c : WriteCursor) (p : Path) : Except PathError WriteCursor := p.foldlM child c

/-- Puts a value in place of the one here. -/
def replace (c : WriteCursor) (v : Json) : WriteCursor := { c with value := v }

/-- The whole document. -/
def document (c : WriteCursor) : Json := c.rebuild c.value

/-- What a write found, and the document after it. -/
structure Written where
  previous : Option Json
  document : Json

/-- Why a write failed, and the document after it. -/
structure Unwritten where
  cause : PathError
  document : Json

/-- Writes the last step `seg` of the relative path `whole` in the value here. -/
def assignChild (c : WriteCursor) (whole : Path) (seg : Segment) (v : Json) :
    Except Unwritten Written :=
  match c.value with
  | .obj ms => .ok ⟨ms.lookup seg.token, c.rebuild (.obj (Members.insert seg.token v ms))⟩
  | .arr xs =>
    match seg.asIndex with
    | none => .error ⟨.invalidPath whole.pointer "array segment is not an index", c.document⟩
    | some i =>
      match xs[i]? with
      | none => .error ⟨.nodeNotFound whole.pointer, c.document⟩
      | some old => .ok ⟨some old, c.rebuild (.arr (xs.set i v))⟩
  | w => .error ⟨.typeMismatch c.path.pointer w.typeName, c.document⟩

/-- Writes at a path from here; the empty path replaces the value here. -/
def assign (c : WriteCursor) (p : Path) (v : Json) : Except Unwritten Written :=
  match p.splitLast? with
  | none => .ok ⟨some c.value, c.rebuild v⟩
  | some (parent, last) =>
    match c.navigate parent with
    | .error cause => .error ⟨cause, c.document⟩
    | .ok place => place.assignChild p last v

end WriteCursor

namespace Json

/-- The value at a path. -/
def get (doc : Json) (p : Path) : Except PathError Json :=
  ((Cursor.root doc).navigate p).map Cursor.value

/-- Writes a value at a path. -/
def set (doc : Json) (p : Path) (v : Json) :
    Except WriteCursor.Unwritten WriteCursor.Written :=
  (WriteCursor.root doc).assign p v

end Json

end RecordCuration
