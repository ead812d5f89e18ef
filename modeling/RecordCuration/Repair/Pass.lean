import RecordCuration.Path.Cursor
import RecordCuration.Repair.Rule

/-!
One pass of repairs over the issues of a document.

An issue is treated only while its place still holds the value that it was raised for, so an
earlier fix of the pass, or a whole pass before, leaves the later issue outstanding. A fix that
cannot be written ends the pass; what was written before stays.
-/

namespace RecordCuration

inductive RepairFault where
  | unwritable (rule : String) (path : Path) (cause : PathError)
  | unreadable (rule : String) (path : Path)
  deriving DecidableEq, Repr

def RepairFault.message : RepairFault → String
  | .unwritable rule path cause =>
    "Rule '" ++ rule ++ "' could not write to " ++ path.pointer ++ ": " ++ cause.message
  | .unreadable rule path =>
    "Rule '" ++ rule ++ "' wrote to " ++ path.pointer ++
      " but reading it back gave a different value"

/-- A fix that was written: its rule and its place. -/
structure AppliedFix where
  rule : String
  path : Path
  deriving DecidableEq, Repr

/-- What becomes of one issue, with the document after it. -/
inductive Treatment where
  | outstanding
  | fixed (fix : AppliedFix) (document : Json)
  | failed (fault : RepairFault) (document : Json)

/-- Whether a pass wrote anything, its fixes, and the issues that none was written for, each in
order. -/
structure Pass where
  applied : Bool
  fixes : List AppliedFix
  outstanding : List Issue

namespace Catalogue

/-- The fix that is proposed for an issue and the rule that proposes it, if the place of the issue
still holds the value that the issue was raised for. -/
def proposeAt (c : Catalogue) (doc : Json) (i : Issue) : Option (String × Fix) :=
  match doc.get i.path with
  | .ok current => if current.same i.found then c.propose i current else none
  | .error _ => none

/-- Writes a fix and reads it back. -/
def write (doc : Json) (rule : String) (fix : Fix) : Treatment :=
  match doc.set fix.path fix.value with
  | .error lost => .failed (.unwritable rule fix.path lost.cause) lost.document
  | .ok written =>
    match written.document.get fix.path with
    | .error _ => .failed (.unreadable rule fix.path) written.document
    | .ok v =>
      if v.same fix.value then .fixed ⟨rule, fix.path⟩ written.document
      else .failed (.unreadable rule fix.path) written.document

def treat (c : Catalogue) (doc : Json) (i : Issue) : Treatment :=
  match c.proposeAt doc i with
  | none => .outstanding
  | some (rule, fix) => write doc rule fix

/-- Treats issues in order; gives the document too when the pass fails. -/
def pass (c : Catalogue) : List Issue → Json → Json × Except RepairFault Pass
  | [], doc => (doc, .ok ⟨false, [], []⟩)
  | i :: is, doc =>
    match c.treat doc i with
    | .outstanding =>
      let (doc, result) := c.pass is doc
      (doc, result.map fun p => { p with outstanding := i :: p.outstanding })
    | .fixed fix doc =>
      let (doc, result) := c.pass is doc
      (doc, result.map fun p => { p with applied := true, fixes := fix :: p.fixes })
    | .failed fault doc => (doc, .error fault)

end Catalogue

end RecordCuration
