import RecordCuration.Json.Basic
import RecordCuration.Json.Members

/-!
Type annotation: every object of a document says what it is in its `@type` member.

The whole document has a given type, and an object below it the name of the member that it stands
under, alone or as an item of a list. Objects in lists of lists are left alone, and so is what
stands under `@type`.
-/

namespace RecordCuration

def typeKey : String := "@type"

namespace Json

mutual
/-- Annotates an object as being of a type; other values stay as they are. -/
def annotate (type : String) : Json → Json
  | .obj ms => .obj (Members.insert typeKey (.str type) (annotateMembers ms))
  | v => v
/-- Annotates what stands under a member name. -/
def annotateUnder (name : String) : Json → Json
  | .obj ms => .obj (Members.insert typeKey (.str name) (annotateMembers ms))
  | .arr xs => .arr (annotateItems name xs)
  | v => v
def annotateItems (name : String) : List Json → List Json
  | [] => []
  | x :: xs => annotate name x :: annotateItems name xs
def annotateMembers : List (String × Json) → List (String × Json)
  | [] => []
  | (k, v) :: ms => (k, if k = typeKey then v else annotateUnder k v) :: annotateMembers ms
end

theorem annotateItems_eq_map (name : String) (xs : List Json) :
    annotateItems name xs = xs.map (annotate name) := by
  induction xs with
  | nil => rfl
  | cons x xs ih => rw [annotateItems, ih, List.map_cons]

theorem annotateMembers_eq_map (ms : List (String × Json)) :
    annotateMembers ms =
      ms.map fun m => (m.1, if m.1 = typeKey then m.2 else annotateUnder m.1 m.2) := by
  induction ms with
  | nil => rfl
  | cons m ms ih => rw [annotateMembers, ih, List.map_cons]

/-- A list is no object, and what is none is annotated alike under a name and as an item there. -/
theorem annotate_cases (name : String) (v : Json) :
    annotate name v = annotateUnder name v ∨ ∃ xs, v = .arr xs ∧ annotate name v = v := by
  cases v with
  | arr xs => exact .inr ⟨xs, rfl, rfl⟩
  | _ => exact .inl rfl

end Json

end RecordCuration
