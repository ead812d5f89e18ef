/-!
Texts in parts: what stands between the marks of one kind.
-/

namespace RecordCuration.Text

/-- The parts of a text between marks, one more than there are marks. -/
def split (mark : Char) : List Char → List (List Char)
  | [] => [[]]
  | c :: cs =>
    if c = mark then [] :: split mark cs
    else match split mark cs with
      | [] => [[c]]
      | part :: parts => (c :: part) :: parts

end RecordCuration.Text
