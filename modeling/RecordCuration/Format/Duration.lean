import RecordCuration.Text.DecimalDigit

/-!
Durations such as `P1DT12H`: `P`, years, months, weeks and days, then perhaps `T`, hours, minutes
and seconds. Every component is optional, but there must be one, and one after a `T`.
-/

namespace RecordCuration.Format

open Text (isDecimalDigit)

def spanDigits (cs : List Char) : List Char × List Char :=
  (cs.takeWhile isDecimalDigit, cs.dropWhile isDecimalDigit)

/-- What follows a component with this designator; all of the text when it does not start with
one. -/
def skipComponent (designator : Char) (cs : List Char) : List Char :=
  match spanDigits cs with
  | ([], _) => cs
  | (_, c :: rest) => if c = designator then rest else cs
  | (_, []) => cs

/-- What follows the seconds, which may have a fraction after a point or a comma. -/
def skipSeconds (cs : List Char) : List Char :=
  match spanDigits cs with
  | ([], _) => cs
  | (_, c :: rest) =>
    if c = 'S' then rest
    else if c = '.' ∨ c = ',' then
      match spanDigits rest with
      | ([], _) => cs
      | (_, d :: rest) => if d = 'S' then rest else cs
      | (_, []) => cs
    else cs
  | (_, []) => cs

def skipDate (cs : List Char) : List Char :=
  skipComponent 'D' (skipComponent 'W' (skipComponent 'M' (skipComponent 'Y' cs)))

def skipTime (cs : List Char) : List Char :=
  skipSeconds (skipComponent 'M' (skipComponent 'H' cs))

/-- Whether a text is a duration, perhaps an empty one. -/
def isDurationShape : List Char → Bool
  | 'P' :: cs =>
    match skipDate cs with
    | [] => true
    | 'T' :: rest => (skipTime rest).isEmpty
    | _ => false
  | _ => false

def isDuration (s : String) : Bool :=
  let cs := s.toList
  isDurationShape cs && cs != ['P'] && cs.getLast? != some 'T'

end RecordCuration.Format
