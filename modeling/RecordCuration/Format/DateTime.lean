import RecordCuration.Text.Digit

/-!
Timestamps such as `2020-01-01T00:00:00Z`: a calendar day, `T`, a time of day with an offset.

A sixtieth second is a leap second, which only the last minute of a day has in universal time.
Numbers are decimal, with sixteen digits: the six characters after `9` count from ten to fifteen,
so that `0<` is twelve, as is `12`. Only a fraction of a second is restricted to the usual ten.
-/

namespace RecordCuration.Format

/-- The value of a digit, from `0` up to `?`. -/
def clockDigit? (c : Char) : Option Nat :=
  if '0' ≤ c ∧ c ≤ '?' then some (c.toNat - '0'.toNat) else none

/-- The decimal number that some digits write; a digit above nine carries over. -/
def number? (cs : List Char) : Option Nat :=
  cs.foldlM (fun n c => (clockDigit? c).map (10 * n + ·)) 0

def isDigit (c : Char) : Bool := (Text.digit? 10 c).isSome

def isLeapYear (y : Nat) : Bool := y % 4 == 0 && (y % 100 != 0 || y % 400 == 0)

def daysInMonth (y m : Nat) : Nat :=
  match m with
  | 2 => if isLeapYear y then 29 else 28
  | 4 | 6 | 9 | 11 => 30
  | _ => 31

/-- A day written `YYYY-MM-DD`. -/
def isDate (cs : List Char) : Bool :=
  match cs with
  | [a, b, c, d, '-', e, f, '-', g, h] =>
    match number? [a, b, c, d], number? [e, f], number? [g, h] with
    | some y, some m, some day => 1 ≤ m && m ≤ 12 && 1 ≤ day && day ≤ daysInMonth y m
    | _, _, _ => false
  | _ => false

/-- What follows a fraction of a second, which is optional; `none` for a point without digits. -/
def skipFraction : List Char → Option (List Char)
  | '.' :: cs =>
    match cs.takeWhile isDigit with
    | [] => none
    | _ => some (cs.dropWhile isDigit)
  | cs => some cs

/-- Minutes that an offset from universal time adds. -/
def offset? : List Char → Option Int
  | ['Z'] => some 0
  | ['z'] => some 0
  | [sign, a, b, ':', c, d] =>
    match number? [a, b], number? [c, d] with
    | some h, some m =>
      if h ≤ 23 ∧ m ≤ 59 then
        if sign = '+' then some (60 * h + m)
        else if sign = '-' then some (-(60 * h + m : Int))
        else none
      else none
    | _, _ => none
  | _ => none

/-- Whether a minute of local time is the last of a day in universal time. -/
def isLastMinute (minute offset : Int) : Bool := (minute - offset) % 1440 == 1439

/-- A time of day with an offset. -/
def isTime (cs : List Char) : Bool :=
  match cs with
  | a :: b :: ':' :: c :: d :: ':' :: e :: f :: rest =>
    match number? [a, b], number? [c, d], number? [e, f], skipFraction rest >>= offset? with
    | some h, some m, some s, some offset =>
      h ≤ 23 && m ≤ 59 && (s ≤ 59 || (s == 60 && isLastMinute (60 * h + m) offset))
    | _, _, _, _ => false
  | _ => false

def isDateTime (s : String) : Bool :=
  let isSeparator := fun c => c == 'T' || c == 't'
  let cs := s.toList
  match cs.dropWhile (!isSeparator ·) with
  | [] => false
  | _ :: time => isDate (cs.takeWhile (!isSeparator ·)) && isTime time

end RecordCuration.Format
