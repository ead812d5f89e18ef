/-!
Digits and the numbers that they write.
-/

namespace RecordCuration.Text

/-- The value of a hexadecimal digit of either case. -/
def hexDigit? (c : Char) : Option Nat :=
  if '0' ≤ c ∧ c ≤ '9' then some (c.toNat - '0'.toNat)
  else if 'a' ≤ c ∧ c ≤ 'f' then some (c.toNat - 'a'.toNat + 10)
  else if 'A' ≤ c ∧ c ≤ 'F' then some (c.toNat - 'A'.toNat + 10)
  else none

/-- The value of a digit to a base of sixteen at most. -/
def digit? (base : Nat) (c : Char) : Option Nat := (hexDigit? c).filter (· < base)

/-- The number that one digit or more write. -/
def natural? (base : Nat) : List Char → Option Nat
  | [] => none
  | cs => cs.foldlM (fun n c => (digit? base c).map (base * n + ·)) 0

def hasLeadingZero : List Char → Bool
  | '0' :: _ :: _ => true
  | _ => false

def dropPlus : List Char → List Char
  | '+' :: cs => cs
  | cs => cs

/-- A decimal number below a bound, perhaps after a plus sign. -/
def count? (bound : Nat) (cs : List Char) : Option Nat :=
  (natural? 10 (dropPlus cs)).filter (· < bound)

end RecordCuration.Text
