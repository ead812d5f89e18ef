/-!
Finite binary floating-point numbers of 64 bits, as exact values.

Every finite double is a whole number of units of `2 ^ -1074`, so a double is held as a sign and
that number. Comparing doubles, and comparing a double with an integer, is then comparing
integers.
-/

namespace RecordCuration.Decimal

/-- A finite double: `units` counts `2 ^ -1074`, and the sign is kept for zero too. -/
structure Double where
  negative : Bool
  units : Nat
  deriving DecidableEq, Repr

namespace Double

/-- How many units make one. -/
def one : Nat := Nat.pow 2 1074

/-- The value in units, with its sign. -/
def value (x : Double) : Int :=
  if x.negative then -(x.units : Int) else x.units

/-- Equality of values: the two zeros agree. -/
def sameValue (x y : Double) : Bool := x.value == y.value

/-- The value of an integer in units. -/
def unitsOfInt (n : Int) : Int := n * one

def isWhole (x : Double) : Bool := x.units % one == 0

/-- `num / den` to the nearest whole number, a half going to the even neighbour. -/
def roundDiv (num den : Nat) : Nat :=
  let q := num / den
  let r := num % den
  if 2 * r < den then q
  else if den < 2 * r then q + 1
  else q + q % 2

/-- The spacing of doubles near `units`, as an exponent of two: 53 significant bits are kept. -/
def spacing (units : Nat) : Nat := units.log2 - 52

/-- The double nearest to `num / den` units, ties to even; `none` beyond the finite doubles. -/
def roundUnits? (num den : Nat) : Option Nat :=
  let gap := Nat.pow 2 (spacing (num / den))
  let units := roundDiv num (den * gap) * gap
  if units < Nat.pow 2 2098 then some units else none

/-- The units of the double nearest to an integer; every integer that a numeral stands for has
one. -/
def nearestUnits (n : Int) : Int :=
  let units := (roundUnits? (n.natAbs * one) 1).getD 0
  if n < 0 then -(units : Int) else units

/-- The units between one and the next double. -/
def gapAtOne : Nat := Nat.pow 2 1022

/-- Whether the difference of two doubles, rounded to a double itself, is below the gap at one. -/
def areClose (x y : Int) : Bool :=
  match roundUnits? (x - y).natAbs 1 with
  | some gap => gap < gapAtOne
  | none => false

/-- The double nearest to `10 ^ n`. -/
def powTen (n : Nat) : Nat := (roundUnits? (Nat.pow 10 n * one) 1).getD 0

end Double

end RecordCuration.Decimal
