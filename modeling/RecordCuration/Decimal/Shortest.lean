import RecordCuration.Decimal.Double

/-!
The shortest decimal that reads back as a given double.

The numbers that round to a double form an interval around it. The coarsest decimal grid with a
point in that interval is found by exact integer arithmetic, and of its two points next to the
double the nearer is taken, on a tie the one with an even last digit.
-/

namespace RecordCuration.Decimal

/-- The positive number `digits · 10 ^ exponent`. -/
structure Scientific where
  digits : Nat
  exponent : Int
  deriving DecidableEq, Repr

namespace Double

/-- The numbers that round to a double, in quarter units: its ends, and whether they belong to
it. -/
structure Interval where
  low : Nat
  high : Nat
  closed : Bool

/-- Below a power of two the neighbour is half as far. The ends round to an even significand. -/
def interval (units : Nat) : Interval :=
  let gap := Nat.pow 2 (spacing units)
  let significand := units / gap
  let below := if significand = Nat.pow 2 52 ∧ 1 < gap then gap else 2 * gap
  ⟨4 * units - below, 4 * units + 2 * gap, significand % 2 = 0⟩

def Interval.contains (i : Interval) (num den : Nat) : Bool :=
  if i.closed then i.low * den ≤ num && num ≤ i.high * den
  else i.low * den < num && num < i.high * den

/-- The point of the grid `10 ^ exponent` that stands for `units`, if one lies in its interval. -/
def onGrid? (units : Nat) (exponent : Int) : Option Nat :=
  let step := Nat.pow 10 exponent.toNat * (4 * one)
  let den := Nat.pow 10 (-exponent).toNat
  let target := 4 * units * den
  let lower := target / step
  let upper := lower + 1
  let i := interval units
  match i.contains (lower * step) den && lower != 0, i.contains (upper * step) den with
  | true, true =>
    let rest := target - lower * step
    let gap := upper * step - target
    some (if rest < gap ∨ (rest = gap ∧ lower % 2 = 0) then lower else upper)
  | true, false => some lower
  | false, true => some upper
  | false, false => none

/-- A power of ten above every number that rounds to `units`. -/
def topExponent (units : Nat) : Int :=
  (((units.log2 : Int) - 1074) * 30103) / 100000 + 2

/-- The shortest decimal of a positive double; two doubles differ within seventeen digits, so
the search ends long before its bound. -/
def shortest (units : Nat) : Scientific :=
  let top := topExponent units
  let found := (List.range 24).findSome? fun (i : Nat) =>
    let exponent := top - (i : Int)
    (onGrid? units exponent).map (Scientific.mk · exponent)
  found.getD ⟨0, 0⟩

end Double

end RecordCuration.Decimal
