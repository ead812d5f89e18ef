import RecordCuration.Decimal.Double

/-!
Decimal numerals as written, and the numbers they denote.

A numeral without fraction and exponent that fits 64 bits is an integer; every other one is a
double. The double is read from the leading digits that fit 64 bits, scaled by a power of ten
with one rounding; further digits of the whole part only scale, further digits of the fraction
are dropped.
-/

namespace RecordCuration.Decimal

/-- A numeral as written: digits are numbers below ten, the exponent has a sign and digits. -/
structure Numeral where
  negative : Bool
  whole : List Nat
  fraction : Option (List Nat)
  exponent : Option (Bool × List Nat)
  deriving DecidableEq, Repr

inductive Number where
  | int (n : Int)
  | real (x : Double)
  deriving DecidableEq, Repr

namespace Numeral

def ofDigits (ds : List Nat) : Nat := ds.foldl (fun n d => 10 * n + d) 0

/-- The leading digits that keep `acc` below `2 ^ 64`, and the digits left. -/
def takeWord (acc : Nat) : List Nat → Nat × List Nat
  | [] => (acc, [])
  | d :: ds =>
    if 10 * acc + d < UInt64.size then takeWord (10 * acc + d) ds else (acc, d :: ds)

/-- The digits that are read and the power of ten that they count. -/
def significand (n : Numeral) : Nat × Int :=
  let (acc, dropped) := takeWord 0 n.whole
  let fraction := n.fraction.getD []
  let (acc, rest) := takeWord acc fraction
  (acc, (dropped.length : Int) - ((fraction.length - rest.length : Nat) : Int))

/-- Multiplies or divides by a power of ten in steps of at most `10 ^ 308`, each rounded;
`none` when the result is too large for a double. -/
def scale (units : Nat) (exponent : Int) : Nat → Option Nat
  | 0 => some 0
  | steps + 1 =>
    if 0 ≤ exponent then
      if units = 0 then some 0
      else if exponent ≤ 308 then
        Double.roundUnits? (units * Double.powTen exponent.toNat) Double.one
      else none
    else if -308 ≤ exponent then
      Double.roundUnits? (units * Double.one) (Double.powTen (-exponent).toNat)
    else if units = 0 then some 0
    else do
      let smaller ← Double.roundUnits? (units * Double.one) (Double.powTen 308)
      scale smaller (exponent + 308) steps

def exponentValue : Option (Bool × List Nat) → Int
  | none => 0
  | some (negative, ds) => if negative then -(ofDigits ds : Int) else ofDigits ds

/-- A numeral of 64 bits divided three times by `10 ^ 308` is zero. -/
def toDouble? (n : Numeral) : Option Double := do
  let (digits, shift) := n.significand
  let start ← Double.roundUnits? (digits * Double.one) 1
  let units ← scale start (shift + exponentValue n.exponent) 5
  pure ⟨n.negative, units⟩

/-- A minus before a zero, or before a whole number beyond 64 bits, makes a double. -/
def toInt? (n : Numeral) : Option Int :=
  match n.fraction, n.exponent with
  | none, none =>
    let m := ofDigits n.whole
    if n.negative then
      if 0 < m ∧ m ≤ Nat.pow 2 63 then some (-(m : Int)) else none
    else if m < UInt64.size then some m else none
  | _, _ => none

def toNumber? (n : Numeral) : Option Number :=
  match n.toInt? with
  | some i => some (.int i)
  | none => n.toDouble?.map .real

end Numeral

end RecordCuration.Decimal
