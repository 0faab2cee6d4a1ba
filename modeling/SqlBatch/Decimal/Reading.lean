import SqlBatch.Text.Digits

/-!
# Reading decimals

A decimal is read as a whole number of at most 64 bits and a power of ten. The whole number is
rounded to a double first, and then multiplied or divided by the power.
-/

namespace SqlBatch

namespace Decimal

/-- The greatest power of ten that is a double. -/
def maxPower : Nat := 308

/-- The nearest double to a whole number of at most 64 bits. -/
def floatOfNat (n : Nat) : Float := n.toUInt64.toFloat

def floatOfInt (n : Int) : Float :=
  if n < 0 then -(floatOfNat n.natAbs) else floatOfNat n.natAbs

/-- A double divided by a power of ten, in steps of the greatest power that is a double. -/
def divideByPower : Nat → Float → Nat → Float
  | 0, _, _ => 0
  | fuel + 1, x, k =>
    if k ≤ maxPower then x / Float.ofScientific 1 false k
    else divideByPower fuel (x / Float.ofScientific 1 false maxPower) (k - maxPower)

/-- The double for `significand · 10 ^ exponent`, unless it is out of range. -/
def scaled? (significand : Nat) (exponent : Int) : Option Float :=
  let x := floatOfNat significand
  if significand = 0 then some 0
  else if 0 ≤ exponent then
    if exponent ≤ maxPower then
      let y := x * Float.ofScientific 1 false exponent.toNat
      if y.isInf then none else some y
    else none
  else some (divideByPower 4 x exponent.natAbs)

/-- The digits of a significand, cut off where it would no longer fit into 64 bits; with the number
of digits taken. -/
def significandOf : Nat → Nat → List Char → Nat × Nat
  | value, taken, [] => (value, taken)
  | value, taken, d :: ds =>
    let next := 10 * value + Text.digitValue d
    if next < UInt64.size then significandOf next (taken + 1) ds else (value, taken)

/-- The double that whole digits, fraction digits and an exponent write. -/
def ofDigits? (whole fraction : List Char) (exponent : Int) : Option Float :=
  let (significand, taken) := significandOf 0 0 (whole ++ fraction)
  scaled? significand (exponent + whole.length - taken)

end Decimal

end SqlBatch
