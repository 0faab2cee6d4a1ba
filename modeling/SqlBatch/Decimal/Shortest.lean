/-!
# The shortest decimal of a double

A finite double is a number `m · 2 ^ q`, and an interval around it holds the reals that round to it.
The ends of the interval belong to it when `m` is even. The shortest decimal is found on the first
grid of powers of ten, from coarse to fine, that has a point in the interval. Of two such points the
nearer one is taken.
-/

namespace SqlBatch

namespace Decimal

def twoTo (n : Nat) : Nat := Nat.pow 2 n

def tenTo (n : Nat) : Nat := Nat.pow 10 n

/-- A double, taken apart. A finite one is `mantissa · 2 ^ exponent` up to its sign. -/
inductive Parts where
  | finite (negative : Bool) (mantissa : Nat) (exponent : Int)
  | infinite (negative : Bool)
  | notANumber
  deriving DecidableEq, Repr

def Parts.ofFloat (x : Float) : Parts :=
  let bits := x.toBits.toNat
  let negative := bits / twoTo 63 == 1
  let exponent : Nat := bits / twoTo 52 % twoTo 11
  let fraction := bits % twoTo 52
  if exponent = 2047 then if fraction = 0 then .infinite negative else .notANumber
  else if exponent = 0 then .finite negative fraction (-1074)
  else .finite negative (twoTo 52 + fraction) ((exponent : Int) - 1075)

/-- A decimal `digits · 10 ^ exponent`. -/
structure Digits where
  digits : Nat
  exponent : Int
  deriving DecidableEq, Repr

/-- Which of two equally near decimals is taken. -/
inductive Tie where
  | up
  | even
  deriving DecidableEq, Repr

def digitCount (n : Nat) : Nat := (Nat.toDigits 10 n).length

/-- The power of ten of the first digit of a positive fraction. -/
def leadingExponent (numerator denominator : Nat) : Int :=
  let a := digitCount numerator
  let b := digitCount denominator
  if denominator * tenTo (a - b) ≤ numerator * tenTo (b - a) then (a : Int) - b
  else (a : Int) - b - 1

/-- A positive number between two bounds, as fractions of one denominator, and whether the bounds
belong to the interval. -/
structure Interval where
  low : Nat
  value : Nat
  high : Nat
  denominator : Nat
  closed : Bool
  deriving DecidableEq, Repr

/-- The reals that round to a positive double. The distance to the next smaller double is half as
large below a power of two. -/
def Interval.ofParts (mantissa : Nat) (exponent : Int) : Interval :=
  let below := if mantissa = twoTo 52 ∧ exponent ≠ -1074 then 1 else 2
  let scale := twoTo exponent.toNat
  { low := (4 * mantissa - below) * scale
    value := 4 * mantissa * scale
    high := (4 * mantissa + 2) * scale
    denominator := 4 * twoTo (-exponent).toNat
    closed := mantissa % 2 = 0 }

/-- The nearest point of a grid that lies in the interval, if there is one, in units of the grid `10
^ k`. -/
def Interval.onGrid? (i : Interval) (tie : Tie) (k : Int) : Option Nat :=
  let up := tenTo (-k).toNat
  let unit := i.denominator * tenTo k.toNat
  let lower := i.value * up / unit
  let upper := lower + 1
  let fits (a b : Nat) : Bool := if i.closed then a ≤ b else a < b
  let lowerFits := fits (i.low * up) (lower * unit)
  let upperFits := fits (upper * unit) (i.high * up)
  let toLower := i.value * up - lower * unit
  let toUpper := upper * unit - i.value * up
  if lowerFits && upperFits then
    if toLower < toUpper then some lower
    else if toUpper < toLower then some upper
    else match tie with
      | .up => some upper
      | .even => some (if lower % 2 = 0 then lower else upper)
  else if lowerFits then some lower
  else if upperFits then some upper
  else none

def Digits.strip : Nat → Digits → Digits
  | 0, d => d
  | fuel + 1, d =>
    if d.digits % 10 = 0 then Digits.strip fuel ⟨d.digits / 10, d.exponent + 1⟩ else d

/-- The shortest decimal that reads back as a positive double; seventeen digits always suffice. -/
def shortest (tie : Tie) (mantissa : Nat) (exponent : Int) : Digits :=
  let i := Interval.ofParts mantissa exponent
  let leading := leadingExponent i.value i.denominator
  let grids := (List.range 17).map fun (n : Nat) => leading - (n : Int)
  match grids.findSome? fun k => (i.onGrid? tie k).map fun d => (⟨d, k⟩ : Digits) with
  | some d => d.strip 18
  | none => ⟨mantissa, exponent⟩

end Decimal

end SqlBatch
