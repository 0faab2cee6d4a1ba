import SqlBatch.Decimal.Shortest

/-!
# Numbers with a mantissa of 64 bits

Positive numbers of any magnitude whose mantissa has at most 64 bits. A product is rounded to the
nearest such number, and of two that are equally near to the one with the even mantissa. A number is
scaled by a power of ten in steps of one hundred, ten and one powers, each of which is rounded, so
the result can be off in its last bits.
-/

namespace SqlBatch

namespace Decimal

def bitCount (n : Nat) : Nat := if n = 0 then 0 else Nat.log2 n + 1

/-- A quotient rounded to the nearest whole number, and to the even one of two. -/
def roundedQuotient (n d : Nat) : Nat :=
  let q := n / d
  let r := n % d
  if 2 * r < d ∨ 2 * r = d ∧ q % 2 = 0 then q else q + 1

/-- The number `mantissa · 2 ^ exponent`. -/
structure Extended where
  mantissa : Nat
  exponent : Int
  deriving DecidableEq, Repr

namespace Extended

/-- The nearest number with a mantissa of 64 bits. -/
def rounded (mantissa : Nat) (exponent : Int) : Extended :=
  let excess := bitCount mantissa - 64
  ⟨roundedQuotient mantissa (twoTo excess), exponent + excess⟩

def mul (a b : Extended) : Extended := rounded (a.mantissa * b.mantissa) (a.exponent + b.exponent)

def lt (a b : Extended) : Bool :=
  a.mantissa * twoTo (a.exponent - b.exponent).toNat <
    b.mantissa * twoTo (b.exponent - a.exponent).toNat

def floor (x : Extended) : Nat :=
  x.mantissa * twoTo x.exponent.toNat / twoTo (-x.exponent).toNat

def powerOfTen (k : Int) : Extended :=
  if 0 ≤ k then rounded (tenTo k.toNat) 0
  else
    let divisor := tenTo k.natAbs
    let shift := 63 + bitCount divisor
    ⟨roundedQuotient (twoTo shift) divisor, -shift⟩

def timesPower (factor : Extended) : Nat → Extended → Extended
  | 0, x => x
  | n + 1, x => timesPower factor n (x.mul factor)

/-- A number times a power of ten, step by step. -/
def scale (x : Extended) (k : Int) : Extended :=
  let sign : Int := if k < 0 then -1 else 1
  let n := k.natAbs
  let x := timesPower (powerOfTen (100 * sign)) (n / 100) x
  let x := timesPower (powerOfTen (10 * sign)) (n % 100 / 10) x
  timesPower (powerOfTen sign) (n % 10) x

/-- A number and a power of ten that it lacks, moved from the one to the other by steps as long as
the number meets a condition. -/
def moveWhile (meets : Extended → Bool) (step : Int) : Nat → Extended × Int → Extended × Int
  | 0, x => x
  | fuel + 1, (x, k) =>
    if meets x then moveWhile meets step fuel (x.mul (powerOfTen (-step)), k + step) else (x, k)

/-- The leading digits of a number as a whole number from `10 ^ 17` to `10 ^ 19`, and the power of
ten that they lack. -/
def leadingDigits (x : Extended) : Nat × Int :=
  let below (k : Int) (y : Extended) : Bool := y.lt (powerOfTen k)
  let above (k : Int) (y : Extended) : Bool := !below k y
  let (y, k) :=
    if above 19 x then
      moveWhile (above 19) 1 11 (moveWhile (above 29) 10 11 (moveWhile (above 119) 100 4 (x, 0)))
    else
      moveWhile (below 17) (-1) 11
        (moveWhile (below 7) (-10) 12 (moveWhile (below (-97)) (-100) 4 (x, 0)))
  (y.floor, k)

def greatest : Extended := ⟨twoTo 53 - 1, 971⟩

/-- The nearest double to a positive number; a number above the greatest double is infinite. -/
def toFloat (x : Extended) : Float :=
  let unit := max (bitCount x.mantissa + x.exponent - 53) (-1074)
  let mantissa :=
    if unit ≤ x.exponent then x.mantissa * twoTo (x.exponent - unit).toNat
    else roundedQuotient x.mantissa (twoTo (unit - x.exponent).toNat)
  if greatest.lt x then 1 / 0
  else Float.ofBits (mantissa + (unit + 1074).toNat * twoTo 52).toUInt64

end Extended

end Decimal

end SqlBatch
