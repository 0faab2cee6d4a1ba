import SqlBatch.Decimal.Shortest

/-!
# How doubles are written

A layout says which numbers are written with an exponent, whether a whole number keeps a point and a
zero, and which of two equally short decimals is taken. Two layouts are in use: the plain one of
displayed values, which never has an exponent, and the one of data formats.
-/

namespace SqlBatch

namespace Decimal

/-- The decisions of a number format. -/
structure Layout where
  /-- The powers of ten of the first digit, from the least to the one after the greatest, that are
  written without an exponent; `none` for all of them. -/
  positional : Option (Int × Int)
  /-- A whole number ends in a point and a zero. -/
  pointZero : Bool
  tie : Tie
  deriving DecidableEq, Repr

/-- Displayed values: no exponent, whole numbers without a point. -/
def Layout.display : Layout := ⟨none, false, .up⟩

/-- Numbers in data formats: an exponent below `10 ^ -5` and from `10 ^ 16` on, whole numbers with a
point. -/
def Layout.data : Layout := ⟨some (-5, 16), true, .even⟩

def decimalDigits (n : Nat) : List Char := Nat.toDigits 10 n

def positionalText (pointZero : Bool) (d : Digits) : List Char :=
  let digits := decimalDigits d.digits
  if 0 ≤ d.exponent then
    digits ++ List.replicate d.exponent.toNat '0' ++ if pointZero then ['.', '0'] else []
  else
    let places := (-d.exponent).toNat
    let padded := List.replicate (places + 1 - digits.length) '0' ++ digits
    padded.take (padded.length - places) ++ '.' :: padded.drop (padded.length - places)

/-- A decimal with one digit before its point and an exponent. -/
def exponentText (d : Digits) : List Char :=
  let digits := decimalDigits d.digits
  let exponent := d.exponent + (digits.length - 1 : Nat)
  let fraction := if digits.length ≤ 1 then [] else '.' :: digits.tail
  digits.take 1 ++ fraction ++ 'e' :: (if exponent < 0 then '-' else '+') ::
    decimalDigits exponent.natAbs

def Layout.digitsText (layout : Layout) (d : Digits) : List Char :=
  let leading := d.exponent + (digitCount d.digits - 1 : Nat)
  match layout.positional with
  | none => positionalText layout.pointZero d
  | some (least, limit) =>
    if least ≤ leading ∧ leading < limit then positionalText layout.pointZero d else exponentText d

def Layout.text (layout : Layout) (x : Float) : String :=
  match Parts.ofFloat x with
  | .notANumber => "NaN"
  | .infinite negative => if negative then "-inf" else "inf"
  | .finite negative mantissa exponent =>
    let magnitude :=
      if mantissa = 0 then if layout.pointZero then ['0', '.', '0'] else ['0']
      else layout.digitsText (shortest layout.tie mantissa exponent)
    String.ofList (if negative then '-' :: magnitude else magnitude)

end Decimal

end SqlBatch
