import SqlBatch.Decimal.Extended
import SqlBatch.Decimal.Layout
import SqlBatch.Text.Character
import SqlBatch.Text.Digits

/-!
# Doubles as the database reads and writes them

Digits are read until a whole number of 64 bits is nearly full, and those after them only count for
their places. The number is then scaled with a mantissa of 64 bits, which can miss the nearest
double. A double is written with fifteen digits, the last of them rounded.
-/

namespace SqlBatch

namespace Embedded

namespace Real

open Decimal

/-- No more digits are taken from this number on. -/
def significandLimit : Nat := (UInt64.size - 10) / 10

/-- The number that digits write after those before them, as far as they are taken, and how many of
them are. -/
def takeDigits : Nat → Nat → List Char → Nat × Nat
  | value, taken, [] => (value, taken)
  | value, taken, d :: ds =>
    if value < significandLimit then takeDigits (10 * value + Text.digitValue d) (taken + 1) ds
    else (value, taken)

/-- Digits and a power of ten with the power brought as near to zero as the digits allow. -/
def settle : Nat → Nat → Int → Nat × Int
  | 0, n, k => (n, k)
  | fuel + 1, n, k =>
    if 0 < k ∧ n < (UInt64.size - 1) / 10 then settle fuel (10 * n) (k - 1)
    else if k < 0 ∧ n % 10 = 0 then settle fuel (n / 10) (k + 1)
    else (n, k)

/-- The double that the digits before and after a point and a power of ten write. -/
def ofDigits (whole fraction : List Char) (power : Int) : Float :=
  let (n, taken) := takeDigits 0 0 whole
  let dropped := whole.length - taken
  let (n, places) := takeDigits n 0 fraction
  if n = 0 then 0
  else
    let (n, k) := settle 20 n (power + dropped - places)
    ((⟨n, 0⟩ : Extended).scale k).toFloat

/-- The nearest number of at most fifteen digits to a number with leading digits and a power of ten,
without the zeros at its end. -/
def fifteenDigits (digits : Nat) (power : Int) : Digits :=
  let extra := digitCount digits - 15
  if extra = 0 then Digits.strip 18 ⟨digits, power⟩
  else Digits.strip 18 ⟨(digits / tenTo (extra - 1) + 5) / 10, power + extra⟩

/-- The text of a double: fifteen digits at most, and at least one after the point. -/
def text (x : Float) : String :=
  match Parts.ofFloat x with
  | .notANumber => ""
  | .infinite negative => if negative then "-Inf" else "Inf"
  | .finite negative mantissa exponent =>
    if mantissa = 0 then "0.0"
    else
      let (leadingDigits, power) := (⟨mantissa, exponent⟩ : Extended).leadingDigits
      let d := fifteenDigits leadingDigits power
      let digits := decimalDigits d.digits
      let leading := d.exponent + (digits.length - 1 : Nat)
      let magnitude :=
        if -4 ≤ leading ∧ leading < 15 then positionalText true d
        else
          let power := decimalDigits leading.natAbs
          digits.take 1 ++ '.' :: (if digits.length ≤ 1 then ['0'] else digits.tail) ++
            'e' :: (if leading < 0 then '-' else '+') ::
              List.replicate (2 - power.length) '0' ++ power
      String.ofList (if negative then '-' :: magnitude else magnitude)

end Real

end Embedded

end SqlBatch
