import SqlBatch.Calendar.Basic
import SqlBatch.Text.Digits

/-!
# Bare TOML values

A bare value is a number, a truth value, a date or a time, written without quotes. Of numbers, dates
and times it only matters that they are well formed.
-/

namespace SqlBatch

namespace Toml

open Text
open Decimal (twoTo tenTo)

/-- The characters of bare values. -/
def isBare (c : Char) : Bool :=
  c.isAlphanum || c == '_' || c == '-' || c == '+' || c == '.' || c == ':'

/-- Digits, with an underscore between two of them at most. -/
def areDigits (isDigit : Char → Bool) : List Char → Bool
  | [] => false
  | [c] => isDigit c
  | c :: '_' :: cs => isDigit c && areDigits isDigit cs
  | c :: cs => isDigit c && areDigits isDigit cs

/-- A whole part: digits without a leading zero, unless the zero stands alone. -/
def isWhole (cs : List Char) : Bool :=
  areDigits Char.isDigit cs && (cs.head? != some '0' || cs.length == 1)

/-- The text without a leading sign, and whether the sign is a minus. -/
def sign : List Char → Bool × List Char
  | '-' :: cs => (true, cs)
  | '+' :: cs => (false, cs)
  | cs => (false, cs)

def plainDigits (cs : List Char) : List Char := cs.filter (· ≠ '_')

/-- A whole number of 64 bits in some base, without a sign. -/
def isInteger (base : Nat) (digits : List Char) : Bool :=
  let isDigit (c : Char) : Bool := (hexValue? c).any (· < base)
  let value := (plainDigits digits).foldl (fun n c => base * n + (hexValue? c).getD 0) 0
  areDigits isDigit digits && value < twoTo 63

def isDecimal (cs : List Char) : Bool :=
  let (negative, digits) := sign cs
  let value := digitsValue (plainDigits digits)
  isWhole digits && (value < twoTo 63 || (negative && value == twoTo 63))

/-- Whether `significand · 10 ^ exponent` is rounded to infinity as a double. -/
def overflows (significand : Nat) (exponent : Int) : Bool :=
  let size : Int := (Nat.toDigits 10 significand).length + exponent
  let bound := twoTo 1024 - twoTo 970
  if significand = 0 || size < 300 then false
  else if 320 < size then true
  else if 0 ≤ exponent then bound ≤ significand * tenTo exponent.toNat
  else bound * tenTo exponent.natAbs ≤ significand

/-- A number with a fraction or an exponent, or one of the two values that are no numbers. A number
above all doubles is none. -/
def isFloat (cs : List Char) : Bool :=
  let (negative, cs) := sign cs
  let (mantissa, power) :=
    (cs.takeWhile fun c => c != 'e' && c != 'E', cs.dropWhile fun c => c != 'e' && c != 'E')
  let (whole, fraction) := (mantissa.takeWhile (· ≠ '.'), mantissa.dropWhile (· ≠ '.'))
  let (shrinks, exponentDigits) := sign power.tail
  let exponent : Int := digitsValue (plainDigits exponentDigits)
  let fractionDigits := plainDigits fraction.tail
  let wellFormed := isWhole whole && !(fraction.isEmpty && power.isEmpty) &&
    (fraction.isEmpty || areDigits Char.isDigit fraction.tail) &&
    (power.isEmpty || areDigits Char.isDigit exponentDigits)
  let tooLarge := !negative && overflows (digitsValue (plainDigits whole ++ fractionDigits))
    ((if shrinks then -exponent else exponent) - fractionDigits.length)
  cs == ['i', 'n', 'f'] || cs == ['n', 'a', 'n'] || (wellFormed && !tooLarge)

def isPair (most : Nat) (a b : Char) : Bool :=
  a.isDigit && b.isDigit && digitsValue [a, b] ≤ most

def isDate : List Char → Bool
  | [y₁, y₂, y₃, y₄, '-', m₁, m₂, '-', d₁, d₂] =>
    [y₁, y₂, y₃, y₄, m₁, m₂, d₁, d₂].all Char.isDigit &&
      (Calendar.Date.of? (digitsValue [y₁, y₂, y₃, y₄]) (digitsValue [m₁, m₂])
        (digitsValue [d₁, d₂])).isSome
  | _ => false

/-- A time with seconds, and the text after it. -/
def afterTime? : List Char → Option (List Char)
  | h₁ :: h₂ :: ':' :: m₁ :: m₂ :: ':' :: s₁ :: s₂ :: cs =>
    if isPair 23 h₁ h₂ && isPair 59 m₁ m₂ && isPair 60 s₁ s₂ then
      match cs with
      | '.' :: cs => if cs.head?.any Char.isDigit then some (cs.dropWhile Char.isDigit) else none
      | cs => some cs
    else none
  | _ => none

def isOffset : List Char → Bool
  | [] => true
  | ['Z'] | ['z'] => true
  | [mark, h₁, h₂, ':', m₁, m₂] =>
    (mark == '+' || mark == '-') && isPair 23 h₁ h₂ && isPair 59 m₁ m₂
  | _ => false

/-- A date, a time, or both with an offset or without one. -/
def isMoment (cs : List Char) : Bool :=
  isDate cs || afterTime? cs == some [] ||
    (isDate (cs.take 10) && (cs[10]? == some 'T' || cs[10]? == some 't' || cs[10]? == some ' ') &&
      (afterTime? (cs.drop 11)).any isOffset)

def isPlain : List Char → Bool
  | '0' :: 'x' :: cs => isInteger 16 cs
  | '0' :: 'o' :: cs => isInteger 8 cs
  | '0' :: 'b' :: cs => isInteger 2 cs
  | cs => isDecimal cs || isFloat cs || isMoment cs

end Toml

end SqlBatch
