import SqlBatch.Embedded.Real
import SqlBatch.Text.Character
import SqlBatch.Text.Utf8
import SqlBatch.Value.Basic

/-!
# Stored values

A database stores nulls, whole numbers of 64 bits, doubles, texts and bytes. Other values are stored
as text. A column may prefer numbers or texts, and then a value is turned into what its column
prefers where nothing is lost by it.
-/

namespace SqlBatch

namespace Embedded

/-- A stored value. -/
inductive Cell where
  | null
  | integer (n : Int64)
  | real (x : Float)
  | text (s : String)
  | blob (bytes : List UInt8)
  deriving BEq, Inhabited

/-- What a column prefers. -/
inductive Affinity where
  | none
  | numeric
  | text
  deriving DecidableEq, Repr

namespace Cell

def ofValue : Value → Cell
  | .null => null
  | .bool b => integer (if b then 1 else 0)
  | .int32 n => integer n.toInt64
  | .int64 n => integer n
  | .float64 x => if x.isNaN then null else real x
  | .bytes bs => blob bs
  | .dateTimeUtc t => text (String.ofList (t.text 'T') ++ "+00:00")
  | v => text v.display

def toValue : Cell → Value
  | null => .null
  | integer n => .int64 n
  | real x => .float64 x
  | text s => .string s
  | blob bs => .bytes bs

/-- A whole number, or a double where it does not fit into 64 bits. -/
def ofInt (n : Int) : Cell :=
  if Int64.minValue.toInt ≤ n ∧ n ≤ Int64.maxValue.toInt then integer (Int64.ofInt n)
  else
    let x := Real.ofDigits (Decimal.decimalDigits n.natAbs) [] 0
    real (if n < 0 then -x else x)

/-- A double as a whole number, if it is one of 64 bits and neither the least nor the greatest of
them. -/
def wholeOf? (x : Float) : Option Int64 :=
  let n := x.toInt64
  if Float.ofInt n.toInt == x && n ≠ Int64.minValue && n ≠ Int64.maxValue then some n
  else Option.none

/-- The power of ten that the digits of an exponent write. One that is long is cut short, which
changes no number. -/
def exponentOf (digits : List Char) : Nat :=
  digits.foldl (fun n d => if n < 10000 then 10 * n + Text.digitValue d else 10000) 0

/-- The number that a text writes, with or without a fraction and an exponent. -/
def numberOf? (s : String) : Option Cell :=
  let trimmed := ((s.toList.dropWhile Text.isGap).reverse.dropWhile Text.isGap).reverse
  let (negative, cs) := match trimmed with
    | '-' :: cs => (true, cs)
    | '+' :: cs => (false, cs)
    | cs => (false, cs)
  let whole := cs.takeWhile Char.isDigit
  let rest := cs.drop whole.length
  let (fraction, rest) := match rest with
    | '.' :: rest => (rest.takeWhile Char.isDigit, rest.dropWhile Char.isDigit)
    | rest => ([], rest)
  let (shrinks, exponent, rest) : Bool × List Char × List Char := match rest with
    | 'e' :: '-' :: rest | 'E' :: '-' :: rest =>
      (true, rest.takeWhile Char.isDigit, rest.dropWhile Char.isDigit)
    | 'e' :: '+' :: rest | 'E' :: '+' :: rest | 'e' :: rest | 'E' :: rest =>
      (false, rest.takeWhile Char.isDigit, rest.dropWhile Char.isDigit)
    | rest => (false, ['0'], rest)
  if !rest.isEmpty || exponent.isEmpty || (whole.isEmpty && fraction.isEmpty) then Option.none
  else if whole.length = cs.length then
    let n : Int := Text.digitsValue whole
    some (ofInt (if negative then -n else n))
  else
    let power : Int := if shrinks then -(exponentOf exponent : Int) else exponentOf exponent
    let x := Real.ofDigits whole fraction power
    some (real (if negative then -x else x))

/-- The value as text; bytes are taken as UTF-8. -/
def asText : Cell → Cell
  | null => null
  | integer n => text (toString n.toInt)
  | real x => text (Real.text x)
  | text s => text s
  | blob bs => text (Text.ofBytes bs)

def stored (affinity : Affinity) (cell : Cell) : Cell :=
  match affinity, cell with
  | .numeric, text s =>
    match numberOf? s with
    | some (real x) => ((wholeOf? x).map integer).getD (real x)
    | some number => number
    | Option.none => text s
  | .numeric, real x => ((wholeOf? x).map integer).getD (real x)
  | .text, integer n => text (toString n.toInt)
  | .text, real x => text (Real.text x)
  | _, cell => cell

/-- Whether a stored value is less than, equal to or greater than a whole number; a null is neither.
Texts and bytes are greater than all numbers. -/
def compareInteger? (cell : Cell) (n : Int64) : Option Ordering :=
  match cell with
  | null => Option.none
  | integer m => some (compare m.toInt n.toInt)
  | real x =>
    let y := Float.ofInt n.toInt
    some (if x < y then .lt else if x == y then .eq else .gt)
  | text _ | blob _ => some .gt

end Cell

end Embedded

end SqlBatch
