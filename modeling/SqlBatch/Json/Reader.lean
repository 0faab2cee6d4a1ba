import SqlBatch.Json.Basic
import SqlBatch.Decimal.Reading
import SqlBatch.Text.Digits

/-!
# Reading JSON text

A whole number that fits into 64 bits, with or without a sign, is read as one; any other number is a
double, and so is a negative zero. The readers answer with a value and the text after it. Each of
their calls uses up one unit of fuel, and twice the length of the text is enough.
-/

namespace SqlBatch

namespace Json

open Text (digitsValue hexNumber? charOf?)

def isBlank (c : Char) : Bool := c == ' ' || c == '\n' || c == '\t' || c == '\r'

def skipBlanks (cs : List Char) : List Char := cs.dropWhile isBlank

/-- The characters of a string after its opening quote, and the text after its closing one. -/
def readString : Nat → List Char → List Char → Option (List Char × List Char)
  | 0, _, _ => none
  | _ + 1, read, '"' :: cs => some (read.reverse, cs)
  | fuel + 1, read, '\\' :: 'u' :: a :: b :: c :: d :: cs => do
    let unit ← hexNumber? [a, b, c, d]
    if 0xd800 ≤ unit ∧ unit < 0xdc00 then
      match cs with
      | '\\' :: 'u' :: e :: f :: g :: h :: cs =>
        let low ← hexNumber? [e, f, g, h]
        if 0xdc00 ≤ low ∧ low < 0xe000 then
          let char ← charOf? (0x10000 + (unit - 0xd800) * 0x400 + (low - 0xdc00))
          readString fuel (char :: read) cs
        else none
      | _ => none
    else
      let char ← charOf? unit
      readString fuel (char :: read) cs
  | fuel + 1, read, '\\' :: c :: cs => do
    let char ← [('"', '"'), ('\\', '\\'), ('/', '/'), ('b', '\x08'), ('f', '\x0c'), ('n', '\n'),
      ('r', '\r'), ('t', '\t')].lookup c
    readString fuel (char :: read) cs
  | fuel + 1, read, c :: cs => if c.val < 0x20 then none else readString fuel (c :: read) cs
  | _, _, [] => none

/-- The digits after a point, and the text after them; a point needs at least one digit. -/
def readFraction : List Char → Option (Option (List Char) × List Char)
  | '.' :: cs =>
    let digits := cs.takeWhile Char.isDigit
    if digits.isEmpty then none else some (some digits, cs.drop digits.length)
  | cs => some (none, cs)

/-- The exponent of a number, and the text after it; an exponent needs at least one digit. -/
def readExponent : List Char → Option (Option Int × List Char)
  | c :: cs =>
    if c == 'e' || c == 'E' then
      let (negative, rest) := match cs with
        | '-' :: rest => (true, rest)
        | '+' :: rest => (false, rest)
        | _ => (false, cs)
      let digits := rest.takeWhile Char.isDigit
      let value : Int := digitsValue digits
      if digits.isEmpty then none
      else some (some (if negative then -value else value), rest.drop digits.length)
    else some (none, c :: cs)
  | [] => some (none, [])

def readNumber (text : List Char) : Option (Json × List Char) := do
  let (negative, cs) := match text with
    | '-' :: cs => (true, cs)
    | cs => (false, cs)
  let whole := if cs.head? = some '0' then ['0'] else cs.takeWhile Char.isDigit
  if whole.isEmpty then none
  else
    let (fraction?, afterFraction) ← readFraction (cs.drop whole.length)
    let (exponent?, rest) ← readExponent afterFraction
    let value := digitsValue whole
    let isWhole := fraction?.isNone && exponent?.isNone &&
      if negative then decide (0 < value ∧ value ≤ Int64.minValue.toInt.natAbs)
      else decide (value < UInt64.size)
    if isWhole then some (.int (if negative then -(value : Int) else value), rest)
    else
      let x ← Decimal.ofDigits? whole (fraction?.getD []) (exponent?.getD 0)
      some (.float (if negative then -x else x), rest)

mutual

def readValue : Nat → List Char → Option (Json × List Char)
  | 0, _ => none
  | fuel + 1, text =>
    match skipBlanks text with
    | 'n' :: 'u' :: 'l' :: 'l' :: cs => some (.null, cs)
    | 't' :: 'r' :: 'u' :: 'e' :: cs => some (.bool true, cs)
    | 'f' :: 'a' :: 'l' :: 's' :: 'e' :: cs => some (.bool false, cs)
    | '"' :: cs =>
      (readString (cs.length + 1) [] cs).map fun (s, rest) => (.str (String.ofList s), rest)
    | '[' :: cs =>
      match skipBlanks cs with
      | ']' :: rest => some (.arr [], rest)
      | _ => (readItems fuel cs).map fun (items, rest) => (.arr items, rest)
    | '\x7b' :: cs =>
      match skipBlanks cs with
      | '\x7d' :: rest => some (.obj [], rest)
      | _ => (readFields fuel cs).map fun (fields, rest) => (.ofFields fields, rest)
    | cs => readNumber cs

def readItems : Nat → List Char → Option (List Json × List Char)
  | 0, _ => none
  | fuel + 1, cs => do
    let (item, rest) ← readValue fuel cs
    match skipBlanks rest with
    | ',' :: rest =>
      let (items, rest) ← readItems fuel rest
      some (item :: items, rest)
    | ']' :: rest => some ([item], rest)
    | _ => none

def readFields : Nat → List Char → Option (List (String × Json) × List Char)
  | 0, _ => none
  | fuel + 1, cs =>
    match skipBlanks cs with
    | '"' :: cs => do
      let (name, rest) ← readString (cs.length + 1) [] cs
      match skipBlanks rest with
      | ':' :: rest =>
        let (value, rest) ← readValue fuel rest
        match skipBlanks rest with
        | ',' :: rest =>
          let (fields, rest) ← readFields fuel rest
          some ((String.ofList name, value) :: fields, rest)
        | '\x7d' :: rest => some ([(String.ofList name, value)], rest)
        | _ => none
      | _ => none
    | _ => none

end

/-- The value that a text writes. -/
def parse? (s : String) : Option Json := do
  let cs := s.toList
  let (value, rest) ← readValue (2 * cs.length + 2) cs
  if (skipBlanks rest).isEmpty then some value else none

end Json

end SqlBatch
