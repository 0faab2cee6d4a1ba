import SqlBatch.Text.Digits

/-!
# Text from bytes

Bytes that need not be UTF-8 are read from left to right. Each longest piece that begins like a
character without being one stands for one replacement character.
-/

namespace SqlBatch

namespace Text

/-- A character of which the first bytes were read: the bits so far, the number of bytes to come,
and the bounds of the next one. -/
structure Partial where
  bits : Nat
  remaining : Nat
  low : Nat := 0x80
  high : Nat := 0xbf
  deriving DecidableEq, Repr

/-- What is read so far of a character with more than one byte, after its first byte. -/
def Partial.ofLead? (b : Nat) : Option Partial :=
  if 0xc2 ≤ b ∧ b ≤ 0xdf then some { bits := b - 0xc0, remaining := 1 }
  else if b = 0xe0 then some { bits := 0, remaining := 2, low := 0xa0 }
  else if b = 0xed then some { bits := 0xd, remaining := 2, high := 0x9f }
  else if 0xe1 ≤ b ∧ b ≤ 0xef then some { bits := b - 0xe0, remaining := 2 }
  else if b = 0xf0 then some { bits := 0, remaining := 3, low := 0x90 }
  else if 0xf1 ≤ b ∧ b ≤ 0xf3 then some { bits := b - 0xf0, remaining := 3 }
  else if b = 0xf4 then some { bits := 4, remaining := 3, high := 0x8f }
  else none

def replacement : Char := '\ufffd'

/-- A byte at the start of a character: the characters that it completes, and what is read so far of
another one. -/
def startChar (b : Nat) : List Char × Option Partial :=
  if b < 0x80 then ([Char.ofNat b], none)
  else
    match Partial.ofLead? b with
    | some p => ([], some p)
    | none => ([replacement], none)

/-- One more byte of a character. -/
def continueChar (p : Partial) (b : Nat) : List Char × Option Partial :=
  if p.low ≤ b ∧ b ≤ p.high then
    let bits := 64 * p.bits + (b - 0x80)
    if p.remaining ≤ 1 then ([(charOf? bits).getD replacement], none)
    else ([], some { bits, remaining := p.remaining - 1 })
  else
    match startChar b with
    | (chars, next) => (replacement :: chars, next)

/-- The characters of bytes, given what is read so far of one. -/
def decodeFrom : Option Partial → List UInt8 → List Char
  | none, [] => []
  | some _, [] => [replacement]
  | none, b :: bs =>
    match startChar b.toNat with
    | (chars, next) => chars ++ decodeFrom next bs
  | some p, b :: bs =>
    match continueChar p b.toNat with
    | (chars, next) => chars ++ decodeFrom next bs

def ofBytes (bytes : List UInt8) : String := String.ofList (decodeFrom none bytes)

end Text

end SqlBatch
