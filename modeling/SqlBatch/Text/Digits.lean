/-!
# Digits

Numbers as digits write them, in base ten and in base sixteen.
-/

namespace SqlBatch

namespace Text

def digitValue (d : Char) : Nat := d.toNat - '0'.toNat

def digitsValue (digits : List Char) : Nat := digits.foldl (fun n d => 10 * n + digitValue d) 0

def hexDigits (n : Nat) : List Char := Nat.toDigits 16 n

def hexValue? (c : Char) : Option Nat :=
  if c.isDigit then some (c.toNat - '0'.toNat)
  else if 'a' ≤ c ∧ c ≤ 'f' then some (c.toNat - 'a'.toNat + 10)
  else if 'A' ≤ c ∧ c ≤ 'F' then some (c.toNat - 'A'.toNat + 10)
  else none

def hexNumber? (digits : List Char) : Option Nat :=
  digits.foldlM (fun n c => (hexValue? c).map (16 * n + ·)) 0

def charOf? (n : Nat) : Option Char :=
  if h : n.isValidChar then some (Char.ofNatAux n h) else none

end Text

end SqlBatch
