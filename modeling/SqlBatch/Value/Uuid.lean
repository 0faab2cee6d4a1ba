import SqlBatch.Text.Character
import SqlBatch.Text.Digits

/-!
# Universally unique identifiers

A number of 128 bits, written as thirty-two hexadecimal digits in five groups.
-/

namespace SqlBatch

/-- A number of 128 bits that names one thing everywhere. -/
structure Uuid where
  bits : BitVec 128
  deriving DecidableEq, Repr

namespace Uuid

def groups : List Nat := [8, 4, 4, 4, 12]

def ofDigits? (digits : List Char) : Option Uuid :=
  if digits.length = 32 then (Text.hexNumber? digits).map fun n => ⟨BitVec.ofNat 128 n⟩ else none

/-- Cuts a text into groups with a hyphen between each two. -/
def splitGroups : List Nat → List Char → Option (List (List Char))
  | [], cs => if cs.isEmpty then some [] else none
  | [n], cs => if cs.length = n then some [cs] else none
  | n :: ns, cs =>
    match cs.drop n with
    | '-' :: rest => (splitGroups ns rest).map (cs.take n :: ·)
    | _ => none

/-- The identifier that a text writes: the bare digits, or five groups with hyphens, which may stand
in braces or after the name of the scheme in any case. -/
def parse? (s : String) : Option Uuid :=
  let cs := s.toList
  let hyphenated (cs : List Char) : Option Uuid := do
    let parts ← splitGroups groups cs
    ofDigits? parts.flatten
  if cs.length = 32 then ofDigits? cs
  else if cs.length = 36 then hyphenated cs
  else if cs.length = 38 then
    if cs.head? = some '\x7b' ∧ cs.getLast? = some '\x7d' then hyphenated (cs.drop 1).dropLast
    else none
  else if Text.sameWord (cs.take 9) "urn:uuid:".toList then hyphenated (cs.drop 9)
  else none

def groupTexts : List Nat → List Char → List (List Char)
  | [], _ => []
  | n :: ns, cs => cs.take n :: groupTexts ns (cs.drop n)

def text (u : Uuid) : List Char :=
  let digits := Text.hexDigits u.bits.toNat
  let all := List.replicate (32 - digits.length) '0' ++ digits
  ['-'].intercalate (groupTexts groups all)

end Uuid

end SqlBatch
