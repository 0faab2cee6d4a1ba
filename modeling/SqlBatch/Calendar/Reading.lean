import SqlBatch.Calendar.Basic
import SqlBatch.Text.Character
import SqlBatch.Text.Digits

/-!
# Reading dates and times

The readers are lenient about blanks: they may stand before each number and around the marks between
numbers. Leading zeros may be left out, and a year with a sign may have any number of digits. Each
reader answers with what it read and the text after it.
-/

namespace SqlBatch

namespace Calendar

open Text

/-- A number of at least one digit, and of no more digits than allowed. -/
def readNumber (most : Option Nat) (cs : List Char) : Option (Nat × List Char) :=
  let all := cs.takeWhile Char.isDigit
  let digits := match most with
    | some n => all.take n
    | none => all
  if digits.isEmpty then none else some (digitsValue digits, cs.drop digits.length)

/-- A number of one or two digits after any blanks. -/
def readPair (cs : List Char) : Option (Nat × List Char) := readNumber (some 2) (trimStart cs)

def readMark (mark : Char) (cs : List Char) : Option (List Char) :=
  match trimStart cs with
  | c :: rest => if c = mark then some rest else none
  | [] => none

def readYear (cs : List Char) : Option (Int × List Char) :=
  match trimStart cs with
  | '-' :: rest => (readNumber none rest).map fun (n, rest) => (-(n : Int), rest)
  | '+' :: rest => (readNumber none rest).map fun (n, rest) => ((n : Int), rest)
  | rest => (readNumber (some 4) rest).map fun (n, rest) => ((n : Int), rest)

def readDate (cs : List Char) : Option (Date × List Char) := do
  let (year, cs) ← readYear cs
  let cs ← readMark '-' cs
  let (month, cs) ← readPair cs
  let cs ← readMark '-' cs
  let (day, cs) ← readPair cs
  let date ← Date.of? year month day
  some (date, cs)

/-- The nanoseconds after a point; digits after the ninth are passed over. Without a point there are
none. -/
def readFraction : List Char → Option (Nat × List Char)
  | '.' :: cs =>
    let all := cs.takeWhile Char.isDigit
    let digits := all.take 9
    if digits.isEmpty then none
    else some (digitsValue digits * Decimal.tenTo (9 - digits.length), cs.drop all.length)
  | cs => some (0, cs)

def readClock (cs : List Char) : Option ((Nat × Nat) × List Char) := do
  let (hour, cs) ← readPair cs
  let cs ← readMark ':' cs
  let (minute, cs) ← readPair cs
  if hour < 24 ∧ minute < 60 then some ((hour, minute), cs) else none

/-- Seconds with their fraction, after a colon, and the text after any blanks. -/
def readSeconds (cs : List Char) : Option ((Nat × Nat) × List Char) := do
  let cs ← readMark ':' cs
  let (second, cs) ← readPair cs
  let (nanosecond, cs) ← readFraction cs
  if second ≤ 60 then some ((second, nanosecond), trimStart cs) else none

/-- A time with seconds, and the text after any blanks. -/
def readTime (cs : List Char) : Option (Time × List Char) := do
  let ((hour, minute), cs) ← readClock cs
  let ((second, nanosecond), cs) ← readSeconds cs
  let time ← Time.of? hour minute second nanosecond
  some (time, cs)

def Date.parse? (s : String) : Option Date := do
  let (date, rest) ← readDate s.toList
  if (trimStart rest).isEmpty then some date else none

/-- The time that a text writes; the seconds may be left out. -/
def Time.parse? (s : String) : Option Time := do
  let ((hour, minute), rest) ← readClock s.toList
  let ((second, nanosecond), rest) := (readSeconds rest).getD ((0, 0), rest)
  let time ← Time.of? hour minute second nanosecond
  if (trimStart rest).isEmpty then some time else none

/-- The date and time that a text writes, with a capital T between them. -/
def DateTime.parse? (s : String) : Option DateTime := do
  let (date, rest) ← readDate s.toList
  let rest ← readMark 'T' rest
  let (time, rest) ← readTime rest
  if rest.isEmpty then some ⟨date, time⟩ else none

/-- The minutes that a clock is ahead of universal time: a Z, the letters UTC, or a sign with hours
and minutes. -/
def readOffset (cs : List Char) : Option (Int × List Char) :=
  if sameWord (cs.take 3) ['u', 't', 'c'] then some (0, cs.drop 3)
  else
    match cs with
    | [] => none
    | c :: rest =>
      if c == 'Z' || c == 'z' then some (0, rest)
      else if c == '+' || c == '-' || c == '\u2212' then do
        let hours := rest.take 2
        let after := (rest.drop 2).dropWhile fun c => c == ':' || isBlank c
        let minutes := after.take 2
        if hours.length = 2 ∧ hours.all Char.isDigit ∧ minutes.length = 2 ∧
            minutes.all Char.isDigit ∧ digitsValue minutes < 60 then
          let total : Int := 60 * digitsValue hours + digitsValue minutes
          some (if c == '+' then total else -total, after.drop 2)
        else none
      else none

/-- The moment that a text writes, as date and time of universal time. Date and time are apart by a
T in either case or by a space. -/
def DateTime.parseUtc? (s : String) : Option DateTime := do
  let (date, rest) ← readDate s.toList
  match rest with
  | c :: rest =>
    if c == 't' || c == 'T' || c == ' ' then
      let (time, rest) ← readTime rest
      let (offset, rest) ← readOffset rest
      if (trimStart rest).isEmpty ∧ -1440 < offset ∧ offset < 1440 then
        (⟨date, time⟩ : DateTime).minus? offset
      else none
    else none
  | [] => none

end Calendar

end SqlBatch
