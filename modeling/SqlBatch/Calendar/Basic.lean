import SqlBatch.Decimal.Layout

/-!
# Dates and times

Days of the Gregorian calendar, extended to all years in both directions, and times of the day down
to the nanosecond. A leap second is the last second of a minute with more than a thousand million
nanoseconds.
-/

namespace SqlBatch

namespace Calendar

def isLeapYear (year : Int) : Bool :=
  year % 4 == 0 && (year % 100 != 0 || year % 400 == 0)

def daysInMonth (year : Int) (month : Nat) : Nat :=
  if month = 2 then if isLeapYear year then 29 else 28
  else if month = 4 ∨ month = 6 ∨ month = 9 ∨ month = 11 then 30
  else 31

def yearRange : Int × Int := (-262143, 262142)

def isDay (year : Int) (month day : Nat) : Bool :=
  yearRange.1 ≤ year && year ≤ yearRange.2 && 1 ≤ month && month ≤ 12 && 1 ≤ day &&
    day ≤ daysInMonth year month

structure Date where
  year : Int
  month : Nat
  day : Nat
  isDay : isDay year month day = true
  deriving DecidableEq, Repr

def Date.of? (year : Int) (month day : Nat) : Option Date :=
  if h : Calendar.isDay year month day = true then some ⟨year, month, day, h⟩ else none

def Date.next? (d : Date) : Option Date :=
  if d.day < daysInMonth d.year d.month then of? d.year d.month (d.day + 1)
  else if d.month < 12 then of? d.year (d.month + 1) 1
  else of? (d.year + 1) 1 1

def Date.previous? (d : Date) : Option Date :=
  if 1 < d.day then of? d.year d.month (d.day - 1)
  else if 1 < d.month then of? d.year (d.month - 1) (daysInMonth d.year (d.month - 1))
  else of? (d.year - 1) 12 31

/-- A time of the day. In the last second of a minute the nanoseconds may run on through a leap
second. -/
structure Time where
  hour : Nat
  minute : Nat
  second : Nat
  nanosecond : Nat
  inRange : hour < 24 ∧ minute < 60 ∧ second < 60 ∧
    (nanosecond < 1000000000 ∨ second = 59 ∧ nanosecond < 2000000000)
  deriving DecidableEq, Repr

/-- The time with the given numbers, where second sixty is a leap second. -/
def Time.of? (hour minute second nanosecond : Nat) : Option Time :=
  let (second, nanosecond) :=
    if second = 60 then (59, nanosecond + 1000000000) else (second, nanosecond)
  if h : hour < 24 ∧ minute < 60 ∧ second < 60 ∧
      (nanosecond < 1000000000 ∨ second = 59 ∧ nanosecond < 2000000000) then
    some ⟨hour, minute, second, nanosecond, h⟩
  else none

structure DateTime where
  date : Date
  time : Time
  deriving DecidableEq, Repr

/-- The same moment on clocks that are a number of minutes behind. -/
def DateTime.minus? (t : DateTime) (minutes : Int) : Option DateTime :=
  let total : Int := 60 * t.time.hour + t.time.minute - minutes
  let date? :=
    if total < 0 then t.date.previous? else if 1440 ≤ total then t.date.next? else some t.date
  let minuteOfDay := (total % 1440).toNat
  if h : minuteOfDay / 60 < 24 ∧ minuteOfDay % 60 < 60 ∧ t.time.second < 60 ∧
      (t.time.nanosecond < 1000000000 ∨ t.time.second = 59 ∧ t.time.nanosecond < 2000000000) then
    date?.map fun date =>
      ⟨date, ⟨minuteOfDay / 60, minuteOfDay % 60, t.time.second, t.time.nanosecond, h⟩⟩
  else none

/-! ### Written forms -/

def padded (width n : Nat) : List Char :=
  let digits := Decimal.decimalDigits n
  List.replicate (width - digits.length) '0' ++ digits

/-- Year, month and day between hyphens. A year that does not have four digits carries its sign. -/
def Date.text (d : Date) : List Char :=
  let year := if 0 ≤ d.year ∧ d.year ≤ 9999 then padded 4 d.year.toNat
    else (if d.year < 0 then '-' else '+') :: padded 4 d.year.natAbs
  year ++ '-' :: padded 2 d.month ++ '-' :: padded 2 d.day

/-- Hours, minutes and seconds between colons, and as many groups of three digits of the second as
it takes. -/
def Time.text (t : Time) : List Char :=
  let second := t.second + t.nanosecond / 1000000000
  let fraction := t.nanosecond % 1000000000
  let digits :=
    if fraction = 0 then []
    else if fraction % 1000000 = 0 then '.' :: padded 3 (fraction / 1000000)
    else if fraction % 1000 = 0 then '.' :: padded 6 (fraction / 1000)
    else '.' :: padded 9 fraction
  padded 2 t.hour ++ ':' :: padded 2 t.minute ++ ':' :: padded 2 second ++ digits

def DateTime.text (separator : Char) (t : DateTime) : List Char :=
  t.date.text ++ separator :: t.time.text

end Calendar

end SqlBatch
