import Slideshow.Decimal.Layout
import Slideshow.Decimal.Reader

/-! # Points in time

A timestamp is a number of seconds since 1970 and a part of a second. Its text gives date, time of
day and offset; two forms are read, one strict and one that allows blanks. -/

namespace Slideshow

/-- A point in time, in UTC. -/
structure Timestamp where
  /-- Seconds since 1970. -/
  seconds : Int
  /-- Nanoseconds after that; from a thousand million on, a second inserted after it. -/
  nanos : Nat
deriving Repr, DecidableEq

namespace Timestamp

/-- Why a text is not a timestamp. -/
inductive Fault where
  | outOfRange
  | invalid
  | tooShort
  | trailing
deriving Repr, DecidableEq

def Fault.message : Fault → String
  | .outOfRange => "input is out of range"
  | .invalid => "input contains invalid characters"
  | .tooShort => "premature end of input"
  | .trailing => "trailing input"

/-! ## The calendar -/

/-- Whether a year has 366 days. -/
def isLeap (year : Int) : Bool := year % 4 = 0 && (year % 100 ≠ 0 || year % 400 = 0)

/-- The number of days of a month. -/
def daysInMonth (year : Int) (month : Nat) : Nat :=
  if month = 2 then (if isLeap year then 29 else 28)
  else if month = 4 || month = 6 || month = 9 || month = 11 then 30 else 31

/-- Days since 1970. Years are counted from March, in cycles of 400 years. -/
def dayNumber (year : Int) (month day : Nat) : Int :=
  let y := if month ≤ 2 then year - 1 else year
  let cycle := y.fdiv 400
  let yearOfCycle := y - 400 * cycle
  let monthFromMarch : Int := (month + 9) % 12
  let dayOfYear := (153 * monthFromMarch + 2) / 5 + day - 1
  cycle * 146097 + yearOfCycle * 365 + yearOfCycle / 4 - yearOfCycle / 100 + dayOfYear - 719468

/-- Year, month and day of a number of days since 1970. -/
def civilDate (days : Int) : Int × Nat × Nat :=
  let z := days + 719468
  let cycle := z.fdiv 146097
  let dayOfCycle := z - cycle * 146097
  let yearOfCycle :=
    (dayOfCycle - dayOfCycle / 1460 + dayOfCycle / 36524 - dayOfCycle / 146096) / 365
  let dayOfYear := dayOfCycle - (365 * yearOfCycle + yearOfCycle / 4 - yearOfCycle / 100)
  let monthFromMarch := (5 * dayOfYear + 2) / 153
  let day := dayOfYear - (153 * monthFromMarch + 2) / 5 + 1
  let month := if monthFromMarch < 10 then monthFromMarch + 3 else monthFromMarch - 9
  let year := yearOfCycle + cycle * 400 + (if month ≤ 2 then 1 else 0)
  (year, month.toNat, day.toNat)

/-! ## Writing -/

/-- A number with at least `width` digits. -/
def padded (width n : Nat) : List Char :=
  let cs := Nat.toDigits 10 n
  Decimal.zeros (width - cs.length) ++ cs

/-- A year; those outside 0 to 9999 have a sign. -/
def yearText (year : Int) : List Char :=
  if 0 ≤ year && year ≤ 9999 then padded 4 year.toNat
  else (if year < 0 then '-' else '+') :: padded 4 year.natAbs

/-- The part of a second, in as many groups of three digits as it needs. -/
def fractionText (nanos : Nat) : List Char :=
  if nanos = 0 then []
  else if nanos % 1000000 = 0 then '.' :: padded 3 (nanos / 1000000)
  else if nanos % 1000 = 0 then '.' :: padded 6 (nanos / 1000)
  else '.' :: padded 9 nanos

/-- Date, time of day and the given text for the offset. -/
def textWith (offset : String) (t : Timestamp) : String :=
  let days := t.seconds.fdiv 86400
  let ofDay := (t.seconds - 86400 * days).toNat
  let (year, month, day) := civilDate days
  let inserted := if t.nanos < 1000000000 then 0 else 1
  String.ofList (yearText year ++ '-' :: padded 2 month ++ '-' :: padded 2 day ++ 'T' ::
    padded 2 (ofDay / 3600) ++ ':' :: padded 2 (ofDay / 60 % 60) ++ ':' ::
    padded 2 (ofDay % 60 + inserted) ++ fractionText (t.nanos % 1000000000)) ++ offset

/-- The text with the letter that stands for no offset. -/
def text (t : Timestamp) : String := t.textWith "Z"

/-- The text with an offset of zero. -/
def offsetText (t : Timestamp) : String := t.textWith "+00:00"

/-! ## Reading -/

/-- A number of at least `low` and at most `high` digits, and the rest. -/
def number (low high : Nat) (cs : List Char) : Except Fault (Nat × List Char) :=
  let digits := (cs.take high).takeWhile Char.isDigit
  if (String.ofList cs).utf8ByteSize < low then .error .tooShort
  else if digits.length < low then .error .invalid
  else .ok (Decimal.digitsValue digits, cs.drop digits.length)

/-- A given character. -/
def expect (c : Char) : List Char → Except Fault (List Char)
  | [] => .error .tooShort
  | d :: rest => if c = d then .ok rest else .error .invalid

/-- Refuses numbers outside a range. -/
def within (low high n : Nat) : Except Fault Unit :=
  if low ≤ n && n ≤ high then .ok () else .error .outOfRange

/-- Blanks, in the strict form none. -/
def blanks (lenient : Bool) (cs : List Char) : List Char :=
  if lenient then cs.dropWhile Char.isWhitespace else cs

/-- The digits after a point, as nanoseconds; more than nine are read and ignored. -/
def fraction (cs : List Char) : Except Fault (Nat × List Char) :=
  match cs with
  | '.' :: rest => do
    let digits := (rest.take 9).takeWhile Char.isDigit
    let (n, rest) ← number 1 9 rest
    return (n * Nat.pow 10 (9 - digits.length), rest.dropWhile Char.isDigit)
  | _ => .ok (0, cs)

/-- Two digits of an offset. -/
def twoDigits (cs : List Char) : Except Fault (Nat × List Char) :=
  match cs with
  | a :: b :: rest =>
    if a.isDigit && b.isDigit then .ok (Decimal.digitsValue [a, b], rest) else .error .invalid
  | _ => .error .tooShort

/-- The offset from UTC in seconds. -/
def offset (lenient : Bool) (cs : List Char) : Except Fault (Int × List Char) :=
  let signed (sign : Int) (cs : List Char) : Except Fault (Int × List Char) := do
    let (hours, cs) ← twoDigits cs
    let cs ←
      if lenient then .ok (cs.dropWhile fun c => c = ':' || c.isWhitespace) else expect ':' cs
    let (minutes, cs) ← twoDigits cs
    within 0 59 minutes
    return (sign * (hours * 3600 + minutes * 60), cs)
  match cs with
  | [] => .error .tooShort
  | 'Z' :: rest => .ok (0, rest)
  | 'z' :: rest => .ok (0, rest)
  | '+' :: rest => signed 1 rest
  | '-' :: rest => signed (-1) rest
  | '−' :: rest => signed (-1) rest
  | c :: d :: e :: rest =>
    if lenient && [c, d, e].map Char.toUpper = ['U', 'T', 'C'] then .ok (0, rest)
    else .error .invalid
  | _ => .error .invalid

/-- A year: four digits in the strict form, otherwise up to four, or any number after a sign. -/
def year (lenient : Bool) (cs : List Char) : Except Fault (Int × List Char) :=
  if lenient then
    match cs with
    | '-' :: rest => do
      let (n, rest) ← number 1 rest.length rest
      return (-(n : Int), rest)
    | '+' :: rest => do
      let (n, rest) ← number 1 rest.length rest
      return ((n : Int), rest)
    | _ => do
      let (n, rest) ← number 1 4 cs
      return ((n : Int), rest)
  else do
    let (n, rest) ← number 4 4 cs
    return ((n : Int), rest)

/-- Reads a timestamp. The lenient form allows blanks between the parts and numbers with fewer
digits. -/
def parse (lenient : Bool) (source : String) : Except Fault Timestamp := do
  let low := if lenient then 1 else 2
  let skip := blanks lenient
  let (year, cs) ← year lenient (skip source.toList)
  let cs ← expect '-' (skip cs)
  let (month, cs) ← number low 2 (skip cs)
  within 1 12 month
  let cs ← expect '-' (skip cs)
  let (day, cs) ← number low 2 (skip cs)
  within 1 31 day
  let cs ← match cs with
    | [] => throw .tooShort
    | c :: rest => if c = 'T' || c = 't' || c = ' ' then pure rest else throw .invalid
  let (hour, cs) ← number low 2 (skip cs)
  within 0 23 hour
  let cs ← expect ':' (skip cs)
  let (minute, cs) ← number low 2 (skip cs)
  within 0 59 minute
  let cs ← expect ':' (skip cs)
  let (second, cs) ← number low 2 (skip cs)
  within 0 60 second
  let (nanos, cs) ← fraction cs
  let (shift, cs) ← offset lenient (skip cs)
  if !(skip cs).isEmpty then throw .trailing
  if daysInMonth year month < day || 262142 < year.natAbs || 86400 ≤ shift.natAbs then
    throw .outOfRange
  let inserted := second = 60
  let ofDay : Int := hour * 3600 + minute * 60 + (if inserted then 59 else second)
  return { seconds := dayNumber year month day * 86400 + ofDay - shift
           nanos := nanos + (if inserted then 1000000000 else 0) }

end Timestamp

end Slideshow
