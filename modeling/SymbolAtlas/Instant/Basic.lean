/-! Points in time, to the nanosecond, in universal time. The calendar is the Gregorian one, carried
back before its adoption; a leap second belongs to the second before it and adds a whole second of
nanoseconds. -/
namespace SymbolAtlas

structure Instant where
  /-- Seconds since the start of 1970. -/
  second : Int
  nano : Nat
  deriving DecidableEq, Repr

namespace Instant

structure Date where
  year : Int
  month : Nat
  day : Nat
  deriving DecidableEq, Repr

def isLeapYear (year : Int) : Bool := year % 4 == 0 && (year % 100 != 0 || year % 400 == 0)

def daysInMonth (year : Int) (month : Nat) : Nat :=
  if month = 2 then (if isLeapYear year then 29 else 28)
  else if month = 4 || month = 6 || month = 9 || month = 11 then 30
  else 31

/-- Days from the first of March of the year 0 to the first day of a year that starts in March. -/
def marchYearStart (year : Int) : Int := 365 * year + year / 4 - year / 100 + year / 400

def marchMonthStart (month : Nat) : Nat := (153 * month + 2) / 5

/-- Days from the first of March of the year 0 to the start of 1970. -/
def epochDay : Int := 719468

def Date.toDay (d : Date) : Int :=
  let early := d.month ≤ 2
  let year := if early then d.year - 1 else d.year
  let month := if early then d.month + 9 else d.month - 3
  marchYearStart year + marchMonthStart month + (d.day - 1 : Nat) - epochDay

/-- Four hundred years are 146097 days; within them the year is found by taking out leap days. -/
def Date.ofDay (day : Int) : Date :=
  let day := day + epochDay
  let era := day / 146097
  let dayOfEra := day % 146097
  let yearOfEra :=
    (dayOfEra - dayOfEra / 1460 + dayOfEra / 36524 - dayOfEra / 146096) / 365
  let dayOfYear := (dayOfEra - marchYearStart yearOfEra).toNat
  let month := (5 * dayOfYear + 2) / 153
  let year := yearOfEra + 400 * era
  ⟨if month < 10 then year else year + 1,
    if month < 10 then month + 3 else month - 9,
    dayOfYear - marchMonthStart month + 1⟩

def date (t : Instant) : Date := .ofDay (t.second / 86400)

def secondOfDay (t : Instant) : Nat := (t.second % 86400).toNat

def hour (t : Instant) : Nat := t.secondOfDay / 3600

def minute (t : Instant) : Nat := t.secondOfDay / 60 % 60

/-- Sixty in a leap second. -/
def secondOfMinute (t : Instant) : Nat := t.secondOfDay % 60 + t.nano / 1000000000

def padded (width n : Nat) : List Char :=
  let digits := Nat.toDigits 10 n
  List.replicate (width - digits.length) '0' ++ digits

/-- Four digits at least. A year that they cannot hold, or before the year 0, has a sign. -/
def yearText (year : Int) : List Char :=
  if 0 ≤ year && year ≤ 9999 then padded 4 year.toNat
  else (if year < 0 then '-' else '+') :: padded 4 year.natAbs

def dateText (t : Instant) : List Char :=
  yearText t.date.year ++ '-' :: padded 2 t.date.month ++ '-' :: padded 2 t.date.day

def timeText (t : Instant) : List Char :=
  padded 2 t.hour ++ ':' :: padded 2 t.minute ++ ':' :: padded 2 t.secondOfMinute

/-- No digits, or as many groups of three as the fraction needs. -/
def fractionText (t : Instant) : List Char :=
  let nano := t.nano % 1000000000
  if nano = 0 then []
  else if nano % 1000000 = 0 then '.' :: padded 3 (nano / 1000000)
  else if nano % 1000 = 0 then '.' :: padded 6 (nano / 1000)
  else '.' :: padded 9 nano

def text (t : Instant) : String :=
  String.ofList (t.dateText ++ 'T' :: t.timeText ++ t.fractionText ++ ['Z'])

def day (t : Instant) : String := String.ofList t.dateText

def brief (t : Instant) : String := String.ofList (t.dateText ++ ' ' :: t.timeText)

end Instant

end SymbolAtlas
