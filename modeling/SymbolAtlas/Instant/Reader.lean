import SymbolAtlas.Instant.Basic
import SymbolAtlas.Text.Alphabet
import SymbolAtlas.Text.Line

/-! Reading an instant. Blanks may stand in front of every number and mark, numbers may lack leading
zeros, and the time may be that of any offset from universal time. -/
namespace SymbolAtlas.Instant

def skip (s : List Char) : List Char := s.dropWhile Text.isBlank

/-- At least one digit, and no more than `width`. -/
def number? (width : Nat) (s : List Char) : Option (Nat × List Char) :=
  let digits := (s.take width).takeWhile Text.isDecimal
  if digits.isEmpty then none else some (Text.decimalValue digits, s.drop digits.length)

def part? (s : List Char) : Option (Nat × List Char) := number? 2 (skip s)

def mark? (c : Char) (s : List Char) : Option (List Char) := Text.after? [c] (skip s)

/-- Four digits at most, or any number of them after a sign. -/
def year? : List Char → Option (Int × List Char)
  | '-' :: s => (number? s.length s).map (fun r => (-(r.1 : Int), r.2))
  | '+' :: s => (number? s.length s).map (fun r => ((r.1 : Int), r.2))
  | s => (number? 4 s).map (fun r => ((r.1 : Int), r.2))

/-- Digits after the ninth are read and dropped. -/
def fraction? : List Char → Option (Nat × List Char)
  | '.' :: s =>
    let digits := (s.take 9).takeWhile Text.isDecimal
    if digits.isEmpty then none
    else
      some (Text.decimalValue (digits ++ List.replicate (9 - digits.length) '0'),
        s.dropWhile Text.isDecimal)
  | s => some (0, s)

def twoDigits? (tens : Char → Bool) : List Char → Option (Nat × List Char)
  | a :: b :: s =>
    if tens a && Text.isDecimal b then some (Text.decimalValue [a, b], s) else none
  | _ => none

/-- Hours and minutes, in seconds. Any colons and blanks may stand between them. -/
def offsetMagnitude? (s : List Char) : Option (Nat × List Char) := do
  let (hours, s) ← twoDigits? Text.isDecimal s
  let s := s.dropWhile (fun c => c == ':' || Text.isBlank c)
  let (minutes, s) ← twoDigits? (fun c => '0' ≤ c && c ≤ '5') s
  return (hours * 3600 + minutes * 60, s)

/-- `Z`, `UTC` in any case, or a signed offset. -/
def offset? (s : List Char) : Option (Int × List Char) :=
  if (s.take 3).map Char.toUpper = ['U', 'T', 'C'] then some (0, s.drop 3)
  else
    match s with
    | [] => none
    | c :: rest =>
      if c = 'Z' || c = 'z' then some (0, rest)
      else if c = '+' then (offsetMagnitude? rest).map (fun r => ((r.1 : Int), r.2))
      else if c = '-' || c = '\u2212' then
        (offsetMagnitude? rest).map (fun r => (-(r.1 : Int), r.2))
      else none

/-- Years that have a calendar here. -/
def isYear (year : Int) : Bool := -262143 ≤ year && year ≤ 262142

/-- A local time at an offset, if it is one and the universal day has a calendar too. -/
def ofLocal? (date : Date) (hour minute second nano : Nat) (offset : Int) : Option Instant :=
  if isYear date.year && 1 ≤ date.month && date.month ≤ 12 && 1 ≤ date.day &&
      date.day ≤ daysInMonth date.year date.month && hour < 24 && minute < 60 && second ≤ 60 &&
      offset.natAbs < 86400 then
    let t : Instant :=
      if second = 60 then
        ⟨date.toDay * 86400 + (hour * 3600 + minute * 60 + 59 : Nat) - offset,
          nano + 1000000000⟩
      else ⟨date.toDay * 86400 + (hour * 3600 + minute * 60 + second : Nat) - offset, nano⟩
    if isYear t.date.year then some t else none
  else none

def read? (text : String) : Option Instant := do
  let (year, s) ← year? (skip text.toList)
  let s ← mark? '-' s
  let (month, s) ← part? s
  let s ← mark? '-' s
  let (day, s) ← part? s
  let s ←
    match s with
    | c :: rest => if c = 'T' || c = 't' || c = ' ' then some rest else none
    | [] => none
  let (hour, s) ← part? s
  let s ← mark? ':' s
  let (minute, s) ← part? s
  let s ← mark? ':' s
  let (second, s) ← part? s
  let (nano, s) ← fraction? s
  let (offset, s) ← offset? (skip s)
  if Text.allBlank s then ofLocal? ⟨year, month, day⟩ hour minute second nano offset else none

end SymbolAtlas.Instant
