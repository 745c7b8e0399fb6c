import Datebook.Text.Blank
import Datebook.Text.Decimal
import Datebook.Time.Instant

/-!
# Timestamps

Instants as text. Written, an instant is in UTC with `Z`, has a fraction of 0, 3, 6 or 9 digits, the
fewest that are exact, and shows a leap second as second 60; a year that does not have four digits
has a sign. Read, the parts may have one digit and blanks before them, the fraction any number of
digits, and the zone may be `Z`, `UTC` or an offset.
-/

namespace Datebook

namespace Instant

/-- A year of four digits, or with a sign and at least four. -/
def yearText (y : Int) : List Char :=
  let n := y.natAbs
  let digits := fixedDigits (if n < 10000 then 4 else if n < 100000 then 5 else 6) n
  if y < 0 then '-' :: digits else if 9999 < y then '+' :: digits else digits

/-- The fewest of 0, 3, 6 and 9 digits that show these nanoseconds. -/
def fractionText (nano : Nat) : List Char :=
  if nano = 0 then []
  else if nano % 1000000 = 0 then '.' :: fixedDigits 3 (nano / 1000000)
  else if nano % 1000 = 0 then '.' :: fixedDigits 6 (nano / 1000)
  else '.' :: fixedDigits 9 nano

def chars (t : Instant) : List Char :=
  let d := t.date
  let leap := if t.IsOrdinary then 0 else 1
  yearText d.year ++ '-' :: fixedDigits 2 d.month ++ '-' :: fixedDigits 2 d.day
    ++ 'T' :: fixedDigits 2 t.hour ++ ':' :: fixedDigits 2 t.minute
    ++ ':' :: fixedDigits 2 (t.secondOfDay % 60 + leap)
    ++ fractionText (t.nano % 1000000000) ++ ['Z']

def text (t : Instant) : String := String.ofList t.chars

/-- The hour and minute, as `12:08`. -/
def clockText (t : Instant) : String :=
  String.ofList (fixedDigits 2 t.hour ++ ':' :: fixedDigits 2 t.minute)

/-- Steps over one character. -/
def expect? (c : Char) : List Char → Option (List Char)
  | [] => none
  | d :: s => if d = c then some s else none

/-- A year: four digits at most, or a sign and any number of them. -/
def readYear? (s : List Char) : Option (Int × List Char) :=
  match s with
  | '-' :: s => (readNat? s.length s).map fun (n, s) => (-(n : Int), s)
  | '+' :: s => (readNat? s.length s).map fun (n, s) => ((n : Int), s)
  | s => (readNat? 4 s).map fun (n, s) => ((n : Int), s)

/-- A part of one or two digits, after blanks. -/
def readPart? (s : List Char) : Option (Nat × List Char) := readNat? 2 (skipBlanks s)

/-- A part after blanks and a mark. -/
def readMarkedPart? (mark : Char) (s : List Char) : Option (Nat × List Char) :=
  (expect? mark (skipBlanks s)).bind readPart?

def readDate? (s : List Char) : Option (Date × List Char) := do
  let (year, s) ← readYear? (skipBlanks s)
  let (month, s) ← readMarkedPart? '-' s
  let (day, s) ← readMarkedPart? '-' s
  return (⟨year, month, day⟩, s)

/-- The nanoseconds of a fraction, of which the first nine digits count; 0 if there is none. -/
def readFraction? : List Char → Option (Nat × List Char)
  | '.' :: s =>
    (takeDigits? 9 s).map fun (digits, s) =>
      (natOfDigits digits * tenTo (9 - digits.length), s.dropWhile Char.isDigit)
  | s => some (0, s)

/-- Seconds and nanoseconds since the day began. -/
def readTime? (s : List Char) : Option (Nat × Nat × List Char) := do
  let (hour, s) ← readPart? s
  let (minute, s) ← readMarkedPart? ':' s
  let (second, s) ← readMarkedPart? ':' s
  let (nano, s) ← readFraction? s
  if hour ≤ 23 ∧ minute ≤ 59 ∧ second ≤ 60 then
    let leap := second - 59
    some (hour * 3600 + minute * 60 + (second - leap), nano + leap * 1000000000, s)
  else none

/-- Exactly two digits. -/
def readPair? : List Char → Option (Nat × List Char)
  | a :: b :: s =>
    if a.isDigit ∧ b.isDigit then some (digitValue a * 10 + digitValue b, s) else none
  | _ => none

/-- The seconds of an offset after its sign: two digits of hours, colons and blanks, and two of
minutes. -/
def readOffset? (s : List Char) : Option (Nat × List Char) := do
  let (hours, s) ← readPair? s
  let (minutes, s) ← readPair? (s.dropWhile fun c => c == ':' || isBlankChar c)
  if hours < 24 ∧ minutes < 60 then some (hours * 3600 + minutes * 60, s) else none

/-- The seconds by which the local time is ahead of UTC. -/
def readZone? (s : List Char) : Option (Int × List Char) :=
  match s with
  | [] => none
  | c :: rest =>
    if c = 'Z' ∨ c = 'z' then some (0, rest)
    else if (s.take 3).map Char.toUpper = ['U', 'T', 'C'] then some (0, s.drop 3)
    else if c = '+' then (readOffset? rest).map fun (n, s) => ((n : Int), s)
    else if c = '-' ∨ c = '\u2212' then (readOffset? rest).map fun (n, s) => (-(n : Int), s)
    else none

/-- The mark between the date and the time. -/
def readGap? : List Char → Option (List Char)
  | c :: s => if c = 'T' ∨ c = 't' ∨ c = ' ' then some s else none
  | [] => none

/-- The years that have both their ends on the calendar. -/
def firstYear : Int := -262143
def lastYear : Int := 262142

def ofChars? (s : List Char) : Option Instant := do
  let (date, s) ← readDate? s
  let s ← readGap? s
  let (second, nano, s) ← readTime? s
  let (offset, s) ← readZone? (skipBlanks s)
  if date.Exists ∧ firstYear ≤ date.year ∧ date.year ≤ lastYear ∧ s.all isBlankChar then
    mk? (date.dayNumber * 86400 + second - offset) nano
  else none

def ofText? (s : String) : Option Instant := ofChars? s.toList

end Instant

end Datebook
