import Datebook.Settings.Value
import Datebook.Text.Decimal
import Datebook.Text.Escaped
import Datebook.Time.Date

/-!
# TOML numbers and dates

Integers of 64 bits with a sign, in four bases; floating-point numbers; dates and times. No setting
is a date or a time, so of these only the form is checked; one stands as a table without members.
-/

namespace Datebook.Toml

/-- A digit, and more of them with single underscores between. -/
def readDigits? (isDigit : Char → Bool) : List Char → Option (List Char × List Char)
  | [] => none
  | c :: s =>
    if isDigit c then
      match s with
      | '_' :: s => (readDigits? isDigit s).map fun (ds, rest) => (c :: ds, rest)
      | s =>
        match readDigits? isDigit s with
        | some (ds, rest) => some (c :: ds, rest)
        | none => if (s.head?.map isDigit).getD false then none else some ([c], s)
    else none

def isBaseDigit (radix : Nat) (c : Char) : Bool := (hexDigit? c).any (· < radix)

/-- An integer in another base, after the letter that tells the base. -/
def readRadix? (radix : Nat) (s : List Char) : Option (Setting × List Char) := do
  let (digits, s) ← readDigits? (isBaseDigit radix) s
  let n := digits.foldl (fun n c => n * radix + (hexDigit? c).getD 0) 0
  if n < twoTo 63 then some (.integer n, s) else none

/-- A number of so many tenths, tens or ones rounds beyond the largest floating-point number. -/
def isInfinite (digits : List Char) (exponent : Int) : Bool :=
  let digits := digits.dropWhile (· == '0')
  let magnitude := exponent + digits.length
  if digits.isEmpty || magnitude < 309 then false
  else if 309 < magnitude then true
  else
    let n := natOfDigits digits
    if 0 ≤ exponent then floatLimit ≤ n * tenTo exponent.toNat
    else floatLimit * tenTo exponent.natAbs ≤ n

/-- The digits after a point, if there is one. -/
def readFraction? : List Char → Option (Option (List Char) × List Char)
  | '.' :: s => (readDigits? Char.isDigit s).map fun (ds, s) => (some ds, s)
  | s => some (none, s)

/-- The exponent, if there is one. -/
def readExponent? : List Char → Option (Option Int × List Char)
  | c :: s =>
    if c = 'e' ∨ c = 'E' then
      let (isNegative, s) : Bool × List Char :=
        match s with
        | '+' :: s => (false, s)
        | '-' :: s => (true, s)
        | s => (false, s)
      (readDigits? Char.isDigit s).map fun (ds, s) =>
        (some (if isNegative then -(natOfDigits ds : Int) else natOfDigits ds), s)
    else some (none, c :: s)
  | [] => some (none, [])

/-- A decimal number, after its sign. -/
def readDecimal? (isNegative : Bool) (s : List Char) : Option (Setting × List Char) := do
  let (whole, s) ← readDigits? Char.isDigit s
  if whole.head? = some '0' ∧ 1 < whole.length then none
  let (fraction, s) ← readFraction? s
  let (exponent, s) ← readExponent? s
  match fraction, exponent with
  | none, none =>
    let n : Int := natOfDigits whole
    if isNegative then
      if n ≤ twoTo 63 then return (.integer (-n), s) else none
    else if n < twoTo 63 then return (.integer n, s) else none
  | fraction, exponent =>
    let fraction := fraction.getD []
    if !isNegative && isInfinite (whole ++ fraction) (exponent.getD 0 - fraction.length) then none
    else return (.float, s)

/-- A number, from its sign or first digit. -/
def readNumber? (s : List Char) : Option (Setting × List Char) :=
  let signed (isNegative : Bool) (s : List Char) : Option (Setting × List Char) :=
    match s with
    | 'i' :: 'n' :: 'f' :: s => some (.float, s)
    | 'n' :: 'a' :: 'n' :: s => some (.float, s)
    | s => readDecimal? isNegative s
  match s with
  | '+' :: s => signed false s
  | '-' :: s => signed true s
  | '0' :: 'x' :: s => readRadix? 16 s
  | '0' :: 'o' :: s => readRadix? 8 s
  | '0' :: 'b' :: s => readRadix? 2 s
  | s => signed false s

/-- A part of a date or time: exactly so many digits, of a number within bounds. -/
def readField? (width low high : Nat) (s : List Char) : Option (Nat × List Char) :=
  let digits := s.take width
  let n := natOfDigits digits
  if digits.length = width ∧ digits.all Char.isDigit ∧ low ≤ n ∧ n ≤ high then
    some (n, s.drop width)
  else none

/-- Steps over one character. -/
def readMark? (mark : Char) : List Char → Option (List Char)
  | c :: s => if c = mark then some s else none
  | [] => none

/-- Steps over a time of day. -/
def skipTime? (s : List Char) : Option (List Char) := do
  let (_, s) ← readField? 2 0 23 s
  let (_, s) ← readField? 2 0 59 (← readMark? ':' s)
  let (_, s) ← readField? 2 0 60 (← readMark? ':' s)
  match s with
  | '.' :: s => if (s.takeWhile Char.isDigit).isEmpty then none else return s.dropWhile Char.isDigit
  | s => return s

/-- Steps over the offset of a time, if there is one. -/
def skipOffset? (s : List Char) : Option (List Char) :=
  match s with
  | c :: rest =>
    if c = 'Z' ∨ c = 'z' then some rest
    else if c = '+' ∨ c = '-' then do
      let (_, s) ← readField? 2 0 23 rest
      let (_, s) ← readField? 2 0 59 (← readMark? ':' s)
      return s
    else some s
  | [] => some []

/-- Steps over a date, and over a time that stands right after it. -/
def skipDate? (s : List Char) : Option (List Char) := do
  let (year, s) ← readField? 4 0 9999 s
  let (month, s) ← readField? 2 1 12 (← readMark? '-' s)
  let (day, s) ← readField? 2 1 31 (← readMark? '-' s)
  if ¬(Date.mk year month day).Exists then none
  match s with
  | c :: d :: rest =>
    if (c = 'T' ∨ c = 't' ∨ c = ' ') ∧ d.isDigit then skipOffset? (← skipTime? (d :: rest))
    else return s
  | s => return s

/-- So many digits stand here, and then the mark. -/
def beginsWith (width : Nat) (mark : Char) (s : List Char) : Bool :=
  (s.take width).all Char.isDigit && (s.drop width).head? == some mark

/-- A number, a date or a time. -/
def readNumeric? (s : List Char) : Option (Setting × List Char) :=
  if beginsWith 4 '-' s then (skipDate? s).map fun s => (.empty, s)
  else if beginsWith 2 ':' s then (skipTime? s).map fun s => (.empty, s)
  else readNumber? s

end Datebook.Toml
