import Datebook.Json.Text
import Datebook.Power

/-!
# JSON numbers

The parts of a number as written. It is an integer if it has neither fraction nor exponent, is not
`-0` and fits into 64 bits, signed or not. Any other number is read as a binary floating-point
number, and one that rounds beyond the largest of these is out of range.
-/

namespace Datebook.Json

/-- A number as written: its digits before and after the point, and its exponent. -/
structure Numeral where
  negative : Bool
  whole : List Nat
  fraction : Option (List Nat)
  exponent : Option Int
  deriving DecidableEq

def isDigit (b : UInt8) : Bool := 0x30 ≤ b && b ≤ 0x39

def digitRun (s : Octets) : List Nat := (s.takeWhile isDigit).map fun b => b.toNat - 48

def natOf (digits : List Nat) : Nat := digits.foldl (fun n d => n * 10 + d) 0

/-- The digits after a point, if a point stands here; none if no digit follows it. -/
def fraction? (s : Octets) : Option (Option (List Nat) × Octets) :=
  match s with
  | b :: rest =>
    if b = 0x2E then
      if (digitRun rest).isEmpty then none
      else some (some (digitRun rest), rest.dropWhile isDigit)
    else some (none, s)
  | [] => some (none, [])

/-- The exponent, if one stands here; none if it has no digit. -/
def exponent? (s : Octets) : Option (Option Int × Octets) :=
  match s with
  | b :: rest =>
    if b = 0x65 ∨ b = 0x45 then
      let (minus, digits) : Bool × Octets :=
        match rest with
        | c :: r => if c = 0x2D then (true, r) else if c = 0x2B then (false, r) else (false, rest)
        | [] => (false, [])
      if (digitRun digits).isEmpty then none
      else
        let n : Int := natOf (digitRun digits)
        some (some (if minus then -n else n), digits.dropWhile isDigit)
    else some (none, s)
  | [] => some (none, [])

/-- The number at the front, in which no other digit follows a leading 0. -/
def numeral? (s : Octets) : Option (Numeral × Octets) := do
  let (negative, s) : Bool × Octets :=
    match s with
    | b :: rest => if b = 0x2D then (true, rest) else (false, s)
    | [] => (false, [])
  let whole := digitRun s
  if whole.isEmpty || (whole.head? == some 0 && 1 < whole.length) then none
  let (fraction, s) ← fraction? (s.dropWhile isDigit)
  let (exponent, s) ← exponent? s
  return (⟨negative, whole, fraction, exponent⟩, s)

namespace Numeral

/-- The integer that is written, if it is one of at most 64 bits. -/
def integer? (x : Numeral) : Option Int :=
  let n := natOf x.whole
  if x.fraction.isSome || x.exponent.isSome then none
  else if x.negative then
    if 0 < n ∧ n ≤ twoTo 63 then some (-(n : Int)) else none
  else if n < twoTo 64 then some n else none

/-- The nearest number of at most 53 binary digits before its zeros; a tie goes to the even. -/
def nearest53 (n : Nat) : Nat :=
  let shift := Nat.log2 n - 52
  let unit := twoTo shift
  let q := n / unit
  let r := n % unit
  if unit < 2 * r ∨ (2 * r = unit ∧ q % 2 = 1) then (q + 1) * unit else q * unit

/-- As many digits as fit into 64 bits, as a number, and the count of the others. -/
def leadingDigits (digits : List Nat) (start : Nat) : Nat × Nat :=
  digits.foldl
    (fun (n, dropped) d =>
      if dropped = 0 ∧ n * 10 + d < twoTo 64 then (n * 10 + d, 0) else (n, dropped + 1))
    (start, 0)

/-- The number rounds beyond the largest floating-point number of 64 bits. -/
def outOfRange (x : Numeral) : Bool :=
  let (n, dropped) := leadingDigits x.whole 0
  let fraction := x.fraction.getD []
  let (m, unused) := if dropped = 0 then leadingDigits fraction n else (n, fraction.length)
  let e : Int := dropped - (fraction.length - unused : Nat) + x.exponent.getD 0
  if m = 0 ∨ e < 0 then false
  else if 308 < e then true
  else floatLimit ≤ nearest53 m * nearest53 (tenTo e.toNat)

end Numeral

end Datebook.Json
