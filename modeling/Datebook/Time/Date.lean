/-!
# The calendar

Days of the proleptic Gregorian calendar and their numbers, counted from 1970-01-01. Every four
hundred years hold the same number of days, so a year is found from a day by dividing by the lengths
of four centuries, a century, four years and a year in turn.
-/

namespace Datebook

def isLeapYear (y : Int) : Bool := y % 4 == 0 && (y % 100 != 0 || y % 400 == 0)

def monthLengths (leap : Bool) : List Nat :=
  [31, if leap then 29 else 28, 31, 30, 31, 30, 31, 31, 30, 31, 30, 31]

/-- The days from the first day of the year 1 to the first day of the year `y`. -/
def daysBeforeYear (y : Int) : Int :=
  365 * (y - 1) + (y - 1) / 4 - (y - 1) / 100 + (y - 1) / 400

/-- The year of the day that is `n` days after the first day of the year 1. -/
def yearContaining (n : Int) : Int :=
  let inFour := n % 146097
  let century := min 3 (inFour / 36524)
  let inCentury := inFour - 36524 * century
  let four := inCentury / 1461
  let inFourYears := inCentury - 1461 * four
  400 * (n / 146097) + 100 * century + 4 * four + min 3 (inFourYears / 365) + 1

/-- The month, counted from 0, and the day in it, counted from 0, of the day `d` of a year whose
months are this long. -/
def splitMonths : List Nat → Nat → Nat × Nat
  | [], d => (0, d)
  | l :: ls, d =>
    if d < l then (0, d) else ((splitMonths ls (d - l)).1 + 1, (splitMonths ls (d - l)).2)

/-- The days before the month `m`, counted from 0, of a year whose months are this long. -/
def daysBeforeMonth : List Nat → Nat → Nat
  | l :: ls, m + 1 => l + daysBeforeMonth ls m
  | _, _ => 0

/-- A day, by its year, its month from 1 and its day of the month from 1. -/
structure Date where
  year : Int
  month : Nat
  day : Nat
  deriving DecidableEq

namespace Date

/-- The length of a month, and 0 for a number that names no month. -/
def lengthOfMonth (y : Int) (m : Nat) : Nat :=
  if m = 0 then 0 else (monthLengths (isLeapYear y)).getD (m - 1) 0

/-- The calendar has such a day. -/
def Exists (d : Date) : Prop := 1 ≤ d.day ∧ d.day ≤ lengthOfMonth d.year d.month

instance (d : Date) : Decidable d.Exists := inferInstanceAs (Decidable (_ ∧ _))

/-- The days from the first day of the year 1 to the first day of 1970. -/
def epoch : Int := 719162

/-- The days from 1970-01-01 to this day. -/
def dayNumber (d : Date) : Int :=
  daysBeforeYear d.year - epoch
    + (daysBeforeMonth (monthLengths (isLeapYear d.year)) (d.month - 1) + (d.day - 1) : Nat)

/-- The day that is `n` days after 1970-01-01. -/
def ofDayNumber (n : Int) : Date :=
  let year := yearContaining (n + epoch)
  let md := splitMonths (monthLengths (isLeapYear year)) (n + epoch - daysBeforeYear year).toNat
  ⟨year, md.1 + 1, md.2 + 1⟩

/-- The same day of a month `k` months later, or the last day of that month if it is shorter. -/
def addMonths (d : Date) (k : Int) : Date :=
  let months := 12 * d.year + (d.month - 1 : Nat) + k
  let year := months / 12
  let month := (months % 12).toNat + 1
  ⟨year, month, min d.day (lengthOfMonth year month)⟩

end Date

theorem daysBeforeYear_cycle {q c f a : Int} (hc : 0 ≤ c ∧ c ≤ 3) (hf : 0 ≤ f ∧ f ≤ 24)
    (ha : 0 ≤ a ∧ a ≤ 3) :
    daysBeforeYear (400 * q + 100 * c + 4 * f + a + 1)
      = 146097 * q + 36524 * c + 1461 * f + 365 * a := by
  have h4 : (400 * q + 100 * c + 4 * f + a) / 4 = 100 * q + 25 * c + f := by omega
  have h100 : (400 * q + 100 * c + 4 * f + a) / 100 = 4 * q + c := by omega
  have h400 : (400 * q + 100 * c + 4 * f + a) / 400 = q := by omega
  simp only [daysBeforeYear, Int.add_sub_cancel, h4, h100, h400]
  omega

theorem daysBeforeYear_succ (y : Int) :
    daysBeforeYear (y + 1) = daysBeforeYear y + if isLeapYear y then 366 else 365 := by
  simp only [daysBeforeYear, isLeapYear, Bool.and_eq_true, Bool.or_eq_true, beq_iff_eq, bne_iff_ne]
  split <;> omega

/-- The year found for a day holds it. -/
theorem daysBeforeYear_yearContaining_le (n : Int) : daysBeforeYear (yearContaining n) ≤ n := by
  simp only [yearContaining]
  rw [daysBeforeYear_cycle (by omega) (by omega) (by omega)]
  omega

end Datebook
