import Datebook.Time.Date

/-!
# Instants

A point of time in UTC, to the nanosecond. A leap second has no number of its own: it is the second
before it with a nanosecond part of one thousand million or more, so it comes after the whole of
that second and before the next one. Instants are ordered by second and nanosecond.

`floorMicros` is the precision that stores keep, `micros` the integer that a table holds, and
`add?` moves an instant by a span, leaving a leap second when the span does.
-/

namespace Datebook

/-- The first second of the first day of the year -262143. -/
def minSecond : Int := -8334601228800

/-- The last second of the last day of the year 262142. -/
def maxSecond : Int := 8210266876799

/-- A point of time: seconds since 1970-01-01 without leap seconds, and nanoseconds. -/
structure Instant where
  second : Int
  nano : Nat
  minSecond_le : minSecond ≤ second
  le_maxSecond : second ≤ maxSecond
  nano_lt : nano < 2000000000
  deriving DecidableEq

/-- A length of time in nanoseconds, which may be negative. -/
abbrev Span := Int

namespace Span

/-- The longest span that an instant can be moved by. -/
def longest : Span := 9223372036854775807 * 1000000

def ofSeconds (s : Int) : Span := s * 1000000000

def ofMillis (ms : Int) : Span := ms * 1000000

end Span

namespace Instant

/-- The instant of that second and nanosecond, if it lies on the calendar. -/
def mk? (second : Int) (nano : Nat) : Option Instant :=
  if h : minSecond ≤ second ∧ second ≤ maxSecond ∧ nano < 2000000000 then
    some ⟨second, nano, h.1, h.2.1, h.2.2⟩
  else none

/-- The first instant. -/
def first : Instant := ⟨minSecond, 0, by decide, by decide, by decide⟩

/-- The last instant that is not in a leap second. -/
def last : Instant := ⟨maxSecond, 999999999, by decide, by decide, by decide⟩

/-- Not within a leap second. -/
def IsOrdinary (t : Instant) : Prop := t.nano < 1000000000

instance (t : Instant) : Decidable t.IsOrdinary := inferInstanceAs (Decidable (_ < _))

instance : LE Instant := ⟨fun a b => a.second < b.second ∨ a.second = b.second ∧ a.nano ≤ b.nano⟩

instance : LT Instant := ⟨fun a b => a.second < b.second ∨ a.second = b.second ∧ a.nano < b.nano⟩

theorem le_def {a b : Instant} :
    a ≤ b ↔ a.second < b.second ∨ a.second = b.second ∧ a.nano ≤ b.nano := Iff.rfl

theorem lt_def {a b : Instant} :
    a < b ↔ a.second < b.second ∨ a.second = b.second ∧ a.nano < b.nano := Iff.rfl

instance (a b : Instant) : Decidable (a ≤ b) := decidable_of_iff' _ le_def

instance (a b : Instant) : Decidable (a < b) := decidable_of_iff' _ lt_def

/-- The instant without what is finer than a microsecond. -/
def floorMicros (t : Instant) : Instant :=
  { t with nano := t.nano - t.nano % 1000, nano_lt := by have := t.nano_lt; omega }

/-- Microseconds since 1970-01-01; those of a leap second run into the next second. -/
def micros (t : Instant) : Int := t.second * 1000000 + t.nano / 1000

/-- The ordinary instant that many microseconds after 1970-01-01. -/
def ofMicros? (m : Int) : Option Instant := mk? (m / 1000000) ((m % 1000000).toNat * 1000)

/-- The instant moved by a span. Within a leap second only the nanoseconds move; a span that leaves
it forwards counts from the second before, one that leaves it backwards from the second after. -/
def add? (t : Instant) (d : Span) : Option Instant :=
  let seconds := d.tdiv 1000000000
  let nanos := d.tmod 1000000000
  if t.IsOrdinary then
    normal? (t.second + seconds) (t.nano + nanos)
  else if 0 < seconds ∨ (0 < nanos ∧ 2000000000 ≤ t.nano + nanos) then
    normal? (t.second + seconds) (t.nano - 1000000000 + nanos)
  else if seconds < 0 then
    normal? (t.second + 1 + seconds) (t.nano - 1000000000 + nanos)
  else mk? t.second (t.nano + nanos).toNat
where
  /-- Carries nanoseconds into the seconds. -/
  normal? (second nano : Int) : Option Instant :=
    mk? (second + nano / 1000000000) (nano % 1000000000).toNat

def sub? (t : Instant) (d : Span) : Option Instant := t.add? (-d)

/-- The days from 1970-01-01 to the day of the instant. -/
def day (t : Instant) : Int := t.second / 86400

/-- The seconds since the day began. -/
def secondOfDay (t : Instant) : Nat := (t.second % 86400).toNat

def date (t : Instant) : Date := Date.ofDayNumber t.day

def hour (t : Instant) : Nat := t.secondOfDay / 3600

def minute (t : Instant) : Nat := t.secondOfDay % 3600 / 60

/-- The time from `b` to `a`. A leap second between their times of day counts as one more. -/
def since (a b : Instant) : Span :=
  let extra : Int :=
    if b.secondOfDay < a.secondOfDay then (if b.IsOrdinary then 0 else 1)
    else if a.secondOfDay < b.secondOfDay then (if a.IsOrdinary then 0 else -1)
    else 0
  (a.second - b.second + extra) * 1000000000 + ((a.nano : Int) - b.nano)

/-- The whole seconds from `b` to `a`, cut towards zero. -/
def secondsSince (a b : Instant) : Int := (a.since b).tdiv 1000000000

/-- The same time of day `k` months later, on the last day of the month if it is shorter. -/
def addMonths? (t : Instant) (k : Int) : Option Instant :=
  mk? ((t.date.addMonths k).dayNumber * 86400 + t.secondOfDay) t.nano

/-- A whole number of microseconds. -/
def IsWholeMicros (t : Instant) : Prop := t.nano % 1000 = 0

theorem floorMicros_le (t : Instant) : t.floorMicros ≤ t :=
  Or.inr ⟨rfl, Nat.sub_le _ _⟩

theorem isWholeMicros_floorMicros (t : Instant) : t.floorMicros.IsWholeMicros := by
  simp only [IsWholeMicros, floorMicros]
  omega

theorem floorMicros_mono {a b : Instant} (h : a ≤ b) : a.floorMicros ≤ b.floorMicros := by
  simp only [le_def, floorMicros] at *
  omega

end Instant

end Datebook
