import Datebook.Time.Timestamp
import Mathlib.Algebra.GroupWithZero.Nat
import Mathlib.Tactic.ByContra
import Mathlib.Tactic.SplitIfs

/-!
# Dates of day numbers

`Date.ofDayNumber_spec`: the date found for a day number exists and has that number, so a date is
lost in neither direction. `Instant.year_date_bounds`: the years of instants are those that
timestamps may have.
-/

namespace Datebook

/-- Of a cycle of four hundred years, the leap years are the last of four, but not the last of a
century unless it is the last of all. -/
theorem isLeapYear_cycle {q c f a : Int} (hc : 0 ≤ c ∧ c ≤ 3) (hf : 0 ≤ f ∧ f ≤ 24)
    (ha : 0 ≤ a ∧ a ≤ 3) :
    isLeapYear (400 * q + 100 * c + 4 * f + a + 1) = true ↔ a = 3 ∧ (f ≠ 24 ∨ c = 3) := by
  have h4 : (400 * q + 100 * c + 4 * f + a + 1) % 4 = (a + 1) % 4 := by omega
  have h100 : (400 * q + 100 * c + 4 * f + a + 1) % 100 = (4 * f + a + 1) % 100 := by omega
  have h400 : (400 * q + 100 * c + 4 * f + a + 1) % 400 = (100 * c + 4 * f + a + 1) % 400 := by
    omega
  simp only [isLeapYear, Bool.and_eq_true, Bool.or_eq_true, beq_iff_eq, bne_iff_ne, h4, h100, h400]
  omega

/-- The year found for a day does not end before it. -/
theorem lt_daysBeforeYear_yearContaining (n : Int) :
    n < daysBeforeYear (yearContaining n + 1) := by
  obtain ⟨c, hc⟩ : ∃ c, c = min 3 (n % 146097 / 36524) := ⟨_, rfl⟩
  obtain ⟨f, hf⟩ : ∃ f, f = (n % 146097 - 36524 * c) / 1461 := ⟨_, rfl⟩
  obtain ⟨a, ha⟩ : ∃ a, a = min 3 ((n % 146097 - 36524 * c - 1461 * f) / 365) := ⟨_, rfl⟩
  have hy : yearContaining n = 400 * (n / 146097) + 100 * c + 4 * f + a + 1 := by
    rw [ha, hf, hc]
    rfl
  have hleap := isLeapYear_cycle (q := n / 146097) (c := c) (f := f) (a := a) (by omega) (by omega)
    (by omega)
  rw [daysBeforeYear_succ, hy, daysBeforeYear_cycle (by omega) (by omega) (by omega)]
  by_cases h : a = 3 ∧ (f ≠ 24 ∨ c = 3)
  · rw [if_pos (hleap.2 h)]
    omega
  · rw [if_neg (hleap.not.2 h)]
    omega

theorem splitMonths_spec {l : List Nat} {d : Nat} (h : d < l.sum) :
    (splitMonths l d).1 < l.length
      ∧ (splitMonths l d).2 < l.getD (splitMonths l d).1 0
      ∧ daysBeforeMonth l (splitMonths l d).1 + (splitMonths l d).2 = d := by
  induction l generalizing d with
  | nil => simp at h
  | cons x l ih =>
    unfold splitMonths
    by_cases hd : d < x
    · simp [hd, daysBeforeMonth]
    · rw [List.sum_cons] at h
      obtain ⟨hm, hday, hsum⟩ := ih (d := d - x) (by omega)
      simp only [hd, if_false, List.length_cons, List.getD_cons_succ, daysBeforeMonth]
      exact ⟨by omega, hday, by omega⟩

theorem sum_monthLengths (y : Int) :
    ((monthLengths (isLeapYear y)).sum : Int) = daysBeforeYear (y + 1) - daysBeforeYear y := by
  rw [daysBeforeYear_succ]
  cases isLeapYear y
  · have : (monthLengths false).sum = 365 := rfl
    simp only [Bool.false_eq_true, if_false]
    omega
  · have : (monthLengths true).sum = 366 := rfl
    simp only [if_true]
    omega

namespace Date

/-- The day of a number is on the calendar, and has that number. -/
theorem ofDayNumber_spec (n : Int) :
    (ofDayNumber n).Exists ∧ (ofDayNumber n).dayNumber = n ∧ (ofDayNumber n).month ≤ 12 := by
  have hle := daysBeforeYear_yearContaining_le (n + epoch)
  have hlt := lt_daysBeforeYear_yearContaining (n + epoch)
  have hsum := sum_monthLengths (yearContaining (n + epoch))
  obtain ⟨hm, hday, hd⟩ := splitMonths_spec
    (l := monthLengths (isLeapYear (yearContaining (n + epoch))))
    (d := (n + epoch - daysBeforeYear (yearContaining (n + epoch))).toNat) (by omega)
  refine ⟨⟨by simp [ofDayNumber], ?_⟩, ?_, ?_⟩
  · simpa [ofDayNumber, lengthOfMonth, Nat.succ_le_iff] using hday
  · simp only [dayNumber, ofDayNumber, Nat.add_sub_cancel, hd]
    omega
  · have : (monthLengths (isLeapYear (yearContaining (n + epoch)))).length = 12 := rfl
    simp only [ofDayNumber]
    omega

theorem Exists.day_le {d : Date} (h : d.Exists) : d.day ≤ 31 := by
  refine Nat.le_trans h.2 ?_
  unfold lengthOfMonth
  split_ifs with hm
  · omega
  · rw [List.getD_eq_getElem?_getD]
    rcases hg : (monthLengths (isLeapYear d.year))[d.month - 1]? with _ | l
    · simp
    · have hl := List.mem_of_getElem? hg
      simp only [monthLengths, List.mem_cons, List.not_mem_nil, or_false] at hl
      rw [Option.getD_some]
      split_ifs at hl <;> omega

end Date

theorem daysBeforeYear_mono {y z : Int} (h : y ≤ z) : daysBeforeYear y ≤ daysBeforeYear z := by
  unfold daysBeforeYear
  omega

namespace Instant

/-- The years of the calendar are those of its instants. -/
theorem year_date_bounds (t : Instant) : firstYear ≤ t.date.year ∧ t.date.year ≤ lastYear := by
  have hmin := t.minSecond_le
  have hmax := t.le_maxSecond
  have hle := daysBeforeYear_yearContaining_le (t.day + Date.epoch)
  have hlt := lt_daysBeforeYear_yearContaining (t.day + Date.epoch)
  have hfirst : daysBeforeYear firstYear = minSecond / 86400 + Date.epoch := by decide
  have hlast : daysBeforeYear (lastYear + 1) = maxSecond / 86400 + 1 + Date.epoch := by decide
  unfold day at hle hlt
  simp only [date, Date.ofDayNumber, day]
  constructor
  · by_contra h
    have := daysBeforeYear_mono (show yearContaining (t.second / 86400 + Date.epoch) + 1 ≤ firstYear
      by omega)
    omega
  · by_contra h
    have := daysBeforeYear_mono (show lastYear + 1 ≤ yearContaining (t.second / 86400 + Date.epoch)
      by omega)
    omega

end Instant

end Datebook
