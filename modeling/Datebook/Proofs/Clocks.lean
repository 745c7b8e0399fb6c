import Datebook.Time.Timestamp

/-!
# The time of day as a clock shows it

`Instant.ShowsClock` says of a text, by its digits, that it is the hour and the minute of an instant
in two digits each; it is true of one text only (`ShowsClock.eq`), which is `Instant.clockText`
(`showsClock_iff`).
-/

namespace Datebook

theorem digitChar_eq (n : Nat) : digitChar n = (n % 10).digitChar := by
  have h : n % 10 < 10 := Nat.mod_lt _ (by decide)
  unfold digitChar
  generalize n % 10 = d at h
  revert d
  decide

theorem fixedDigits_two (n : Nat) :
    fixedDigits 2 n = [(n / 10 % 10).digitChar, (n % 10).digitChar] := by
  simp [fixedDigits, digitChar_eq]

namespace Instant

/-- The text is two digits of the hour, a colon and two digits of the minute in which the instant
lies, some number of days after 1970-01-01. A leap second is in the minute that it ends. -/
def ShowsClock (t : Instant) (text : String) : Prop :=
  ∃ (day : Int) (hour minute second : Nat), hour < 24 ∧ minute < 60 ∧ second < 60
    ∧ t.second = ((day * 24 + hour) * 60 + minute) * 60 + second
    ∧ text.toList = [(hour / 10).digitChar, (hour % 10).digitChar, ':',
        (minute / 10).digitChar, (minute % 10).digitChar]

theorem ShowsClock.eq {t : Instant} {a b : String} (ha : t.ShowsClock a) (hb : t.ShowsClock b) :
    a = b := by
  obtain ⟨day, hour, minute, second, hh, hm, hs, ht, htext⟩ := ha
  obtain ⟨day', hour', minute', second', hh', hm', hs', ht', htext'⟩ := hb
  have hhour : hour = hour' := by omega
  have hminute : minute = minute' := by omega
  rw [← String.toList_inj, htext, htext', hhour, hminute]

theorem showsClock_clockText (t : Instant) : t.ShowsClock t.clockText := by
  have hh : t.hour < 24 := by
    unfold hour secondOfDay
    omega
  have hm : t.minute < 60 := by
    unfold minute
    omega
  refine ⟨t.day, t.hour, t.minute, t.secondOfDay % 60, hh, hm, Nat.mod_lt _ (by decide), ?_, ?_⟩
  · unfold hour minute secondOfDay day
    omega
  · rw [clockText, String.toList_ofList, fixedDigits_two, fixedDigits_two,
      Nat.mod_eq_of_lt (a := t.hour / 10) (by omega),
      Nat.mod_eq_of_lt (a := t.minute / 10) (by omega)]
    rfl

theorem showsClock_iff {t : Instant} {text : String} : t.ShowsClock text ↔ text = t.clockText :=
  ⟨fun h => h.eq t.showsClock_clockText, fun h => h ▸ t.showsClock_clockText⟩

example : (⟨43725, 0, by decide, by decide, by decide⟩ : Instant).ShowsClock "12:08" :=
  showsClock_iff.2 (by decide)

end Instant

end Datebook
