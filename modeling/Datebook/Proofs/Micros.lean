import Datebook.Time.Instant
import Mathlib.Tactic.SplitIfs

/-!
# Ordinary instants and microseconds

An ordinary instant has a count of nanoseconds, `nanos`, that orders it among the ordinary ones
(`nanos_le_nanos`), and moving it by a span adds to that count for as long as the calendar lasts
(`add?_eq_some_iff`, `add?_eq_none_iff`).

A table keeps whole microseconds, which an ordinary instant without finer digits is read back from
(`ofMicros?_eq_some_iff`). Such an instant lies before a bound exactly if its microseconds do
(`micros_le_micros`), whatever finer digits the bound has.
-/

namespace Datebook

namespace Instant

theorem eq_iff {a b : Instant} : a = b ↔ a.second = b.second ∧ a.nano = b.nano := by
  cases a
  cases b
  simp

theorem mk?_eq_some_iff {s : Int} {n : Nat} {t : Instant} :
    mk? s n = some t ↔ t.second = s ∧ t.nano = n := by
  unfold mk?
  split_ifs with h
  · simp only [Option.some.injEq, eq_iff]
    exact ⟨And.imp Eq.symm Eq.symm, And.imp Eq.symm Eq.symm⟩
  · simp only [false_iff]
    rintro ⟨rfl, rfl⟩
    exact h ⟨t.minSecond_le, t.le_maxSecond, t.nano_lt⟩

theorem le_refl (a : Instant) : a ≤ a := Or.inr ⟨rfl, Nat.le_refl _⟩

theorem le_of_lt {a b : Instant} (h : a < b) : a ≤ b := by
  rw [lt_def] at h
  rw [le_def]
  omega

theorem not_lt {a b : Instant} : ¬ a < b ↔ b ≤ a := by
  rw [lt_def, le_def]
  omega

theorem le_trans {a b c : Instant} (h : a ≤ b) (h' : b ≤ c) : a ≤ c := by
  rw [le_def] at *
  omega

theorem lt_of_lt_of_le {a b c : Instant} (h : a < b) (h' : b ≤ c) : a < c := by
  rw [lt_def] at h ⊢
  rw [le_def] at h'
  omega

theorem lt_of_le_of_lt {a b c : Instant} (h : a ≤ b) (h' : b < c) : a < c := by
  rw [le_def] at h
  rw [lt_def] at h' ⊢
  omega

theorem first_le (t : Instant) : first ≤ t := by
  have := t.minSecond_le
  rw [le_def]
  simp only [first]
  omega

section Nanos

/-- The nanoseconds since 1970-01-01, for an instant that is not in a leap second. -/
def nanos (t : Instant) : Int := t.second * 1000000000 + t.nano

theorem nanos_le_nanos {a b : Instant} (ha : a.IsOrdinary) (hb : b.IsOrdinary) :
    a.nanos ≤ b.nanos ↔ a ≤ b := by
  unfold IsOrdinary at ha hb
  rw [le_def]
  unfold nanos
  omega

theorem eq_of_nanos_eq {t u : Instant} (ht : t.IsOrdinary) (hu : u.IsOrdinary)
    (h : t.nanos = u.nanos) : t = u := by
  unfold IsOrdinary at ht hu
  unfold nanos at h
  rw [eq_iff]
  omega

theorem nanos_sub_nanos {t u : Instant} (ht : t.IsOrdinary) (hu : u.IsOrdinary) :
    t.nanos - u.nanos = t.since u := by
  unfold nanos
  simp only [since, if_pos ht, if_pos hu, ite_self]
  omega

theorem isOrdinary_first : first.IsOrdinary := by decide

theorem isOrdinary_last : last.IsOrdinary := by decide

theorem le_last {t : Instant} (ht : t.IsOrdinary) : t ≤ last := by
  have := t.le_maxSecond
  unfold IsOrdinary at ht
  rw [le_def]
  simp only [last]
  omega

theorem add?_of_isOrdinary {t : Instant} (ht : t.IsOrdinary) (d : Span) :
    t.add? d = mk? ((t.nanos + d) / 1000000000) ((t.nanos + d) % 1000000000).toNat := by
  have h := Int.mul_tdiv_add_tmod d 1000000000
  unfold add? add?.normal?
  rw [if_pos ht]
  congr 2 <;> unfold nanos <;> omega

theorem add?_eq_some_iff {t u : Instant} (ht : t.IsOrdinary) {d : Span} :
    t.add? d = some u ↔ u.IsOrdinary ∧ u.nanos = t.nanos + d := by
  rw [add?_of_isOrdinary ht, mk?_eq_some_iff]
  unfold IsOrdinary
  constructor
  · rintro ⟨h1, h2⟩
    unfold nanos at *
    omega
  · rintro ⟨h1, h2⟩
    rw [← h2]
    unfold nanos
    omega

theorem add?_eq_none_iff {t : Instant} (ht : t.IsOrdinary) {d : Span} :
    t.add? d = none ↔ t.nanos + d < first.nanos ∨ last.nanos < t.nanos + d := by
  rw [add?_of_isOrdinary ht]
  have hf : first.nanos = minSecond * 1000000000 := by simp [nanos, first]
  have hl : last.nanos = maxSecond * 1000000000 + 999999999 := by simp [nanos, last]
  rw [hf, hl]
  unfold mk?
  split_ifs with h
  · simp only [false_iff]
    omega
  · simp only [true_iff]
    omega

theorem isOrdinary_getD {t o : Instant} (ht : t.IsOrdinary) (ho : o.IsOrdinary) (d : Span) :
    ((t.add? d).getD o).IsOrdinary := by
  rcases hu : t.add? d with _ | u
  · exact ho
  · exact ((add?_eq_some_iff ht).1 hu).1

/-- Moved forwards, an instant stops at the last one. -/
theorem nanos_getD_last {t : Instant} (ht : t.IsOrdinary) {d : Int} (hd : 0 ≤ d) :
    ((t.add? d).getD last).nanos = min (t.nanos + d) last.nanos := by
  have hf := (nanos_le_nanos isOrdinary_first ht).2 t.first_le
  rcases hu : t.add? d with _ | u
  · rw [add?_eq_none_iff ht] at hu
    rw [Option.getD_none]
    omega
  · obtain ⟨ho, hu⟩ := (add?_eq_some_iff ht).1 hu
    have := (nanos_le_nanos ho isOrdinary_last).2 (le_last ho)
    rw [Option.getD_some]
    omega

/-- Moved backwards, an instant stops at the first one. -/
theorem nanos_getD_first {t : Instant} (ht : t.IsOrdinary) {d : Int} (hd : 0 ≤ d) :
    ((t.sub? d).getD first).nanos = max (t.nanos - d) first.nanos := by
  have hl := (nanos_le_nanos ht isOrdinary_last).2 (le_last ht)
  unfold sub?
  rcases hu : t.add? (-d) with _ | u
  · rw [add?_eq_none_iff ht] at hu
    rw [Option.getD_none]
    omega
  · obtain ⟨ho, hu⟩ := (add?_eq_some_iff ht).1 hu
    have := (nanos_le_nanos isOrdinary_first ho).2 u.first_le
    rw [Option.getD_some]
    omega

theorem last_le_longest {t : Instant} (ht : t.IsOrdinary) :
    last.nanos ≤ t.nanos + Span.longest := by
  have hf := (nanos_le_nanos isOrdinary_first ht).2 t.first_le
  have hl : last.nanos ≤ first.nanos + Span.longest := by decide
  omega

theorem longest_le_first {t : Instant} (ht : t.IsOrdinary) :
    t.nanos - Span.longest ≤ first.nanos := by
  have hl := (nanos_le_nanos ht isOrdinary_last).2 (le_last ht)
  have hf : last.nanos - Span.longest ≤ first.nanos := by decide
  omega

end Nanos

section Spans

variable {t u : Instant} {d : Int}

theorem lt_longest_of_add? (h : t.add? d = some u) : d < 9223372036854775807 * 1000000 := by
  have hd := Int.mul_tdiv_add_tmod d 1000000000
  have hm := Int.tmod_lt_of_pos d (show (0 : Int) < 1000000000 by decide)
  have ht := t.minSecond_le
  have hu := u.le_maxSecond
  unfold minSecond at ht
  unfold maxSecond at hu
  unfold add? add?.normal? at h
  simp only [] at h
  split_ifs at h <;> rw [mk?_eq_some_iff] at h <;> omega

theorem lt_of_add? (hd : 1000000000 ≤ d) (h : t.add? d = some u) : t < u := by
  have hd' := Int.mul_tdiv_add_tmod d 1000000000
  have hm := Int.tmod_lt_of_pos d (show (0 : Int) < 1000000000 by decide)
  have hn : 0 ≤ d.tmod 1000000000 := Int.tmod_nonneg _ (by omega)
  rw [lt_def]
  unfold add? add?.normal? at h
  simp only [] at h
  split_ifs at h with ho <;> rw [mk?_eq_some_iff] at h <;> unfold IsOrdinary at ho <;> omega

theorem le_of_add? (hd : 0 ≤ d) (h : t.add? d = some u) : t ≤ u := by
  have hd' := Int.mul_tdiv_add_tmod d 1000000000
  have hm := Int.tmod_lt_of_pos d (show (0 : Int) < 1000000000 by decide)
  have hn : 0 ≤ d.tmod 1000000000 := Int.tmod_nonneg _ hd
  have ht := t.nano_lt
  rw [le_def]
  unfold add? add?.normal? at h
  simp only [] at h
  split_ifs at h with ho <;> rw [mk?_eq_some_iff] at h <;> unfold IsOrdinary at ho <;> omega

theorem le_of_sub? (hd : 0 ≤ d) (h : t.sub? d = some u) : u ≤ t := by
  have hd' := Int.mul_tdiv_add_tmod (-d) 1000000000
  have hm := Int.tmod_lt_of_pos d (show (0 : Int) < 1000000000 by decide)
  have hn : 0 ≤ d.tmod 1000000000 := Int.tmod_nonneg _ hd
  have hneg : (-d).tmod 1000000000 = -d.tmod 1000000000 := Int.neg_tmod _ _
  have ht := t.nano_lt
  rw [le_def]
  unfold sub? add? add?.normal? at h
  simp only [] at h
  split_ifs at h with ho <;> rw [mk?_eq_some_iff] at h <;> unfold IsOrdinary at ho <;> omega

/-- Moved backwards by a second or more, an instant leaves a leap second. -/
theorem isOrdinary_of_sub? (hd : 1000000000 ≤ d) (h : t.sub? d = some u) : u.IsOrdinary := by
  have hd' := Int.mul_tdiv_add_tmod (-d) 1000000000
  have hm := Int.tmod_lt_of_pos d (show (0 : Int) < 1000000000 by decide)
  have hneg : (-d).tmod 1000000000 = -d.tmod 1000000000 := Int.neg_tmod _ _
  have hn : 0 ≤ d.tmod 1000000000 := Int.tmod_nonneg _ (by omega)
  unfold IsOrdinary
  unfold sub? add? add?.normal? at h
  simp only [] at h
  split_ifs at h <;> rw [mk?_eq_some_iff] at h <;> omega

end Spans

section Micros

instance (t : Instant) : Decidable t.IsWholeMicros := inferInstanceAs (Decidable (_ = _))

theorem IsOrdinary.floorMicros {t : Instant} (h : t.IsOrdinary) : t.floorMicros.IsOrdinary :=
  Nat.lt_of_le_of_lt (Nat.sub_le _ _) h

theorem IsWholeMicros.floorMicros_eq {t : Instant} (h : t.IsWholeMicros) : t.floorMicros = t := by
  unfold IsWholeMicros at h
  rw [eq_iff]
  simp [floorMicros, h]

/-- The whole microseconds of a bound admit what the bound does, and the rest of its microsecond. -/
theorem floorMicros_le_iff_or {t u : Instant} :
    t.floorMicros ≤ u ↔ t ≤ u ∨ u.floorMicros = t.floorMicros := by
  rw [le_def, le_def, eq_iff]
  unfold floorMicros
  simp only []
  omega

theorem micros_floorMicros (t : Instant) : t.floorMicros.micros = t.micros := by
  unfold micros floorMicros
  simp only []
  omega

theorem micros_le_micros {t u : Instant} (ht : t.IsOrdinary) (hw : t.IsWholeMicros)
    (hu : u.IsOrdinary) : t.micros ≤ u.micros ↔ t ≤ u := by
  unfold IsOrdinary at ht hu
  unfold IsWholeMicros at hw
  rw [le_def]
  unfold micros
  omega

theorem micros_mono {t u : Instant} (ht : t.IsOrdinary) (hu : u.IsOrdinary) (h : t ≤ u) :
    t.micros ≤ u.micros := by
  unfold IsOrdinary at ht hu
  rw [le_def] at h
  unfold micros
  omega

theorem micros_inj {t u : Instant} (ht : t.IsOrdinary) (hw : t.IsWholeMicros)
    (hu : u.IsOrdinary) (hv : u.IsWholeMicros) : t.micros = u.micros ↔ t = u := by
  unfold IsOrdinary at ht hu
  unfold IsWholeMicros at hw hv
  rw [eq_iff]
  unfold micros
  omega

theorem ofMicros?_eq_some_iff {m : Int} {t : Instant} :
    ofMicros? m = some t ↔ t.micros = m ∧ t.IsOrdinary ∧ t.IsWholeMicros := by
  unfold ofMicros? IsOrdinary IsWholeMicros micros
  rw [mk?_eq_some_iff]
  omega

end Micros

end Instant

end Datebook
