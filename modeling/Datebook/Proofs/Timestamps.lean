import Datebook.Proofs.Dates
import Datebook.Proofs.Micros
import Mathlib.Data.List.Induction

/-!
# Timestamps read back

A timestamp can show a leap second at the end of a minute only, so not every instant has a text.
`Instant.ofText?_text` reads the text of those back that have one, part by part, and
`Instant.hasText_iff` says which they are.
-/

namespace Datebook

/-- The text goes on with something else than a digit, or ends. -/
def EndsDigits (s : List Char) : Prop := ∀ c ∈ s.head?, c.isDigit = false

theorem isBlankChar_of_isDigit {c : Char} (h : c.isDigit = true) : isBlankChar c = false := by
  simp only [Char.isDigit, Bool.and_eq_true, decide_eq_true_eq, UInt32.le_iff_toNat_le] at h
  have h48 : 48 ≤ c.toNat := h.1
  have h57 : c.toNat ≤ 57 := h.2
  simp only [isBlankChar, Bool.or_eq_false_iff, Bool.and_eq_false_iff, decide_eq_false_iff_not,
    beq_eq_false_iff_ne]
  omega

theorem fixedDigits_eq_cons {w : Nat} (hw : 0 < w) (n : Nat) :
    ∃ c ds, fixedDigits w n = c :: ds ∧ c.isDigit = true := by
  rcases h : fixedDigits w n with _ | ⟨c, ds⟩
  · have := length_fixedDigits w n
    rw [h] at this
    simp at this
    omega
  · have := all_isDigit_fixedDigits w n
    rw [h, List.all_cons, Bool.and_eq_true] at this
    exact ⟨c, ds, rfl, this.1⟩

theorem skipBlanks_fixedDigits {w : Nat} (hw : 0 < w) (n : Nat) (s : List Char) :
    skipBlanks (fixedDigits w n ++ s) = fixedDigits w n ++ s := by
  obtain ⟨c, ds, h, hc⟩ := fixedDigits_eq_cons hw n
  rw [h, List.cons_append, skipBlanks_of_head (isBlankChar_of_isDigit hc)]

theorem takeDigits?_fixedDigits {l w : Nat} (hw : 0 < w) (hl : w ≤ l) (n : Nat)
    {s : List Char} (hs : EndsDigits s) :
    takeDigits? l (fixedDigits w n ++ s) = some (fixedDigits w n, s) := by
  have htake : ((fixedDigits w n ++ s).take l).takeWhile Char.isDigit = fixedDigits w n := by
    have hall := List.all_eq_true.1 (all_isDigit_fixedDigits w n)
    rw [List.take_append, List.take_of_length_le (by simpa using hl),
      List.takeWhile_append_of_pos hall]
    rcases s with _ | ⟨c, s⟩
    · simp
    · rcases hk : l - (fixedDigits w n).length with _ | k
      · simp
      · simp [hs c rfl]
  unfold takeDigits?
  simp only [htake]
  have hne : (fixedDigits w n).isEmpty = false := by
    rw [List.isEmpty_eq_false_iff, ← List.length_pos_iff, length_fixedDigits]
    exact hw
  simp [hne]

theorem readNat?_fixedDigits {l w n : Nat} (hw : 0 < w) (hl : w ≤ l) (hn : n < tenTo w)
    {s : List Char} (hs : EndsDigits s) :
    readNat? l (fixedDigits w n ++ s) = some (n, s) := by
  simp [readNat?, takeDigits?_fixedDigits hw hl n hs, natOfDigits_fixedDigits hn]

theorem natOfDigits_lt {s : List Char} (h : s.all Char.isDigit = true) :
    natOfDigits s < tenTo s.length := by
  induction s using List.reverseRecOn with
  | nil => simp [natOfDigits]
  | append_singleton s c ih =>
    rw [List.all_append, Bool.and_eq_true] at h
    have hc : digitValue c < 10 := by
      have := h.2
      simp only [List.all_cons, List.all_nil, Bool.and_true, Char.isDigit, Bool.and_eq_true,
        decide_eq_true_eq, UInt32.le_iff_toNat_le] at this
      have h57 : c.toNat ≤ 57 := this.2
      unfold digitValue
      omega
    have := ih h.1
    simp only [natOfDigits] at this ⊢
    rw [List.foldl_append, List.length_append, List.length_singleton, tenTo_succ]
    simp only [List.foldl_cons, List.foldl_nil]
    omega

theorem of_takeDigits? {limit : Nat} {s ds r : List Char} (h : takeDigits? limit s = some (ds, r)) :
    ds.length ≤ limit ∧ ds.all Char.isDigit = true := by
  unfold takeDigits? at h
  simp only [] at h
  split_ifs at h
  simp only [Option.some.injEq, Prod.mk.injEq] at h
  rw [← h.1]
  exact ⟨Nat.le_trans (List.takeWhile_sublist _).length_le (List.length_take_le _ _),
    List.all_takeWhile⟩

namespace Instant

/-- A clock shows leap seconds, but only at the end of a minute. -/
def IsOnClock (t : Instant) : Prop := t.IsOrdinary ∨ t.second % 60 = 59

instance (t : Instant) : Decidable t.IsOnClock := inferInstanceAs (Decidable (_ ∨ _))

theorem readPart?_fixedDigits {n : Nat} (hn : n < 100) {s : List Char} (hs : EndsDigits s) :
    readPart? (fixedDigits 2 n ++ s) = some (n, s) := by
  rw [readPart?, skipBlanks_fixedDigits (by omega),
    readNat?_fixedDigits (by omega) (by omega) hn hs]

theorem readMarkedPart?_fixedDigits {m : Char} (hm : isBlankChar m = false) {n : Nat}
    (hn : n < 100) {s : List Char} (hs : EndsDigits s) :
    readMarkedPart? m (m :: (fixedDigits 2 n ++ s)) = some (n, s) := by
  simp [readMarkedPart?, skipBlanks_of_head hm, expect?, readPart?_fixedDigits hn hs]

theorem readYear?_yearText {y : Int} (hy : firstYear ≤ y ∧ y ≤ lastYear) {s : List Char}
    (hs : EndsDigits s) : readYear? (skipBlanks (yearText y ++ s)) = some (y, s) := by
  obtain ⟨w, hw⟩ : ∃ w, w = if y.natAbs < 10000 then 4 else if y.natAbs < 100000 then 5 else 6 :=
    ⟨_, rfl⟩
  have hpos : 0 < w := by
    rw [hw]
    split_ifs <;> decide
  have hn : y.natAbs < tenTo w := by
    unfold firstYear lastYear at hy
    rw [hw]
    split_ifs <;> simp [tenTo] <;> omega
  have hread := readNat?_fixedDigits hpos (l := (fixedDigits w y.natAbs ++ s).length) (by simp)
    hn hs
  unfold yearText
  simp only [← hw]
  split_ifs with hneg hbig
  · rw [List.cons_append, skipBlanks_of_head (by decide)]
    simp only [readYear?, hread, Option.map_some, Option.some.injEq, Prod.mk.injEq, and_true]
    omega
  · rw [List.cons_append, skipBlanks_of_head (by decide)]
    simp only [readYear?, hread, Option.map_some, Option.some.injEq, Prod.mk.injEq, and_true]
    omega
  · obtain rfl : w = 4 := by
      rw [hw, if_pos (by omega)]
    rw [skipBlanks_fixedDigits hpos]
    obtain ⟨c, ds, hcons, hc⟩ := fixedDigits_eq_cons hpos y.natAbs
    have h4 := readNat?_fixedDigits hpos (Nat.le_refl 4) hn hs
    rw [hcons, List.cons_append] at h4 ⊢
    unfold readYear?
    split
    · rename_i heq
      cases heq
      cases hc
    · rename_i heq
      cases heq
      cases hc
    · simp only [h4, Option.map_some, Option.some.injEq, Prod.mk.injEq, and_true]
      omega

theorem readFraction?_fractionText {n : Nat} (hn : n < 1000000000) {s : List Char}
    (hs : EndsDigits s) (hdot : s.head? ≠ some '.') :
    readFraction? (fractionText n ++ s) = some (n, s) := by
  have hdigits : ∀ {w m : Nat}, 0 < w → w ≤ 9 → m < tenTo w → m * tenTo (9 - w) = n →
      readFraction? ('.' :: fixedDigits w m ++ s) = some (n, s) := by
    intro w m hw hw' hm hmn
    have hdrop : s.dropWhile Char.isDigit = s := by
      rcases s with _ | ⟨c, s⟩
      · rfl
      · rw [List.dropWhile_cons_of_neg (by simp [hs c rfl])]
    simp [readFraction?, takeDigits?_fixedDigits hw hw' m hs, natOfDigits_fixedDigits hm, hmn,
      hdrop]
  unfold fractionText
  split_ifs with h0 h3 h6
  · rw [h0, List.nil_append]
    unfold readFraction?
    split
    · exact absurd rfl hdot
    · rfl
  · exact hdigits (by decide) (by decide) (by simp [tenTo]; omega) (by simp [tenTo]; omega)
  · exact hdigits (by decide) (by decide) (by simp [tenTo]; omega) (by simp [tenTo]; omega)
  · exact hdigits (by decide) (by decide) (by simp [tenTo]; omega) (by simp [tenTo])

theorem readDate?_chars {d : Date} (hy : firstYear ≤ d.year ∧ d.year ≤ lastYear)
    (hm : d.month < 100) (hd : d.day < 100) {s : List Char} (hs : EndsDigits s) :
    readDate? (yearText d.year ++ '-' :: (fixedDigits 2 d.month
      ++ '-' :: (fixedDigits 2 d.day ++ s))) = some (d, s) := by
  have hyear := readYear?_yearText hy
    (s := '-' :: (fixedDigits 2 d.month ++ '-' :: (fixedDigits 2 d.day ++ s)))
    (by simp [EndsDigits])
  have hmonth := readMarkedPart?_fixedDigits (m := '-') (by decide) hm
    (s := '-' :: (fixedDigits 2 d.day ++ s)) (by simp [EndsDigits])
  have hday := readMarkedPart?_fixedDigits (m := '-') (by decide) hd hs
  simp [readDate?, hyear, hmonth, hday]

/-- A clock shows no second past the sixtieth, and what it shows gives back the second of the day
and the nanoseconds, those of a leap second counted past a whole one. -/
theorem shown_second {t : Instant} (ht : t.IsOnClock) {leap : Nat}
    (hleap : leap = if t.IsOrdinary then 0 else 1) :
    t.secondOfDay % 60 + leap ≤ 60
      ∧ t.nano % 1000000000 + (t.secondOfDay % 60 + leap - 59) * 1000000000 = t.nano
      ∧ (t.secondOfDay % 60 + leap) - (t.secondOfDay % 60 + leap - 59) = t.secondOfDay % 60 := by
  have hnano := t.nano_lt
  unfold IsOnClock at ht
  unfold secondOfDay
  by_cases ho : t.IsOrdinary
  · rw [if_pos ho] at hleap
    unfold IsOrdinary at ho
    omega
  · rw [if_neg ho] at hleap
    unfold IsOrdinary at ho ht
    omega

theorem readTime?_chars {t : Instant} (ht : t.IsOnClock) {leap : Nat}
    (hleap : leap = if t.IsOrdinary then 0 else 1) {s : List Char} (hs : EndsDigits s)
    (hdot : s.head? ≠ some '.') :
    readTime? (fixedDigits 2 t.hour ++ ':' :: (fixedDigits 2 t.minute
      ++ ':' :: (fixedDigits 2 (t.secondOfDay % 60 + leap)
        ++ (fractionText (t.nano % 1000000000) ++ s))))
      = some (t.secondOfDay, t.nano, s) := by
  have hday : t.secondOfDay < 86400 := by
    unfold secondOfDay
    omega
  have hsecond := shown_second ht hleap
  have hfraction : EndsDigits (fractionText (t.nano % 1000000000) ++ s) := by
    unfold fractionText
    split_ifs
    · exact hs
    all_goals simp [EndsDigits]
  have hreadMinute := readMarkedPart?_fixedDigits (m := ':') (n := t.minute) (by decide)
    (by unfold minute; omega) (s := ':' :: (fixedDigits 2 (t.secondOfDay % 60 + leap)
      ++ (fractionText (t.nano % 1000000000) ++ s))) (by simp [EndsDigits])
  have hreadSecond := readMarkedPart?_fixedDigits (m := ':')
    (n := t.secondOfDay % 60 + leap) (by decide) (by omega) hfraction
  have hread := readFraction?_fractionText (n := t.nano % 1000000000) (by omega) hs hdot
  have hguard : t.hour ≤ 23 ∧ t.minute ≤ 59 ∧ t.secondOfDay % 60 + leap ≤ 60 := by
    unfold hour minute
    omega
  unfold readTime?
  rw [readPart?_fixedDigits (by unfold hour; omega) (by simp [EndsDigits])]
  simp only [bind, Option.bind, hreadMinute, hreadSecond, hread, if_pos hguard, Option.some.injEq,
    Prod.mk.injEq, and_true]
  unfold hour minute
  omega

/-- What a clock shows is read back from its text. -/
theorem ofText?_text {t : Instant} (ht : t.IsOnClock) : ofText? t.text = some t := by
  obtain ⟨hexists, hnumber, hmonth⟩ := Date.ofDayNumber_spec t.day
  have hyear := t.year_date_bounds
  have hday : t.date.day ≤ 31 := hexists.day_le
  have hdate := readDate?_chars hyear (Nat.lt_of_le_of_lt hmonth (by decide))
    (Nat.lt_of_le_of_lt hday (by decide)) (s := 'T' :: (fixedDigits 2 t.hour ++ ':' ::
      (fixedDigits 2 t.minute ++ ':' :: (fixedDigits 2
        (t.secondOfDay % 60 + if t.IsOrdinary then 0 else 1)
          ++ (fractionText (t.nano % 1000000000) ++ ['Z']))))) (by simp [EndsDigits])
  have htime := readTime?_chars ht rfl (s := ['Z']) (by simp [EndsDigits]) (by simp)
  have hzone : readZone? (skipBlanks ['Z']) = some (0, []) := by decide
  have hmk : mk? (t.date.dayNumber * 86400 + t.secondOfDay - 0) t.nano = some t := by
    rw [mk?_eq_some_iff, date, hnumber]
    unfold day secondOfDay
    omega
  unfold ofText? text chars
  simp only [String.toList_ofList, List.append_assoc, List.cons_append]
  unfold ofChars?
  simp only [bind, Option.bind, hdate, readGap?, true_or, if_true, htime, hzone]
  rw [if_pos ⟨hexists, hyear.1, hyear.2, rfl⟩, hmk]

theorem of_readFraction? {s r : List Char} {n : Nat} (h : readFraction? s = some (n, r)) :
    n < 1000000000 := by
  unfold readFraction? at h
  split at h
  · obtain ⟨⟨ds, u⟩, hu, h⟩ := Option.map_eq_some_iff.1 h
    obtain ⟨hlen, hall⟩ := of_takeDigits? hu
    have hlt := natOfDigits_lt hall
    rw [Prod.mk.injEq] at h
    calc n = natOfDigits ds * tenTo (9 - ds.length) := h.1.symm
      _ < tenTo ds.length * tenTo (9 - ds.length) :=
        Nat.mul_lt_mul_of_pos_right hlt (Nat.pow_pos (by decide))
      _ = tenTo 9 := by
        unfold tenTo
        rw [Nat.pow_eq, Nat.pow_eq, Nat.pow_eq, ← Nat.pow_add, Nat.add_sub_of_le hlen]
      _ = 1000000000 := rfl
  · cases h
    decide

theorem of_readTime? {s r : List Char} {second nano : Nat}
    (h : readTime? s = some (second, nano, r)) :
    nano < 1000000000 ∨ second % 60 = 59 := by
  unfold readTime? at h
  simp only [bind, Option.bind_eq_some_iff] at h
  obtain ⟨⟨hour, s₁⟩, -, ⟨minute, s₂⟩, -, ⟨sec, s₃⟩, -, ⟨fraction, s₄⟩, hfraction, h⟩ := h
  have hn := of_readFraction? hfraction
  split_ifs at h with hguard
  simp only [Option.some.injEq, Prod.mk.injEq] at h
  omega

theorem readOffset?_whole_minutes {s r : List Char} {n : Nat} (h : readOffset? s = some (n, r)) :
    n % 60 = 0 := by
  unfold readOffset? at h
  simp only [bind, Option.bind_eq_some_iff] at h
  obtain ⟨⟨hours, s₁⟩, -, ⟨minutes, s₂⟩, -, h⟩ := h
  split_ifs at h with hguard
  simp only [Option.some.injEq, Prod.mk.injEq] at h
  omega

theorem readZone?_whole_minutes {s r : List Char} {n : Int} (h : readZone? s = some (n, r)) :
    n % 60 = 0 := by
  unfold readZone? at h
  split at h
  · cases h
  · split_ifs at h
    · cases h
      rfl
    · cases h
      rfl
    · obtain ⟨⟨m, u⟩, hu, h⟩ := Option.map_eq_some_iff.1 h
      have := readOffset?_whole_minutes hu
      rw [Prod.mk.injEq] at h
      omega
    · obtain ⟨⟨m, u⟩, hu, h⟩ := Option.map_eq_some_iff.1 h
      have := readOffset?_whole_minutes hu
      rw [Prod.mk.injEq] at h
      omega

/-- Every text of an instant is of one that a clock shows. -/
theorem isOnClock_of_ofText? {s : String} {t : Instant} (h : ofText? s = some t) :
    t.IsOnClock := by
  unfold ofText? ofChars? at h
  simp only [bind, Option.bind_eq_some_iff] at h
  obtain ⟨⟨date, s₁⟩, -, s₂, -, ⟨second, nano, s₃⟩, htime, ⟨offset, s₄⟩, hzone, h⟩ := h
  have hsecond := of_readTime? htime
  have hoffset := readZone?_whole_minutes hzone
  split_ifs at h
  obtain ⟨hs, hn⟩ := mk?_eq_some_iff.1 h
  simp only [] at hs hn
  unfold IsOnClock IsOrdinary
  omega

/-- The instant is read from some text. -/
def HasText (t : Instant) : Prop := ∃ s, ofText? s = some t

/-- An instant has a text exactly if a clock can show it. -/
theorem hasText_iff {t : Instant} : t.HasText ↔ t.IsOnClock :=
  ⟨fun ⟨_, h⟩ => isOnClock_of_ofText? h, fun h => ⟨t.text, ofText?_text h⟩⟩

end Instant

end Datebook
