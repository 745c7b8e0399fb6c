import Datebook.Proofs.Validity
import Mathlib.Order.Bounds.Basic

/-!
# Instants cut to the microsecond

What an instant has beyond its whole microseconds can be taken off it wherever it lies, at the first
instant and in a leap second too (`sub?_finerNanos`), and leaves the last whole microsecond up to it
(`isGreatest_floorMicros`). Instants that are cut keep their order (`CutsTo.mono`), so storage
precision is a form of an event that breaks no rule that the event did not break, and that shares a
slot with every event that the event shared one with (`cutsTo_atStoragePrecision`).
-/

namespace Datebook

namespace Instant

variable {t u t' u' : Instant}

/-- The nanoseconds of an instant beyond its whole microseconds. -/
def finerNanos (t : Instant) : Span := (t.nano % 1000 : Nat)

/-- A move within the microsecond is one of the nanoseconds alone, in a leap second too. -/
theorem sub?_of_le_finer {n : Nat} (h : n ≤ t.nano % 1000) :
    t.sub? n = mk? t.second (t.nano - n) := by
  have hdiv : (-(n : Int)).tdiv 1000000000 = 0 := by
    rw [Int.neg_tdiv, Int.tdiv_eq_zero_of_lt (by omega) (by omega), Int.neg_zero]
  have hmod : (-(n : Int)).tmod 1000000000 = -n := by
    rw [Int.neg_tmod, Int.tmod_eq_of_lt (by omega) (by omega)]
  unfold sub? add? add?.normal?
  simp only [hdiv, hmod]
  by_cases ho : t.IsOrdinary
  · rw [if_pos ho]
    unfold IsOrdinary at ho
    congr 1 <;> omega
  · rw [if_neg ho, if_neg (by omega), if_neg (by omega)]
    congr 1
    omega

theorem sub?_finerNanos (t : Instant) : t.sub? t.finerNanos = some t.floorMicros := by
  rw [finerNanos, sub?_of_le_finer (Nat.le_refl _), mk?_eq_some_iff]
  exact ⟨rfl, rfl⟩

theorem isGreatest_floorMicros (t : Instant) :
    IsGreatest {v : Instant | v.IsWholeMicros ∧ v ≤ t} t.floorMicros := by
  refine ⟨⟨t.isWholeMicros_floorMicros, t.floorMicros_le⟩, fun v ⟨hv, hle⟩ => ?_⟩
  have hfloor := floorMicros_mono hle
  rwa [hv.floorMicros_eq] at hfloor

/-- The instant `u` is what is left of `t` without all that is finer than a microsecond, and no
whole microsecond up to `t` comes after it. -/
structure CutsTo (t u : Instant) : Prop where
  sub?_eq : t.sub? t.finerNanos = some u
  isGreatest : IsGreatest {v : Instant | v.IsWholeMicros ∧ v ≤ t} u

theorem cutsTo_floorMicros (t : Instant) : t.CutsTo t.floorMicros :=
  ⟨t.sub?_finerNanos, t.isGreatest_floorMicros⟩

theorem CutsTo.mono (ht : t.CutsTo t') (hu : u.CutsTo u') (h : t ≤ u) : t' ≤ u' :=
  hu.isGreatest.2 ⟨ht.isGreatest.1.1, le_trans ht.isGreatest.1.2 h⟩

end Instant

namespace Event

open Instant

variable {a b : Event}

/-- The event `b` has the instants of `a` cut to the microsecond, and the texts of `a`. -/
structure CutsTo (a b : Event) : Prop where
  startTime : a.startTime.CutsTo b.startTime
  endTime : a.endTime.CutsTo b.endTime
  reminderAt : Option.Rel Instant.CutsTo a.reminderAt b.reminderAt
  id : b.id = a.id
  title : b.title = a.title
  description : b.description = a.description
  userId : b.userId = a.userId

theorem rel_map_floorMicros (r : Option Instant) :
    Option.Rel Instant.CutsTo r (r.map floorMicros) := by
  cases r with
  | none => exact .none
  | some r => exact .some r.cutsTo_floorMicros

theorem IsValid.atStoragePrecision (h : a.IsValid) : a.atStoragePrecision.IsValid := by
  refine ⟨h.title, h.userId, floorMicros_mono h.startTime_le, fun r hr => ?_⟩
  obtain ⟨q, hq, rfl⟩ := Option.map_eq_some_iff.1 hr
  exact floorMicros_mono (h.reminderAt_le q hq)

theorem CollidesWith.atStoragePrecision (h : a.CollidesWith b) :
    a.atStoragePrecision.CollidesWith b.atStoragePrecision :=
  ⟨h.1, congrArg floorMicros h.2⟩

/-- Storage precision cuts every instant of an event to the microsecond, and cuts nothing more when
it comes again. What comes first still comes no later, a valid event stays valid, and two events of
one slot stay so. -/
theorem cutsTo_atStoragePrecision (a b : Event) :
    a.CutsTo a.atStoragePrecision
      ∧ a.atStoragePrecision.atStoragePrecision = a.atStoragePrecision
      ∧ (∀ t u t' u' : Instant, t.CutsTo t' → u.CutsTo u' → t ≤ u → t' ≤ u')
      ∧ (a.flaw? = none → a.atStoragePrecision.flaw? = none)
      ∧ (a.CollidesWith b → a.atStoragePrecision.CollidesWith b.atStoragePrecision) := by
  have hcuts : a.CutsTo a.atStoragePrecision :=
    ⟨a.startTime.cutsTo_floorMicros, a.endTime.cutsTo_floorMicros,
      rel_map_floorMicros a.reminderAt, rfl, rfl, rfl, rfl⟩
  refine ⟨hcuts, a.atStoragePrecision_atStoragePrecision, fun _ _ _ _ => Instant.CutsTo.mono,
    fun hvalid => ?_, CollidesWith.atStoragePrecision⟩
  exact flaw?_eq_none_iff.2 (flaw?_eq_none_iff.1 hvalid).atStoragePrecision

/-- A dinner in the very last nanosecond, which is in a leap second, with a reminder in the last
nanosecond before 1970. -/
def lastDinner (id : String) : Event where
  id := id
  title := "Dinner"
  description := ""
  startTime := atTime maxSecond 1999999999
  endTime := atTime maxSecond 1999999999
  userId := "ada"
  reminderAt := some beforeEpoch

theorem cutsTo_atStoragePrecision_lastDinner :
    (lastDinner "a").CutsTo (lastDinner "a").atStoragePrecision
      ∧ (atTime maxSecond 1999999999).CutsTo (atTime maxSecond 1999999000)
      ∧ beforeEpoch.CutsTo (atTime (-1) 999999000) ∧ first.CutsTo first
      ∧ beforeEpoch ≤ atTime maxSecond 1999999999
      ∧ atTime (-1) 999999000 ≤ atTime maxSecond 1999999000
      ∧ (lastDinner "a").flaw? = none ∧ (lastDinner "a").atStoragePrecision.flaw? = none
      ∧ (lastDinner "a").CollidesWith (lastDinner "b")
      ∧ (lastDinner "a").atStoragePrecision.CollidesWith
        (lastDinner "b").atStoragePrecision := by
  have hlast : (atTime maxSecond 1999999999).CutsTo (atTime maxSecond 1999999000) :=
    cutsTo_floorMicros _
  have hbefore : beforeEpoch.CutsTo (atTime (-1) 999999000) := cutsTo_floorMicros _
  have hle : beforeEpoch ≤ atTime maxSecond 1999999999 := by decide
  have hvalid : (lastDinner "a").flaw? = none := by decide
  have hslot : (lastDinner "a").CollidesWith (lastDinner "b") := by decide
  obtain ⟨hcuts, -, hmono, hkeeps, hcollide⟩ :=
    cutsTo_atStoragePrecision (lastDinner "a") (lastDinner "b")
  exact ⟨hcuts, hlast, hbefore, cutsTo_floorMicros _, hle, hmono _ _ _ _ hbefore hlast hle,
    hvalid, hkeeps hvalid, hslot, hcollide hslot⟩

end Event

end Datebook
