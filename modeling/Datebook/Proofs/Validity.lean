import Datebook.Event
import Datebook.Proofs.Micros

/-!
# Valid events

An event is valid if it breaks none of the rules (`flaw?_eq_none_iff`). Brought to storage precision
it has whole microseconds, and it is still outside every leap second if it was so before.
-/

namespace Datebook

namespace Event

/-- No instant of the event is in a leap second. -/
structure IsOrdinary (e : Event) : Prop where
  startTime : e.startTime.IsOrdinary
  endTime : e.endTime.IsOrdinary
  reminderAt : ∀ r ∈ e.reminderAt, r.IsOrdinary

instance (e : Event) : Decidable e.IsOrdinary :=
  decidable_of_iff
    (e.startTime.IsOrdinary ∧ e.endTime.IsOrdinary ∧ ∀ r ∈ e.reminderAt, r.IsOrdinary)
    ⟨fun h => ⟨h.1, h.2.1, h.2.2⟩, fun h => ⟨h.startTime, h.endTime, h.reminderAt⟩⟩

/-- Every instant of the event is a whole number of microseconds. -/
structure IsWholeMicros (e : Event) : Prop where
  startTime : e.startTime.IsWholeMicros
  endTime : e.endTime.IsWholeMicros
  reminderAt : ∀ r ∈ e.reminderAt, r.IsWholeMicros

/-- The event breaks none of the rules. -/
structure IsValid (e : Event) : Prop where
  title : isBlank e.title = false
  userId : isBlank e.userId = false
  startTime_le : e.startTime ≤ e.endTime
  reminderAt_le : ∀ r ∈ e.reminderAt, r ≤ e.startTime

instance (e : Event) : Decidable e.IsWholeMicros :=
  decidable_of_iff
    (e.startTime.IsWholeMicros ∧ e.endTime.IsWholeMicros ∧ ∀ r ∈ e.reminderAt, r.IsWholeMicros)
    ⟨fun h => ⟨h.1, h.2.1, h.2.2⟩, fun h => ⟨h.startTime, h.endTime, h.reminderAt⟩⟩

theorem flaw?_eq_none_iff {e : Event} : e.flaw? = none ↔ e.IsValid := by
  unfold flaw? remindsLate
  constructor
  · intro h
    split_ifs at h with h1 h2 h3 h4
    refine ⟨by simpa using h1, by simpa using h2, Instant.not_lt.1 h3, fun r hr => ?_⟩
    rw [Option.mem_def] at hr
    simpa [hr, Instant.not_lt] using h4
  · rintro ⟨h1, h2, h3, h4⟩
    rw [if_neg (by simp [h1]), if_neg (by simp [h2]), if_neg (Instant.not_lt.2 h3), if_neg]
    rcases hr : e.reminderAt with _ | r
    · simp
    · simpa [Instant.not_lt] using h4 r hr

instance (e : Event) : Decidable e.IsValid := decidable_of_iff _ flaw?_eq_none_iff

theorem IsOrdinary.atStoragePrecision {e : Event} (h : e.IsOrdinary) :
    e.atStoragePrecision.IsOrdinary := by
  refine ⟨h.startTime.floorMicros, h.endTime.floorMicros, fun r hr => ?_⟩
  obtain ⟨q, hq, rfl⟩ := Option.map_eq_some_iff.1 hr
  exact (h.reminderAt q hq).floorMicros

theorem isWholeMicros_atStoragePrecision (e : Event) : e.atStoragePrecision.IsWholeMicros := by
  refine ⟨Instant.isWholeMicros_floorMicros _, Instant.isWholeMicros_floorMicros _, fun r hr => ?_⟩
  obtain ⟨q, -, rfl⟩ := Option.map_eq_some_iff.1 hr
  exact Instant.isWholeMicros_floorMicros _

theorem atStoragePrecision_atStoragePrecision (e : Event) :
    e.atStoragePrecision.atStoragePrecision = e.atStoragePrecision := by
  have hf : ∀ t : Instant, t.floorMicros.floorMicros = t.floorMicros := by
    intro t
    rw [Instant.eq_iff]
    simp only [Instant.floorMicros, true_and]
    omega
  simp [atStoragePrecision, hf, Option.map_map, Function.comp_def]

@[simp] theorem atStoragePrecision_id (e : Event) : e.atStoragePrecision.id = e.id := rfl

end Event

/-- The instant of that second and nanosecond, or the first one. -/
def Instant.atTime (second : Int) (nano : Nat) : Instant := (mk? second nano).getD first

def Instant.beforeEpoch : Instant := .atTime (-1) 999999999

/-- An event that is over as it starts, with its reminder then. -/
def Event.dinner (id title : String) (t : Instant) : Event := ⟨id, title, "", t, t, "ada", some t⟩

end Datebook
