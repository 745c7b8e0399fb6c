import Datebook.Proofs.Periods

/-!
# How long events are kept

The cutoff of a cleanup is the instant that lies the retention before the tick, or the first instant
if that would be before the calendar (`cutoff_nanos`). Up to the cutoff start the events that are at
least as old as the retention, and one that starts with the calendar, however young it is
(`le_cutoff_iff`). So a tick keeps all that is younger than the retention exactly if nothing that
young starts with the calendar (`tick_keeps_young_iff`).
-/

namespace Datebook

/-- How long ago the event started, in nanoseconds; less than 0 if it has not yet. -/
def Event.age (now : Instant) (e : Event) : Int := now.nanos - e.startTime.nanos

theorem EventStore.Holds.unique {s : EventStore} {es es' : List Event} (h : s.Holds es)
    (h' : s.Holds es') : es = es' := by
  have hinj : Function.Injective fun e : Event =>
      ((e.id, .ok e) : String × Except StoreError Event) := by
    intro a b hab
    simpa using congrArg Prod.snd hab
  exact hinj.list_map (Eq.trans (Eq.symm h) h')

namespace Tick

variable {s : SchedulerSettings} {now : Instant} {e : Event}

/-- The event is at least as old as the retention. -/
def IsOld (s : SchedulerSettings) (now : Instant) (e : Event) : Prop :=
  (s.retentionSecs : Int) * 1000000000 ≤ e.age now

instance (s : SchedulerSettings) (now : Instant) (e : Event) : Decidable (IsOld s now e) :=
  inferInstanceAs (Decidable (_ ≤ _))

theorem le_cutoff_iff (hnow : now.IsOrdinary) (he : e.startTime.IsOrdinary) :
    e.startTime ≤ cutoff s now ↔ IsOld s now e ∨ e.startTime = Instant.first := by
  have hfirst := (Instant.nanos_le_nanos Instant.isOrdinary_first he).2 e.startTime.first_le
  have hstart : e.startTime = Instant.first ↔ e.startTime.nanos = Instant.first.nanos :=
    ⟨congrArg _, Instant.eq_of_nanos_eq he Instant.isOrdinary_first⟩
  rw [← Instant.nanos_le_nanos he (isOrdinary_cutoff hnow), cutoff_nanos hnow, hstart]
  unfold IsOld Event.age
  omega

/-- Nothing is older than the calendar. -/
theorem not_isOld_of_lt (he : e.startTime.IsOrdinary)
    (h : now.nanos - Instant.first.nanos < (s.retentionSecs : Int) * 1000000000) :
    ¬ IsOld s now e := by
  have hfirst := (Instant.nanos_le_nanos Instant.isOrdinary_first he).2 e.startTime.first_le
  unfold IsOld Event.age
  omega

end Tick

namespace Bench

open EventStore Tick

variable {π : Type} (c : Conditions π) (s : SchedulerSettings)

/-- The tick leaves those of these events that are younger than the retention, and no others. -/
def KeepsYoung (now : Instant) (b : Bench π) (es : List Event) : Prop :=
  (b.tick c s now).2.store.Holds (es.filter fun e => ¬ IsOld s now e)

/-- If no call of the cleanup fails, a tick removes the events that are as old as the retention or
older, and those that start with the calendar; the latter are all that it removes if the retention
is longer than the time since then. -/
theorem tick_keeps_young_iff {now : Instant} (hnow : now.IsOrdinary) {b : Bench π}
    {es : List Event} (hb : b.store.Holds es) (hn : (es.map (·.id)).Nodup)
    (hes : ∀ e ∈ es, e.startTime.IsOrdinary) (hl : c.listFails 1 = none)
    (hd : ∀ id, c.deleteFails id = none) :
    (b.tick c s now).2.store.Holds
        (es.filter fun e => ¬ (IsOld s now e ∨ e.startTime = Instant.first))
      ∧ (b.tick c s now).1.deleted
        = (es.filter fun e => IsOld s now e ∨ e.startTime = Instant.first).length
      ∧ (KeepsYoung c s now b es ↔ ∀ e ∈ es, e.startTime = Instant.first → IsOld s now e)
      ∧ (now.nanos - Instant.first.nanos < (s.retentionSecs : Int) * 1000000000 →
        (b.tick c s now).2.store.Holds (es.filter fun e => e.startTime ≠ Instant.first)) := by
  obtain ⟨k, hk, hfit⟩ := holds_iff.1 hb
  obtain ⟨_, _, _, _, -, -, hrun⟩ := tick_run c s now hk hfit hn
  have hremoves : ∀ e ∈ es, c.Removes k 1 (cutoff s now) e
      ↔ IsOld s now e ∨ e.startTime = Instant.first := by
    intro e he
    unfold Conditions.Removes
    rw [(hfit e he).inWindow_iff fun _ => ⟨by decide, by decide, isOrdinary_cutoff hnow⟩,
      and_iff_right hl, and_iff_left (hd e.id), and_iff_right e.startTime.first_le,
      le_cutoff_iff hnow (hes e he)]
  have hleft : (b.tick c s now).2.store.Holds
      (es.filter fun e => ¬ (IsOld s now e ∨ e.startTime = Instant.first)) := by
    rw [hrun, ← filter_congr_iff fun e he => not_congr (hremoves e he)]
    exact holds_iff.2 ⟨k, rfl, fun e he => hfit e (List.mem_filter.1 he).1⟩
  refine ⟨hleft, ?_, ⟨fun hyoung e he hfirst => ?_, fun hold => ?_⟩, fun hlong => ?_⟩
  · rw [hrun, ← filter_congr_iff hremoves]
  · by_contra hage
    have hmem : e ∈ es.filter fun e => ¬ IsOld s now e :=
      List.mem_filter.2 ⟨he, decide_eq_true hage⟩
    rw [hyoung.unique hleft, List.mem_filter, decide_eq_true_eq] at hmem
    exact hmem.2 (Or.inr hfirst)
  · have hsame : (es.filter fun e => ¬ IsOld s now e)
        = es.filter fun e => ¬ (IsOld s now e ∨ e.startTime = Instant.first) :=
      filter_congr_iff fun e he => by rw [or_iff_left_of_imp (hold e he)]
    unfold KeepsYoung
    rw [hsame]
    exact hleft
  · have hsame : (es.filter fun e => e.startTime ≠ Instant.first)
        = es.filter fun e => ¬ (IsOld s now e ∨ e.startTime = Instant.first) :=
      filter_congr_iff fun e he => by rw [or_iff_right (not_isOld_of_lt (hes e he) hlong)]
    rw [hsame]
    exact hleft

open Event Instant

/-- The longest retention that there is. -/
def ageless : SchedulerSettings := ⟨60, twoTo 64 - 1⟩

/-- A dinner that is as old as the calendar, one of an hour ago, and one to come. -/
def pastDinners : List Event :=
  [dinner "a" "Dinner" first, dinner "b" "Dinner" (atTime (-3600) 0),
    dinner "c" "Supper" (atTime 3600 0)]

theorem tick_keeps_young_iff_pastDinners :
    (atTime 0 0).IsOrdinary ∧ (new (ofEvents .database pastDinners) ()).store.Holds pastDinners
      ∧ (pastDinners.map (·.id)).Nodup ∧ (∀ e ∈ pastDinners, e.startTime.IsOrdinary)
      ∧ fair.listFails 1 = none ∧ (∀ id, fair.deleteFails id = none)
      ∧ ((new (ofEvents .database pastDinners) ()).tick fair ⟨60, 3600⟩ (atTime 0 0)).2.store.Holds
        [dinner "c" "Supper" (atTime 3600 0)]
      ∧ KeepsYoung fair ⟨60, 3600⟩ (atTime 0 0) (new (ofEvents .database pastDinners) ())
        pastDinners := by
  have hnow : (atTime 0 0).IsOrdinary := by decide
  have hb : (new (ofEvents .database pastDinners) ()).store.Holds pastDinners :=
    holds_iff.2 ⟨.database, rfl, by decide⟩
  have hn : (pastDinners.map (·.id)).Nodup := by decide
  have hes : ∀ e ∈ pastDinners, e.startTime.IsOrdinary := by decide
  obtain ⟨hleft, -, hyoung, -⟩ :=
    tick_keeps_young_iff fair ⟨60, 3600⟩ hnow hb hn hes rfl fun _ => rfl
  exact ⟨hnow, hb, hn, hes, rfl, fun _ => rfl, hleft, hyoung.2 (by decide)⟩

/-- A dinner that starts with the calendar. -/
def firstDinner : Event := dinner "a" "Dinner" first

/-- However long events are to be kept, one that starts with the calendar is removed. -/
theorem firstDinner_removed :
    IsAgenda [firstDinner] ∧ (atTime 0 0).IsOrdinary ∧ firstDinner.startTime.IsOrdinary
      ∧ fair.AreGood ∧ ¬ IsOld ageless (atTime 0 0) firstDinner
      ∧ ∀ k ∈ [StorageKind.memory, .database], (ofEvents k [firstDinner]).Holds [firstDinner]
        ∧ ((new (ofEvents k [firstDinner]) ()).tick fair ageless (atTime 0 0)).1.deleted = 1
        ∧ ((new (ofEvents k [firstDinner]) ()).tick fair ageless (atTime 0 0)).2.store
          = ofEvents k []
        ∧ ¬ KeepsYoung fair ageless (atTime 0 0) (new (ofEvents k [firstDinner]) ())
          [firstDinner] := by
  have hyoung : ¬ IsOld ageless (atTime 0 0) firstDinner := by decide
  refine ⟨by decide, by decide, by decide, fair_areGood, hyoung, fun k hk => ?_⟩
  have hrun : ((new (ofEvents k [firstDinner]) ()).tick fair ageless (atTime 0 0)).1.deleted = 1
      ∧ ((new (ofEvents k [firstDinner]) ()).tick fair ageless (atTime 0 0)).2.store
        = ofEvents k [] := by
    cases k <;> decide +kernel
  have hfits : ∀ e ∈ [firstDinner], k.Fits e := by
    cases k <;> decide
  refine ⟨holds_iff.2 ⟨k, rfl, hfits⟩, hrun.1, hrun.2, fun hkeeps => ?_⟩
  unfold KeepsYoung at hkeeps
  rw [hrun.2] at hkeeps
  have hnil : (ofEvents k []).Holds [] := holds_iff.2 ⟨k, rfl, by simp⟩
  exact absurd (hkeeps.unique hnil) (by decide)

end Bench

end Datebook
