import Datebook.Proofs.Keys

/-!
# Slots

Two events are entered one after the other in a new store. In memory the second is refused exactly
if it claims the slot of the first, and what enters is given back as it was answered. A table tells
slots apart by their microseconds (`StorageKind.SameSlot`), in which a leap second runs into the
next one, so it keeps to this for as long as nothing that enters is in a leap second, and no longer
(`keepsSlots_iff`).
-/

namespace Datebook

theorem Instant.isOrdinary_floorMicros_iff {t : Instant} :
    t.floorMicros.IsOrdinary ↔ t.IsOrdinary := by
  unfold IsOrdinary floorMicros
  simp only []
  omega

theorem Event.isOrdinary_atStoragePrecision_iff {e : Event} :
    e.atStoragePrecision.IsOrdinary ↔ e.IsOrdinary := by
  constructor
  · intro h
    refine ⟨Instant.isOrdinary_floorMicros_iff.1 h.startTime,
      Instant.isOrdinary_floorMicros_iff.1 h.endTime, fun r hr => ?_⟩
    exact Instant.isOrdinary_floorMicros_iff.1 (h.reminderAt _ (Option.mem_map_of_mem _ hr))
  · exact Event.IsOrdinary.atStoragePrecision

namespace StorageKind

variable {k : StorageKind} {i : String} {a b e : Event}

/-- Storage of this kind takes the slots of the two events for one. -/
def SameSlot : StorageKind → Event → Event → Prop
  | .memory, a, b => a.CollidesWith b
  | .database, a, b => a.userId = b.userId ∧ a.startTime.micros = b.startTime.micros

instance : ∀ (k : StorageKind) (a b : Event), Decidable (k.SameSlot a b)
  | .memory, a, b => inferInstanceAs (Decidable (a.CollidesWith b))
  | .database, _, _ => inferInstanceAs (Decidable (_ ∧ _))

theorem sameSlot_of_collidesWith (h : a.CollidesWith b) : k.SameSlot a b := by
  cases k with
  | memory => exact h
  | database => exact ⟨h.1, congrArg Instant.micros h.2⟩

theorem sameSlot_withId : k.SameSlot { a with id := i } b ↔ k.SameSlot a b := by
  cases k <;> rfl

theorem Fits.sameSlot_iff (ha : k.Fits a) (hb : k.Fits b) : k.SameSlot a b ↔ a.CollidesWith b := by
  cases k with
  | memory => rfl
  | database =>
    exact and_congr_right fun _ =>
      Instant.micros_inj ha.1.startTime ha.2.startTime hb.1.startTime hb.2.startTime

theorem fits_atStoragePrecision_iff :
    k.Fits e.atStoragePrecision ↔ (k = .database → e.IsOrdinary) := by
  refine ⟨?_, fits_atStoragePrecision⟩
  rintro h rfl
  exact Event.isOrdinary_atStoragePrecision_iff.1 h.1

end StorageKind

namespace EventStore

variable {k : StorageKind} {s : EventStore} {i j : String} {a b e : Event}

/-- A valid event enters a store, unless one of the events there has its slot. -/
theorem create_of_valid {es : List Event} (hid : i ∉ es.map (·.id))
    (hv : e.atStoragePrecision.IsValid) :
    (ofEvents k es).create i e
      = if ∃ o ∈ es, k.SameSlot o e.atStoragePrecision then (.error .busy, ofEvents k es)
        else (.ok { e.atStoragePrecision with id := i },
          ofEvents k (es ++ [{ e.atStoragePrecision with id := i }])) := by
  have hflaw := Event.flaw?_eq_none_iff.2 hv
  cases k with
  | memory =>
    rw [create_ofEvents (k := .memory) (fun _ _ => trivial) hid trivial, hflaw]
    rfl
  | database =>
    have htaken : EventTable.Taken (es.map .ofEvent) e.atStoragePrecision
        ↔ ∃ o ∈ es, StorageKind.SameSlot .database o e.atStoragePrecision := by
      simp [EventTable.Taken, EventRow.ofEvent, StorageKind.SameSlot]
    simp only [ofEvents, create, onTable, EventTable.run_create, hflaw, htaken]
    split_ifs
    · rfl
    · simp

/-- The event enters the store under the id, and is valid and given back as it was answered. -/
def Enters (s : EventStore) (i : String) (a : Event) : Prop :=
  ∃ e, (s.create i a).1 = .ok e ∧ (s.create i a).2.get i = .ok e ∧ e.id = i ∧ e.IsValid

theorem enters_iff (h : s.IsKeyed) (hi : i ∉ s.ids) (hv : a.atStoragePrecision.IsValid) :
    s.Enters i a ↔ (s.create i a).1 = .ok { a.atStoragePrecision with id := i }
      ∧ s.kind.Fits a.atStoragePrecision := by
  obtain ⟨err, hc⟩ | ⟨hok, hentries⟩ := create_cases hi a
  · simp [Enters, hc]
  have hget : (s.create i a).2.get i = s.kind.copy { a.atStoragePrecision with id := i } := by
    refine get_of_mem_entries (create_isKeyed h hi a) ?_
    rw [hentries]
    exact List.mem_append_right _ (List.mem_singleton_self _)
  unfold Enters
  rw [hok, hget, and_iff_right rfl]
  constructor
  · rintro ⟨e, he, hcopy, -⟩
    obtain rfl := Except.ok.inj he
    exact (StorageKind.copy_eq_self_iff.1 hcopy).withId a.id
  · intro hfit
    exact ⟨_, rfl, StorageKind.copy_eq_self_iff.2 (hfit.withId i), rfl,
      hv.title, hv.userId, hv.startTime_le, hv.reminderAt_le⟩

/-- In a new store the first event enters, and then the second is refused if it claims the same
slot, and enters otherwise. -/
def KeepsSlots (k : StorageKind) (i : String) (a : Event) (j : String) (b : Event) : Prop :=
  (empty k).Enters i a
    ∧ if a.atStoragePrecision.CollidesWith b.atStoragePrecision then
        (((empty k).create i a).2.create j b).1 = .error .busy
      else ((empty k).create i a).2.Enters j b

theorem keepsSlots_iff_fits (hij : i ≠ j) (ha : a.atStoragePrecision.IsValid)
    (hb : b.atStoragePrecision.IsValid) :
    KeepsSlots k i a j b ↔ k.Fits a.atStoragePrecision
      ∧ (a.atStoragePrecision.CollidesWith b.atStoragePrecision ∨ k.Fits b.atStoragePrecision) := by
  have hi : i ∉ (empty k).ids := by simp
  have hfirst : (empty k).create i a = (.ok { a.atStoragePrecision with id := i },
      ofEvents k [{ a.atStoragePrecision with id := i }]) := by
    rw [← ofEvents_nil, create_of_valid (by simp) ha]
    simp
  have hkeyed := create_isKeyed (isKeyed_empty k) hi a
  have hslot : (∃ o ∈ [{ a.atStoragePrecision with id := i }], k.SameSlot o b.atStoragePrecision)
      ↔ k.SameSlot a.atStoragePrecision b.atStoragePrecision := by
    simp only [List.mem_singleton, exists_eq_left]
    exact StorageKind.sameSlot_withId
  unfold KeepsSlots
  rw [enters_iff (isKeyed_empty k) hi ha]
  rw [hfirst] at hkeyed ⊢
  rw [enters_iff hkeyed (by simpa using hij.symm) hb,
    create_of_valid (by simpa using hij.symm) hb]
  simp only [true_and, kind_empty, kind_ofEvents]
  refine and_congr_right fun hfit => ?_
  by_cases hc : a.atStoragePrecision.CollidesWith b.atStoragePrecision
  · rw [if_pos hc, if_pos (hslot.2 (StorageKind.sameSlot_of_collidesWith hc))]
    simp [hc]
  · rw [if_neg hc, or_iff_right hc, and_iff_right_iff_imp]
    intro hfit'
    rw [if_neg fun h => hc ((hfit.sameSlot_iff hfit').1 (hslot.1 h))]

/-- In memory every two valid events are told apart by their slots and given back as they were
answered. In a table this holds exactly if nothing that enters has an instant in a leap second. -/
theorem keepsSlots_iff (hij : i ≠ j) (ha : a.atStoragePrecision.IsValid)
    (hb : b.atStoragePrecision.IsValid) :
    KeepsSlots .memory i a j b
      ∧ (KeepsSlots .database i a j b ↔ a.IsOrdinary
        ∧ (a.atStoragePrecision.CollidesWith b.atStoragePrecision ∨ b.IsOrdinary)) := by
  constructor
  · rw [keepsSlots_iff_fits hij ha hb]
    exact ⟨trivial, Or.inr trivial⟩
  · rw [keepsSlots_iff_fits hij ha hb, StorageKind.fits_atStoragePrecision_iff,
      StorageKind.fits_atStoragePrecision_iff]
    simp only [true_imp_iff]

section Dinners

open Event Instant

def eveDinner : Event := dinner "" "Dinner" beforeEpoch

/-- In the middle of a leap second. -/
def leapDinner : Event := dinner "" "Dinner" (atTime 59 1500000000)

/-- In the middle of the second after it. -/
def nextDinner : Event := dinner "" "Supper" (atTime 60 500000000)

/-- From the end of the leap second to the beginning of the next. -/
def shortDinner : Event :=
  { leapDinner with startTime := atTime 59 1900000000, endTime := atTime 60 100000000 }

theorem keepsSlots_iff_dinners :
    "a" ≠ "b" ∧ eveDinner.atStoragePrecision.IsValid ∧ leapDinner.atStoragePrecision.IsValid
      ∧ KeepsSlots .memory "a" eveDinner "b" leapDinner
      ∧ ¬ KeepsSlots .database "a" eveDinner "b" leapDinner := by
  have ha : eveDinner.atStoragePrecision.IsValid := by decide
  have hb : leapDinner.atStoragePrecision.IsValid := by decide
  obtain ⟨hm, hd⟩ := keepsSlots_iff (i := "a") (j := "b") (by decide) ha hb
  exact ⟨by decide, ha, hb, hm, fun h => absurd (hd.1 h) (by decide)⟩

/-- A leap second and the second after it are two slots, of which a table lets only one be taken. An
event that starts in the one and ends in the other comes back from a table as one that ends before
its start. -/
theorem leap_second_takes_next_slot :
    (∀ e ∈ [leapDinner, nextDinner, shortDinner], e.atStoragePrecision.IsValid)
      ∧ ¬ leapDinner.atStoragePrecision.CollidesWith nextDinner.atStoragePrecision
      ∧ (((empty .memory).create "a" leapDinner).2.create "b" nextDinner).1
        = .ok { nextDinner with id := "b" }
      ∧ (((empty .database).create "a" leapDinner).2.create "b" nextDinner).1 = .error .busy
      ∧ ¬ KeepsSlots .database "a" leapDinner "b" nextDinner
      ∧ ((empty .database).create "a" shortDinner).1 = .ok { shortDinner with id := "a" }
      ∧ ∃ e, ((empty .database).create "a" shortDinner).2.get "a" = .ok e ∧ ¬ e.IsValid := by
  have hfree : ¬ leapDinner.atStoragePrecision.CollidesWith nextDinner.atStoragePrecision := by
    decide
  have hbusy : (((empty .database).create "a" leapDinner).2.create "b" nextDinner).1
      = .error .busy := by decide +kernel
  have hback : ((empty .database).create "a" shortDinner).2.get "a" = .ok { shortDinner with
      id := "a"
      startTime := atTime 60 900000000
      reminderAt := some (atTime 60 500000000) } := by decide +kernel
  refine ⟨by decide, hfree, by decide +kernel, hbusy, ?_, by decide +kernel, _, hback, by decide⟩
  rintro ⟨-, h⟩
  rw [if_neg hfree] at h
  obtain ⟨e, he, -⟩ := h
  rw [hbusy] at he
  cases he

end Dinners

end EventStore

end Datebook
