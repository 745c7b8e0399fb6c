import Datebook.Proofs.Turns

/-!
# When new events start

A request to make an event is refused if the start that it asks for is not after the clock
(`status_of_startTime_le`). The event is made with the whole microseconds of that start, so it may
start before the request came, but no earlier than the microsecond that the clock was in. It starts
after the clock exactly if that is not the microsecond of the start that was asked for
(`made_starts_later_iff`). What a table reads back starts no earlier (`startTime_le_of_copy`).
-/

namespace Datebook

theorem Instant.lt_floorMicros_iff {t u : Instant} (h : t < u) :
    t < u.floorMicros ↔ t.floorMicros ≠ u.floorMicros := by
  have hle : ¬ u ≤ t := fun hle => not_lt.2 hle h
  have hiff : u.floorMicros ≤ t ↔ t.floorMicros = u.floorMicros := by
    rw [floorMicros_le_iff_or, or_iff_right hle]
  rw [ne_eq, ← hiff, ← not_lt, not_not]

/-- An event in whole microseconds comes back as it was, or from the second after a leap second. -/
theorem StorageKind.startTime_le_of_copy {k : StorageKind} {e a : Event} (hw : e.IsWholeMicros)
    (h : k.copy e = .ok a) : e.startTime ≤ a.startTime := by
  cases k with
  | memory =>
    cases h
    exact Instant.le_refl _
  | database =>
    obtain ⟨hrow, ho, -⟩ := EventRow.event_eq_ok_iff.1 h
    have hmicros : e.startTime.micros = a.startTime.micros := congrArg EventRow.start hrow
    have hstart := ho.startTime
    have hwhole := hw.startTime
    unfold Instant.micros at hmicros
    unfold Instant.IsOrdinary at hstart
    unfold Instant.IsWholeMicros at hwhole
    rw [Instant.le_def]
    omega

namespace Api

theorem EventBody.event_withId {b : EventBody} {i : String} {e : Event} (h : b.event i = .ok e)
    (id : String) : b.event id = .ok { e with id } := by
  unfold event at h ⊢
  rw [bind_eq_ok_iff] at h
  obtain ⟨reminder, hr, h⟩ := h
  cases h
  rw [hr]
  rfl

theorem EventBody.event_startTime {b : EventBody} {id : String} {e : Event}
    (h : b.event id = .ok e) : e.startTime = b.startTime := by
  unfold event at h
  rw [bind_eq_ok_iff] at h
  obtain ⟨reminder, -, h⟩ := h
  cases h
  rfl

namespace Gateway

variable {ids : Nat → String} {now : Instant} {r : HttpRequest} {g : Gateway EventStore}

theorem status_of_startTime_le (hm : r.method = .post) (hp : r.target.path = octetsOf "/events")
    {b : EventBody} (hb : readBody r = .ok b) (hle : b.startTime ≤ now) :
    (answer ids now r g).1.status = 400 := by
  rw [answer_post_events hm hp]
  simp only [create, hb, if_pos hle]
  rfl

/-- The request is answered with this event, and the event is entered in the store. -/
structure Makes (ids : Nat → String) (now : Instant) (r : HttpRequest) (g : Gateway EventStore)
    (e : Event) :
    Prop where
  id_eq : e.id = ids g.given
  answer_eq : (answer ids now r g).1 = .ofEvent 201 e
  entries_eq : (answer ids now r g).2.store.entries
    = g.store.entries ++ [(e.id, g.store.kind.copy e)]

/-- The event that is made is the one that was asked for, to the microsecond. It starts after `now`
unless it was to start later in the very same microsecond, in which case it starts with that. -/
theorem made_starts_later_iff (hm : r.method = .post) (hp : r.target.path = octetsOf "/events")
    (hnew : ids g.given ∉ g.store.ids) (h : (answer ids now r g).1.status = 201) :
    ∃ b e a, readBody r = .ok b ∧ now < b.startTime ∧ b.event (ids g.given) = .ok e
      ∧ a = e.atStoragePrecision ∧ Makes ids now r g a
      ∧ a.startTime = b.startTime.floorMicros ∧ now.floorMicros ≤ a.startTime
      ∧ (now < a.startTime ↔ now.floorMicros ≠ b.startTime.floorMicros)
      ∧ ∀ a', g.store.kind.copy a = .ok a' → a.startTime ≤ a'.startTime := by
  have hturn := answer_turn ids now r g
  generalize hanswer : answer ids now r g = result at h hturn
  cases hturn with
  | idle hidle =>
    simp only [hm, reduceCtorEq, false_or] at hidle
    exact absurd (h ▸ hidle) (by decide)
  | replaced hm' => simp only [hm, reduceCtorEq] at hm'
  | removed hm' => simp only [hm, reduceCtorEq] at hm'
  | @created b e a store _ hb he hs =>
    have hlater : now < b.startTime := by
      by_contra hle
      have hstatus : (answer ids now r g).1.status = 400 :=
        status_of_startTime_le hm hp hb (Instant.not_lt.1 hle)
      rw [hanswer] at hstatus
      cases hstatus
    obtain ⟨err, hfails⟩ | ⟨hok, hentries⟩ := EventStore.create_cases hnew e
    · rw [hs] at hfails
      cases hfails
    rw [hs] at hok hentries
    obtain rfl := Except.ok.inj hok
    have hmakes : Makes ids now r g { e.atStoragePrecision with id := ids g.given } :=
      ⟨rfl, congrArg Prod.fst hanswer, by rw [hanswer]; exact hentries⟩
    have hstart : { e.atStoragePrecision with id := ids g.given }.startTime
        = b.startTime.floorMicros := congrArg Instant.floorMicros (EventBody.event_startTime he)
    have hw := e.isWholeMicros_atStoragePrecision
    refine ⟨b, { e with id := ids g.given }, { e.atStoragePrecision with id := ids g.given }, hb,
      hlater, EventBody.event_withId he _, rfl, hmakes, hstart, ?_, ?_, fun a' ha' => ?_⟩
    · rw [hstart]
      exact Instant.floorMicros_mono (Instant.le_of_lt hlater)
    · rw [hstart]
      exact Instant.lt_floorMicros_iff hlater
    · exact StorageKind.startTime_le_of_copy ⟨hw.startTime, hw.endTime, hw.reminderAt⟩ ha'

open Instant

/-- The last nanosecond of the first microsecond of a year. -/
def lateStart : Instant := atTime 7258118400 999

/-- A request to make a party that starts and ends then. -/
def lateParty : HttpRequest where
  method := .post
  target := .ofText "/events"
  mediaType := some "application/json"
  body := octetsOf ("\x7b\"title\":\"Party\",\"user_id\":\"ada\","
    ++ "\"start_time\":\"2200-01-01T00:00:00.000000999Z\","
    ++ "\"end_time\":\"2200-01-01T00:00:00.000000999Z\"\x7d")

theorem path_lateParty : lateParty.target.path = octetsOf "/events" := by decide

theorem readBody_lateParty :
    readBody lateParty = .ok ⟨"Party", "", lateStart, lateStart, "ada", none⟩ := by
  decide +kernel

/-- The party as it is made. -/
def earlyParty : Event :=
  ⟨"0", "Party", "", atTime 7258118400 0, atTime 7258118400 0, "ada", none⟩

theorem answer_lateParty {now : Instant} (h : now < lateStart) (k : StorageKind) :
    answer toString now lateParty (opened k)
      = (.ofEvent 201 earlyParty, ⟨.ofEvents k [earlyParty], 1⟩) := by
  have hlater : ¬ lateStart ≤ now := fun hle => Instant.not_lt.2 hle h
  have hcreate : create toString now lateParty (opened k)
      = (.ok earlyParty, ⟨.ofEvents k [earlyParty], 1⟩) := by
    simp only [create, readBody_lateParty, if_neg hlater]
    cases k <;> rfl
  rw [answer_post_events rfl path_lateParty, hcreate]
  rfl

theorem made_starts_later_iff_lateParty :
    lateParty.method = .post ∧ lateParty.target.path = octetsOf "/events"
      ∧ toString 0 ∉ (EventStore.empty .database).ids
      ∧ (answer toString (atTime 0 0) lateParty (opened .database)).1.status = 201
      ∧ ∃ a, Makes toString (atTime 0 0) lateParty (opened .database) a
        ∧ atTime 0 0 < a.startTime := by
  have hnew : toString 0 ∉ (EventStore.empty .database).ids := by simp
  have h : (answer toString (atTime 0 0) lateParty (opened .database)).1.status = 201 := by
    rw [answer_lateParty (by decide)]
    rfl
  obtain ⟨b, _, a, hb, -, -, -, hmakes, -, -, hiff, -⟩ :=
    made_starts_later_iff rfl path_lateParty hnew h
  refine ⟨rfl, path_lateParty, hnew, h, a, hmakes, hiff.2 ?_⟩
  rw [readBody_lateParty] at hb
  cases hb
  decide

/-- A party that is to start later in the microsecond that the clock is in is made, and starts with
that microsecond, which began before. -/
theorem party_starts_before_clock :
    ¬ atTime 7258118400 500 < earlyParty.startTime ∧ ∀ k ∈ [StorageKind.memory, .database],
      Makes toString (atTime 7258118400 500) lateParty (opened k) earlyParty
        ∧ (answer toString (atTime 7258118400 500) lateParty
          (opened k)).2.store.Holds [earlyParty] := by
  refine ⟨by decide, fun k _ => ?_⟩
  have hclock : atTime 7258118400 500 < lateStart := by decide
  have hanswer := answer_lateParty hclock k
  have hid : earlyParty.id = toString 0 := by decide
  have hfits : k.Fits earlyParty := by
    cases k <;> decide
  have hholds : (EventStore.ofEvents k [earlyParty]).Holds [earlyParty] :=
    EventStore.holds_iff.2 ⟨k, rfl, by simpa using hfits⟩
  have hkind : (opened k).store.kind = k := EventStore.kind_empty k
  have hnone : (opened k).store.entries = [] :=
    List.map_eq_nil_iff.1 (EventStore.ids_empty k)
  refine ⟨⟨hid, by rw [hanswer], ?_⟩, by rw [hanswer]; exact hholds⟩
  rw [hanswer, hkind, hnone, StorageKind.copy_eq_self_iff.2 hfits]
  exact hholds

end Gateway

end Api

end Datebook
