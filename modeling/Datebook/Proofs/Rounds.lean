import Datebook.Proofs.Keys
import Datebook.Proofs.Periods
import Datebook.Proofs.Upkeep

/-!
# Ticks at least one interval apart

Between ticks that are an interval or more apart, clients call as they like, and in a tick anything
may fail. Each tick offers only what it found in the store, nothing twice, and with a reminder
strictly inside its own window (`visits_isSound`). The windows of any two ticks are apart, so a
reminder that is the same at both is offered by one of them at most.
-/

namespace Datebook

namespace Tick

/-- The later tick is an interval after the first, or more; an interval that would leave the
calendar ends with it. That it is no earlier follows from this, unless the first tick is in the leap
second after the last instant (`isSpaced_iff`). -/
structure IsSpaced (s : SchedulerSettings) (now later : Instant) : Prop where
  le : now ≤ later
  next_le : (now.add? (Span.ofMillis s.intervalMillis)).getD Instant.last ≤ later

variable {s : SchedulerSettings} {now later : Instant}

instance : Decidable (IsSpaced s now later) :=
  decidable_of_iff (_ ∧ _) ⟨fun h => ⟨h.1, h.2⟩, fun h => ⟨h.le, h.next_le⟩⟩

/-- Only from within a leap second at the end of the calendar does an interval lead back. -/
theorem isSpaced_iff (h : now ≤ Instant.last) :
    IsSpaced s now later
      ↔ (now.add? (Span.ofMillis s.intervalMillis)).getD Instant.last ≤ later := by
  refine ⟨IsSpaced.next_le, fun hnext => ⟨Instant.le_trans ?_ hnext, hnext⟩⟩
  rcases hu : now.add? (Span.ofMillis s.intervalMillis) with _ | u
  · exact h
  · refine Instant.le_of_add? ?_ hu
    unfold Span.ofMillis
    omega

theorem IsSpaced.windowEnd_le (h : IsSpaced s now later) : windowEnd s now ≤ later :=
  windowEnd_eq s now ▸ h.next_le

instance : Trans (IsSpaced s) (IsSpaced s) (IsSpaced s) :=
  ⟨fun h h' => ⟨Instant.le_trans h.le h'.le, Instant.le_trans h.next_le h'.le⟩⟩

/-- No reminder is inside the windows of both. -/
theorem IsSpaced.not_isDue (h : IsSpaced s now later) {e e' : Event}
    (hr : e.reminderAt = e'.reminderAt) (he : IsDue now (windowEnd s now) e) :
    ¬ IsDue later (windowEnd s later) e' := by
  rintro ⟨r, hr', hlater, -⟩
  obtain ⟨r', hr'', -, hend⟩ := he
  obtain rfl : r' = r := by
    rw [hr, Option.mem_def.1 hr'] at hr''
    exact (Option.some.inj hr'').symm
  exact Instant.not_lt.2 (Instant.le_trans h.windowEnd_le (Instant.le_of_lt hlater)) hend

end Tick

variable {π : Type}

namespace Conditions

open EventStore Tick

variable (c : Conditions π) (s : SchedulerSettings) (now : Instant) (b : Bench π)

theorem answer_sublist (r : Request) (b : Bench π) :
    (c.answer r b).2.store.entries.Sublist b.store.entries := by
  cases r with
  | list start finish => exact List.Sublist.refl _
  | newId => exact List.Sublist.refl _
  | send n => exact List.Sublist.refl _
  | delete id =>
    rcases hf : c.deleteFails id with _ | err
    · simp only [answer, hf, entries_delete]
      exact List.filter_sublist
    · simp only [answer, hf]
      exact List.Sublist.refl _

theorem eventIds_eq {c : Conditions π} {now : Instant} {offered : List Offer} {es : List Event}
    (h : List.Forall₂ (c.Offers now) offered es) :
    offered.map (·.1.eventId) = es.map (·.id) := by
  induction h with
  | nil => rfl
  | cons h _ ih => rw [List.map_cons, List.map_cons, h.1.eventId, ih]

theorem cleanupPass_offers : ((cleanupPass s now).run c.answer b).2.offers = b.offers := by
  have hdelete : ∀ r, (∃ i, r = .delete i) → ∀ b' : Bench π, b'.offers = b.offers →
      (c.answer r b').2.offers = b.offers := by
    rintro r ⟨i, rfl⟩ b' h
    rcases hf : c.deleteFails i with _ | err <;> simpa only [answer, hf] using h
  unfold cleanupPass
  simp only [ask, Script.run_bind, Script.run_query]
  rcases (c.answer (.list Instant.first (cutoff s now)) b).1 with err | l
  · rfl
  · have hasks : (deleteAll l).Asks fun r => ∃ i, r = .delete i := by
      refine (deleteAll_asks l).imp ?_
      rintro r ⟨i, -, rfl⟩
      exact ⟨i, rfl⟩
    exact Script.run_keeps hdelete hasks rfl

theorem notifyPass_offers (hb : b.store.IsKeyed) :
    ∃ (due : List Event) (offered : List Offer),
      ((notifyPass s now).run c.answer b).2.offers = b.offers ++ offered
      ∧ List.Forall₂ (c.Offers now) offered due ∧ (due.map (·.id)).Nodup
      ∧ ∀ e ∈ due, (e.id, .ok e) ∈ b.store.entries ∧ IsDue now (windowEnd s now) e := by
  unfold notifyPass
  simp only [ask, Script.run_bind, Script.run_query, answer]
  rcases hl : (c.listFails b.listed).elim (b.store.list now (windowEnd s now)) .error with err | l
  · exact ⟨[], [], by simp, .nil, by simp⟩
  · have hl' : b.store.list now (windowEnd s now) = .ok l := by
      rcases hf : c.listFails b.listed with _ | err
      · rwa [hf] at hl
      · rw [hf] at hl
        cases hl
    obtain ⟨hn, hmem⟩ := mem_entries_of_list hb hl'
    obtain ⟨offered, producer, given, hrun, hall⟩ :=
      c.sendDue_run now (windowEnd s now) l { b with listed := b.listed + 1 }
    refine ⟨_, offered, ?_, hall, hn.sublist (List.filter_sublist.map _), fun e he => ?_⟩
    · simp only [Script.run_bind, Script.run_pure, hrun]
    · obtain ⟨he, hdue⟩ := List.mem_filter.1 he
      exact ⟨(hmem e he).1, of_decide_eq_true hdue⟩

end Conditions

/-- What a tick came upon: its instant, the store that it found, and what it offered. -/
structure Visit where
  now : Instant
  found : EventStore
  offered : List Offer

namespace Visit

def ids (v : Visit) : List String := v.offered.map (·.1.eventId)

/-- Nothing is offered twice, and only what the store has with a reminder in the window. -/
structure IsSound (s : SchedulerSettings) (v : Visit) : Prop where
  ids_nodup : v.ids.Nodup
  exists_due : ∀ i ∈ v.ids, ∃ e, (i, .ok e) ∈ v.found.entries
    ∧ Tick.IsDue v.now (Tick.windowEnd s v.now) e

end Visit

def Act.now? : Act π → Option Instant
  | .call _ => none
  | .tick _ _ now => some now

/-- A call, or a tick with these settings. -/
def Act.IsUnder (s : SchedulerSettings) : Act π → Prop
  | .call _ => True
  | .tick _ s' _ => s' = s

instance (s : SchedulerSettings) : ∀ a : Act π, Decidable (a.IsUnder s)
  | .call _ => isTrue trivial
  | .tick _ _ _ => inferInstanceAs (Decidable (_ = _))

namespace Bench

open EventStore Tick

def visit (c : Conditions π) (s : SchedulerSettings) (now : Instant) (b : Bench π) : Visit :=
  ⟨now, b.store, (b.tick c s now).2.offers.drop b.offers.length⟩

/-- What the ticks of a run come upon, one after another. -/
def visits (b : Bench π) : List (Act π) → List Visit
  | [] => []
  | .call c :: as => (b.act (.call c)).visits as
  | .tick c s now :: as => b.visit c s now :: (b.act (.tick c s now)).visits as

variable {b : Bench π}

section Ticks

variable (c : Conditions π) (s : SchedulerSettings) (now : Instant)

theorem tick_sublist (b : Bench π) :
    (b.tick c s now).2.store.entries.Sublist b.store.entries := by
  have hstep : ∀ r, True → ∀ b' : Bench π, b'.store.entries.Sublist b.store.entries →
      (c.answer r b').2.store.entries.Sublist b.store.entries :=
    fun r _ b' h => (c.answer_sublist r b').trans h
  exact Script.run_keeps hstep (Datebook.tick s now).asks_true (List.Sublist.refl _)

theorem tick_isKeyed (hb : b.store.IsKeyed) : (b.tick c s now).2.store.IsKeyed :=
  hb.of_sublist (b.tick_sublist c s now)

theorem tick_visit (hb : b.store.IsKeyed) :
    (b.visit c s now).IsSound s ∧ (b.tick c s now).2.offers
      = b.offers ++ (b.visit c s now).offered := by
  obtain ⟨due, offered, hrun, hall, hn, hdue⟩ :=
    c.notifyPass_offers s now { b with listed := 0 } hb
  have ho : (b.tick c s now).2.offers = b.offers ++ offered := by
    unfold tick Datebook.tick
    simp only [Script.run_bind, Script.run_pure, c.cleanupPass_offers, hrun]
  have hv : b.visit c s now = ⟨now, b.store, offered⟩ := by
    unfold visit
    rw [ho, List.drop_left]
  have hids : Visit.ids ⟨now, b.store, offered⟩ = due.map (·.id) := Conditions.eventIds_eq hall
  rw [hv]
  refine ⟨⟨hids ▸ hn, fun i hi => ?_⟩, ho⟩
  rw [hids, List.mem_map] at hi
  obtain ⟨e, he, rfl⟩ := hi
  exact ⟨e, hdue e he⟩

end Ticks

theorem act_isKeyed (hb : b.store.IsKeyed) {a : Act π} (hnew : b.IsNewIn a) :
    (b.act a).store.IsKeyed := by
  cases a with
  | call c => exact call_isKeyed hb hnew
  | tick c s now => exact tick_isKeyed c s now hb

theorem visits_now : ∀ (as : List (Act π)) (b : Bench π),
    (b.visits as).map Visit.now = as.filterMap Act.now?
  | [], _ => rfl
  | .call c :: as, b => visits_now as (b.act (.call c))
  | .tick c s now :: as, b => congrArg (now :: ·) (visits_now as (b.act (.tick c s now)))

theorem visits_isSound {s : SchedulerSettings} : ∀ (as : List (Act π)) {b : Bench π},
    b.store.IsKeyed → b.AllNew as → (∀ a ∈ as, a.IsUnder s) →
      ∀ v ∈ b.visits as, v.found.IsKeyed ∧ v.IsSound s
  | [], b, _, _, _, v, hv => by cases hv
  | .call c :: as, b, hb, hnew, hs, v, hv =>
    visits_isSound as (act_isKeyed hb hnew.1) hnew.2 (fun a ha => hs a (by simp [ha])) v hv
  | .tick c s' now :: as, b, hb, hnew, hs, v, hv => by
    obtain rfl : s' = s := hs (.tick c s' now) (by simp)
    rcases List.mem_cons.1 hv with rfl | hv
    · exact ⟨hb, (tick_visit c s' now hb).1⟩
    · exact visits_isSound as (act_isKeyed hb hnew.1) hnew.2 (fun a ha => hs a (by simp [ha])) v hv

/-- In a run whose ticks are at least an interval apart, no tick offers an event twice, and of two
ticks at which an event has the same reminder no more than one offers it. -/
theorem visits_offer_once {s : SchedulerSettings} {b : Bench π} (hb : b.store.IsKeyed)
    (as : List (Act π)) (hnew : b.AllNew as) (hs : ∀ a ∈ as, a.IsUnder s)
    (hspaced : (as.filterMap Act.now?).IsChain (IsSpaced s)) :
    (∀ v ∈ b.visits as, v.ids.Nodup)
      ∧ (b.visits as).Pairwise fun v v' => ∀ i e e', v.found.get i = .ok e →
        v'.found.get i = .ok e' → e.reminderAt = e'.reminderAt → ¬ (i ∈ v.ids ∧ i ∈ v'.ids) := by
  have hall := visits_isSound as hb hnew hs
  refine ⟨fun v hv => (hall v hv).2.ids_nodup, ?_⟩
  rw [← visits_now as b, List.isChain_iff_pairwise, List.pairwise_map] at hspaced
  refine hspaced.imp_of_mem ?_
  rintro v v' hv hv' hnow i e e' he he' hr ⟨hi, hi'⟩
  obtain ⟨hk, hsound⟩ := hall v hv
  obtain ⟨hk', hsound'⟩ := hall v' hv'
  obtain ⟨a, ha, hdue⟩ := hsound.exists_due i hi
  obtain ⟨a', ha', hdue'⟩ := hsound'.exists_due i hi'
  rw [get_of_mem_entries hk ha] at he
  rw [get_of_mem_entries hk' ha'] at he'
  cases he
  cases he'
  exact hnow.not_isDue hr hdue hdue'

open Event in
/-- A dinner is put off by a minute after it was sent, and so it is sent once more. -/
def dinnerRounds : List (Act Unit) :=
  [.call (.create idA (dinner "" "Dinner" (.atTime 30 0))), .tick fair ⟨60, 3600⟩ (minute 0),
    .call (.update (dinner "a" "Dinner" (.atTime 90 0))), .tick fair ⟨60, 3600⟩ (minute 1),
    .tick unlucky ⟨60, 3600⟩ (minute 3)]

theorem visits_offer_once_dinnerRounds :
    (EventStore.empty .database).IsKeyed ∧ (new (.empty .database) ()).AllNew dinnerRounds
      ∧ (∀ a ∈ dinnerRounds, a.IsUnder ⟨60, 3600⟩)
      ∧ (dinnerRounds.filterMap Act.now?).IsChain (IsSpaced ⟨60, 3600⟩)
      ∧ ((new (.empty .database) ()).visits dinnerRounds).map Visit.ids = [["a"], ["a"], []]
      ∧ (∀ v ∈ (new (.empty .database) ()).visits dinnerRounds, v.ids.Nodup)
      ∧ ((new (.empty .database) ()).visits dinnerRounds).Pairwise fun v v' => ∀ i e e',
        v.found.get i = .ok e → v'.found.get i = .ok e' → e.reminderAt = e'.reminderAt →
          ¬ (i ∈ v.ids ∧ i ∈ v'.ids) :=
  have hb : (new (.empty .database) ()).store.IsKeyed := isKeyed_empty .database
  have hnew : (new (.empty .database) ()).AllNew dinnerRounds := by decide +kernel
  have hs : ∀ a ∈ dinnerRounds, a.IsUnder ⟨60, 3600⟩ := by decide
  have hspaced : (dinnerRounds.filterMap Act.now?).IsChain (IsSpaced ⟨60, 3600⟩) := by
    decide +kernel
  ⟨hb, hnew, hs, hspaced, by decide +kernel, visits_offer_once hb dinnerRounds hnew hs hspaced⟩

end Bench

end Datebook
