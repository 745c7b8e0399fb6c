import Datebook.Proofs.Rounds
import Datebook.Scheduler.Cadence

/-!
# Ticks that overrun

A run of the scheduler by itself, with its ticks as long as they like. None is left out, so one that
comes late may be followed by the next in less than an interval, and then their windows overlap: a
reminder in both is sent by both (`slow_sends_twice`). That is the only way in which an event is
offered again, and it takes a tick that is longer than the interval (`run_offers`).
-/

namespace Datebook

namespace Periodic

variable {σ : Type} {t : Periodic σ} {p p' : Progress σ}

theorem eq_of_next? (h : t.next? p = some p') :
    p' = ⟨p.runs + 1, (t.work (t.nextStart p) p.state).1, (t.work (t.nextStart p) p.state).2⟩ := by
  unfold next? at h
  simp only [] at h
  split_ifs at h
  exact (Option.some.inj h).symm

/-- What one more run keeps holds however long the task goes on. -/
theorem run_keeps {P : Progress σ → Prop} (h : ∀ p p', P p → t.next? p = some p' → P p') :
    ∀ (n : Nat) {p : Progress σ}, P p → P (t.run n p)
  | 0, _, hp => hp
  | n + 1, p, hp => by
    unfold run
    rcases hn : t.next? p with _ | p'
    · exact hp
    · exact run_keeps h n (h p p' hp hn)

end Periodic

/-- What a clock shows some nanoseconds after it showed this instant; it stops with the calendar. -/
def Instant.after (t : Instant) (elapsed : Nat) : Instant :=
  (t.add? (elapsed : Int)).getD last

theorem Tick.isSpaced_after {s : SchedulerSettings} {t : Instant} (ht : t.IsOrdinary) {m n : Nat}
    (h : m + s.intervalMillis * 1000000 ≤ n) : IsSpaced s (t.after m) (t.after n) := by
  have hm : (t.after m).IsOrdinary := Instant.isOrdinary_getD ht Instant.isOrdinary_last _
  have hn : (t.after n).IsOrdinary := Instant.isOrdinary_getD ht Instant.isOrdinary_last _
  have hnm := Instant.nanos_getD_last ht (Int.natCast_nonneg m)
  have hnn := Instant.nanos_getD_last ht (Int.natCast_nonneg n)
  have hI : (0 : Int) ≤ (s.intervalMillis : Int) * 1000000 := by omega
  have hend := Instant.nanos_getD_last hm hI
  rw [isSpaced_iff (Instant.le_last hm), ← Instant.nanos_le_nanos
    (Instant.isOrdinary_getD hm Instant.isOrdinary_last _) hn]
  unfold Instant.after Span.ofMillis at *
  omega

/-- What surrounds each tick of a run, counted from 0, how many nanoseconds it takes, and when the
run is cancelled. -/
structure Course (π : Type) where
  conditions : Nat → Conditions π
  takes : Nat → Nat
  cancelledAt : Option Nat

structure Shift (π : Type) where
  bench : Bench π
  visits : List Visit

variable {π : Type}

namespace Course

/-- The scheduler's ticks, each as of what the clock shows at its start. -/
def periodic (k : Course π) (s : SchedulerSettings) (t : Instant) : Periodic (Shift π) where
  interval := s.intervalMillis * 1000000
  cancelledAt _ := k.cancelledAt
  work start w :=
    let c := k.conditions w.visits.length
    let now := t.after start
    (start + k.takes w.visits.length,
      ⟨(w.bench.tick c s now).2, w.visits ++ [w.bench.visit c s now]⟩)

/-- The scheduler is started at an instant, and makes this many ticks unless it is cancelled. -/
def run (k : Course π) (s : SchedulerSettings) (t : Instant) (store : EventStore) (producer : π)
    (n : Nat) : Progress (Shift π) :=
  (k.periodic s t).run n ⟨0, 0, ⟨.new store producer, []⟩⟩

end Course

namespace Shift

/-- Everything offered was found in a store that had no more than the first one. -/
structure IsSound (s : SchedulerSettings) (store : EventStore) (w : Shift π) : Prop where
  sublist : w.bench.store.entries.Sublist store.entries
  isSound : ∀ v ∈ w.visits, v.IsSound s ∧ v.found.entries.Sublist store.entries
  offers_eq : w.bench.offers = w.visits.flatMap (·.offered)

variable {s : SchedulerSettings} {store : EventStore} {w : Shift π}

theorem IsSound.tick (h : w.IsSound s store) (hstore : store.IsKeyed) (c : Conditions π)
    (now : Instant) :
    Shift.IsSound s store ⟨(w.bench.tick c s now).2, w.visits ++ [w.bench.visit c s now]⟩ := by
  obtain ⟨hv, ho⟩ := Bench.tick_visit c s now (hstore.of_sublist h.sublist)
  refine ⟨(w.bench.tick_sublist c s now).trans h.sublist, fun v hmem => ?_, ?_⟩
  · rcases List.mem_append.1 hmem with hmem | hmem
    · exact h.isSound v hmem
    · rw [List.mem_singleton.1 hmem]
      exact ⟨hv, h.sublist⟩
  · rw [ho, h.offers_eq, List.flatMap_append, List.flatMap_singleton]

theorem IsSound.lt_windowEnd (h : w.IsSound s store) (hstore : store.IsKeyed) {v v' : Visit}
    (hv : v ∈ w.visits) (hv' : v' ∈ w.visits) {i : String} (hi : i ∈ v.ids) (hi' : i ∈ v'.ids) :
    v'.now < Tick.windowEnd s v.now := by
  obtain ⟨hsound, hfound⟩ := h.isSound v hv
  obtain ⟨hsound', hfound'⟩ := h.isSound v' hv'
  obtain ⟨e, he, r, hr, -, hend⟩ := hsound.exists_due i hi
  obtain ⟨e', he', r', hr', hstart, -⟩ := hsound'.exists_due i hi'
  cases hstore.eq_of_mem (hfound.subset he) (hfound'.subset he')
  cases Option.mem_unique hr hr'
  exact Instant.lt_of_lt_of_le hstart (Instant.le_of_lt hend)

end Shift

namespace Course

variable (k : Course π) (s : SchedulerSettings) {t : Instant} {store : EventStore}

/-- The ticks so far started when they were due, and the next one can. -/
structure IsPunctual (s : SchedulerSettings) (t : Instant) (p : Progress (Shift π)) : Prop where
  now_le : p.now ≤ p.runs * (s.intervalMillis * 1000000)
  map_now_eq : p.state.visits.map (·.now)
    = (List.range p.runs).map fun i => t.after (i * (s.intervalMillis * 1000000))

theorem run_isSound (hstore : store.IsKeyed) (t : Instant) (producer : π) (n : Nat) :
    (k.run s t store producer n).state.IsSound s store := by
  have hstep : ∀ p p' : Progress (Shift π), p.state.IsSound s store →
      (k.periodic s t).next? p = some p' → p'.state.IsSound s store := by
    intro p p' hp hnext
    rw [Periodic.eq_of_next? hnext]
    exact hp.tick hstore _ _
  exact Periodic.run_keeps hstep n ⟨List.Sublist.refl _, by simp, rfl⟩

theorem run_isPunctual (htakes : ∀ i, k.takes i ≤ s.intervalMillis * 1000000) (t : Instant)
    (store : EventStore) (producer : π) (n : Nat) :
    IsPunctual s t (k.run s t store producer n) := by
  have hstep : ∀ p p' : Progress (Shift π), IsPunctual s t p →
      (k.periodic s t).next? p = some p' → IsPunctual s t p' := by
    intro p p' hp hnext
    have hstart : (k.periodic s t).nextStart p = p.runs * (s.intervalMillis * 1000000) :=
      Nat.max_eq_left hp.now_le
    rw [Periodic.eq_of_next? hnext, hstart]
    constructor
    · simp only [periodic, Nat.succ_mul]
      exact Nat.add_le_add_left (htakes _) _
    · simp only [periodic, List.map_append, hp.map_now_eq, List.range_succ]
      rfl
  exact Periodic.run_keeps hstep n ⟨Nat.zero_le _, rfl⟩

theorem IsPunctual.isSpaced {s : SchedulerSettings} {p : Progress (Shift π)}
    (h : IsPunctual s t p) (ht : t.IsOrdinary) :
    (p.state.visits.map (·.now)).Pairwise (Tick.IsSpaced s) := by
  rw [h.map_now_eq, List.pairwise_map]
  refine List.pairwise_lt_range.imp fun hij => Tick.isSpaced_after ht ?_
  rw [← Nat.succ_mul]
  exact Nat.mul_le_mul_right _ hij

/-- In a run by itself, no tick offers an event twice, and two ticks that offer the same event are
less than an interval apart. So an event is offered again only if a tick takes longer than that. -/
theorem run_offers (hstore : store.IsKeyed) (ht : t.IsOrdinary) (producer : π) (n : Nat) :
    let w := (k.run s t store producer n).state
    w.bench.offers = w.visits.flatMap (·.offered) ∧ (∀ v ∈ w.visits, v.ids.Nodup)
      ∧ (∀ v ∈ w.visits, ∀ v' ∈ w.visits, ∀ i ∈ v.ids, i ∈ v'.ids →
        v'.now < Tick.windowEnd s v.now)
      ∧ ((∀ i, k.takes i ≤ s.intervalMillis * 1000000) →
        (w.bench.offers.map (·.1.eventId)).Nodup) := by
  intro w
  have h : w.IsSound s store := k.run_isSound s hstore t producer n
  have hnodup : ∀ v ∈ w.visits, v.ids.Nodup := fun v hv => (h.isSound v hv).1.ids_nodup
  have hlt : ∀ v ∈ w.visits, ∀ v' ∈ w.visits, ∀ i ∈ v.ids, i ∈ v'.ids →
      v'.now < Tick.windowEnd s v.now :=
    fun v hv v' hv' i hi hi' => h.lt_windowEnd hstore hv hv' hi hi'
  refine ⟨h.offers_eq, hnodup, hlt, fun htakes => ?_⟩
  rw [h.offers_eq, List.map_flatMap]
  refine List.nodup_flatMap.2 ⟨hnodup, ?_⟩
  have hspaced := (k.run_isPunctual s htakes t store producer n).isSpaced ht
  refine (List.pairwise_map.1 hspaced).imp_of_mem ?_
  intro v v' hv hv' hnow i hi hi'
  exact Instant.not_lt.2 hnow.windowEnd_le (hlt v hv v' hv' i hi hi')

open Bench EventStore

def steady : Course Unit := ⟨fun _ => fair, fun _ => 60000000000, none⟩

theorem run_offers_supper :
    (ofEvents .database [supper]).IsKeyed ∧ (minute 0).IsOrdinary
      ∧ (∀ i, steady.takes i ≤ (⟨60, 3600⟩ : SchedulerSettings).intervalMillis * 1000000)
      ∧ let w := (steady.run ⟨60, 3600⟩ (minute 0) (ofEvents .database [supper]) () 3).state
        w.bench.offers = w.visits.flatMap (·.offered) ∧ (∀ v ∈ w.visits, v.ids.Nodup)
          ∧ (∀ v ∈ w.visits, ∀ v' ∈ w.visits, ∀ i ∈ v.ids, i ∈ v'.ids →
            v'.now < Tick.windowEnd ⟨60, 3600⟩ v.now)
          ∧ w.visits.map (·.ids) = [[], ["a"], []]
          ∧ (w.bench.offers.map (·.1.eventId)).Nodup :=
  have hs : (ofEvents .database [supper]).Holds [supper] := holds_iff.2 ⟨.database, rfl, by decide⟩
  have hstore : (ofEvents .database [supper]).IsKeyed := hs.isKeyed (by decide)
  have ht : (minute 0).IsOrdinary := by decide +kernel
  have htakes : ∀ i, steady.takes i
      ≤ (⟨60, 3600⟩ : SchedulerSettings).intervalMillis * 1000000 := fun _ => Nat.le_refl _
  have ⟨hoffers, hnodup, hlt, honce⟩ := run_offers steady ⟨60, 3600⟩ hstore ht () 3
  ⟨hstore, ht, htakes, hoffers, hnodup, hlt, by decide +kernel, honce htakes⟩

def slow : Course Unit := ⟨fun _ => fair, fun i => if i = 0 then 90000000000 else 1000000, none⟩

def lateSupper : Event := .dinner "a" "Supper" (.atTime 135 0)

/-- The second tick starts half a minute late, the third in time: the dinner is sent by both, and
the store is as it was. -/
theorem slow_sends_twice :
    (ofEvents .memory [lateSupper]).Holds [lateSupper] ∧ lateSupper.IsValid
      ∧ (minute 0).IsOrdinary
      ∧ let w := (slow.run ⟨60, 3600⟩ (minute 0) (ofEvents .memory [lateSupper]) () 3).state
        w.visits.map (·.now) = [.atTime 0 0, .atTime 90 0, .atTime 120 0]
          ∧ w.bench.offers.map (fun o => (o.1.eventId, o.2.isOk)) = [("a", true), ("a", true)]
          ∧ w.bench.store = ofEvents .memory [lateSupper] :=
  ⟨holds_iff.2 ⟨.memory, rfl, by decide⟩, by decide +kernel, by decide +kernel, by decide +kernel⟩

end Course

end Datebook
