import Datebook.Proofs.Agenda
import Datebook.Proofs.Clocks
import Datebook.Scheduler.Tick

/-!
# Ticks at a bench

A tick at a bench uses a store and a producer, and anything that it asks for may fail on its own:
either list, any notification and any deletion. `sendDue_run` and `deleteAll_run` say what the loops
of the two passes come to on any list of events, and `tick_run` what a tick does at any instant.

`Notifies` and `Cleans` are what a tick at an ordinary instant does to a store that keeps an agenda.
The window's ends are exact instants (`windowEnd_nanos`, `cutoff_nanos`), and though a table is
asked only to the microsecond, an event that it lists too early is never sent, because no valid
event has its reminder after its start (`inWindow_and_isDue_iff`).
-/

namespace Datebook

namespace Tick

variable {s : SchedulerSettings} {now : Instant}

theorem isOrdinary_windowEnd (h : now.IsOrdinary) : (windowEnd s now).IsOrdinary :=
  Instant.isOrdinary_getD h Instant.isOrdinary_last _

theorem isOrdinary_cutoff (h : now.IsOrdinary) : (cutoff s now).IsOrdinary :=
  Instant.isOrdinary_getD h Instant.isOrdinary_first _

theorem windowEnd_nanos (h : now.IsOrdinary) :
    (windowEnd s now).nanos
      = min (now.nanos + max ((s.intervalSecs : Int) * 1000000000) 1000000) Instant.last.nanos := by
  have hd : s.lookAhead = min (max ((s.intervalSecs : Int) * 1000000000) 1000000) Span.longest := by
    have hm : ((s.intervalMillis : Int) * 1000000)
        = max ((s.intervalSecs : Int) * 1000000000) 1000000 := by
      unfold SchedulerSettings.intervalMillis
      omega
    rw [← hm]
    rfl
  have hl := Instant.last_le_longest h
  unfold windowEnd
  rw [Instant.nanos_getD_last h (by rw [hd, Span.longest]; omega), hd]
  omega

theorem cutoff_nanos (h : now.IsOrdinary) :
    (cutoff s now).nanos
      = max (now.nanos - (s.retentionSecs : Int) * 1000000000) Instant.first.nanos := by
  have hd : s.retention = min ((s.retentionSecs : Int) * 1000000000) Span.longest := rfl
  have hl := Instant.longest_le_first h
  unfold cutoff
  rw [Instant.nanos_getD_first h (by rw [hd, Span.longest]; omega), hd]
  omega

/-- What is asked for before the cleanup, which removes nothing. -/
def IsOfNotifyPass : Request → Prop
  | .delete _ => False
  | _ => True

theorem sendDue_asks (now finish : Instant) : ∀ l : List Event,
    (sendDue now finish l).Asks IsOfNotifyPass
  | [] => Script.asks_pure 0
  | e :: l => by
    have ih := sendDue_asks now finish l
    unfold sendDue
    split_ifs
    · refine Script.asks_query_bind trivial fun id => Script.asks_query_bind trivial ?_
      rintro (err | u)
      · exact ih
      · exact ih.bind fun n => Script.asks_pure (n + 1)
    · exact ih

theorem notifyPass_asks (s : SchedulerSettings) (now : Instant) :
    (notifyPass s now).Asks IsOfNotifyPass := by
  refine Script.asks_query_bind trivial ?_
  rintro (err | l)
  · exact Script.asks_pure (0, 0)
  · exact (sendDue_asks now (windowEnd s now) l).bind fun n => Script.asks_pure (l.length, n)

theorem deleteAll_asks : ∀ l : List Event,
    (deleteAll l).Asks fun r => ∃ i ∈ l.map (·.id), r = .delete i
  | [] => Script.asks_pure 0
  | e :: l => by
    have ih : (deleteAll l).Asks fun r => ∃ i ∈ (e :: l).map (·.id), r = .delete i :=
      (deleteAll_asks l).imp fun r ⟨i, hi, hr⟩ => ⟨i, List.mem_cons_of_mem e.id hi, hr⟩
    refine Script.asks_query_bind ⟨e.id, List.mem_cons_self, rfl⟩ ?_
    rintro (err | u)
    · exact ih
    · exact ih.bind fun n => Script.asks_pure (n + 1)

end Tick

/-- How the surroundings of a tick behave: the ids that they give, the producer, which lists fail,
counted from 0, and of which ids the deletion fails. -/
structure Conditions (π : Type) where
  newId : Nat → String
  send : Notification → π → Except BrokerError Unit × π
  listFails : Nat → Option StoreError
  deleteFails : String → Option StoreError

/-- A notification that a producer was offered, and its answer. -/
abbrev Offer := Notification × Except BrokerError Unit

/-- A store and a producer, what the producer was offered so far, and how many ids were given and
lists asked for. -/
structure Bench (π : Type) where
  store : EventStore
  producer : π
  offers : List Offer
  given : Nat
  listed : Nat

variable {π : Type}

/-- A bench at which nothing has been done yet. -/
def Bench.new (store : EventStore) (producer : π) : Bench π := ⟨store, producer, [], 0, 0⟩

def Conditions.answer (c : Conditions π) : (r : Request) → Bench π → r.Answer × Bench π
  | .list start finish, b =>
    ((c.listFails b.listed).elim (b.store.list start finish) .error,
      { b with listed := b.listed + 1 })
  | .newId, b => (c.newId b.given, { b with given := b.given + 1 })
  | .send n, b =>
    let (r, producer) := c.send n b.producer
    (r, { b with producer, offers := b.offers ++ [(n, r)] })
  | .delete id, b =>
    match c.deleteFails id with
    | some e => (.error e, b)
    | none =>
      let (r, store) := b.store.delete id
      (r, { b with store })

/-- Runs one tick, whose lists are counted from 0 again. -/
def Bench.tick (c : Conditions π) (s : SchedulerSettings) (now : Instant) (b : Bench π) :
    TickReport × Bench π :=
  (Datebook.tick s now).run c.answer { b with listed := 0 }

/-- The notification tells when the event starts, to the minute, and is of that instant. -/
structure Notification.IsReminderOf (n : Notification) (e : Event) (now : Instant) : Prop where
  eventId : n.eventId = e.id
  eventTitle : n.eventTitle = e.title
  userId : n.userId = e.userId
  message : ∃ clock, e.startTime.ShowsClock clock
    ∧ n.message = "Reminder: " ++ e.title ++ " starts at " ++ clock
  notifyAt : n.notifyAt = now
  createdAt : n.createdAt = now

theorem Tick.isReminderOf_reminder (id : String) (now : Instant) (e : Event) :
    (reminder id now e).IsReminderOf e now :=
  ⟨rfl, rfl, rfl, ⟨_, e.startTime.showsClock_clockText, rfl⟩, rfl, rfl⟩

def accepted (offered : List Offer) : Nat :=
  (offered.filter (·.2.isOk)).length

namespace Conditions

open EventStore Tick

variable (c : Conditions π)

/-- A reminder of the event was offered, and the producer answered. -/
def Offers (now : Instant) (o : Offer) (e : Event) : Prop :=
  o.1.IsReminderOf e now ∧ ∃ p, o.2 = (c.send o.1 p).1

theorem sendDue_run (now finish : Instant) (l : List Event) (b : Bench π) :
    ∃ (offered : List Offer) (producer : π) (given : Nat),
      (sendDue now finish l).run c.answer b
        = (accepted offered, { b with producer, given, offers := b.offers ++ offered })
      ∧ List.Forall₂ (c.Offers now) offered (l.filter (IsDue now finish ·)) := by
  induction l generalizing b with
  | nil => exact ⟨[], b.producer, b.given, by simp [sendDue, accepted], .nil⟩
  | cons e l ih =>
    unfold sendDue
    by_cases hd : IsDue now finish e
    · have hr := isReminderOf_reminder (c.newId b.given) now e
      rw [List.filter_cons_of_pos (by simpa using hd)]
      simp only [if_pos hd, ask, Script.run_bind, Script.run_query, answer]
      generalize reminder (c.newId b.given) now e = n at hr ⊢
      obtain ⟨offered, producer, given, hrun, hall⟩ := ih
        { b with
          given := b.given + 1
          producer := (c.send n b.producer).2
          offers := b.offers ++ [(n, (c.send n b.producer).1)] }
      refine ⟨(n, (c.send n b.producer).1) :: offered, producer, given, ?_,
        .cons ⟨hr, b.producer, rfl⟩ hall⟩
      rcases hs : (c.send n b.producer).1 with err | u
      · rw [hs] at hrun
        simp only [hrun, accepted, List.append_assoc]
        rfl
      · rw [hs] at hrun
        simp only [Script.run_bind, hrun, accepted, List.append_assoc]
        rfl
    · rw [if_neg hd, List.filter_cons_of_neg (by simpa using hd)]
      exact ih b

/-- What is left when the events with the ids of a list are deleted, as far as that succeeds. -/
def left (c : Conditions π) (l es : List Event) : List Event :=
  es.filter fun o => ¬ (o.id ∈ l.map (·.id) ∧ c.deleteFails o.id = none)

theorem left_cons_of_fails {e : Event} (h : c.deleteFails e.id ≠ none) (l es : List Event) :
    c.left (e :: l) es = c.left l es := by
  refine filter_congr_iff fun o _ => not_congr (and_congr_left fun ho => ?_)
  have hne : o.id ≠ e.id := fun hoe => h (hoe ▸ ho)
  rw [List.map_cons, List.mem_cons, or_iff_right hne]

theorem left_cons_of_not_fails {e : Event} (h : c.deleteFails e.id = none) (l es : List Event) :
    c.left (e :: l) es = c.left l (es.filter fun o => o.id ≠ e.id) := by
  unfold left
  rw [filter_filter_and]
  refine filter_congr_iff fun o _ => ?_
  by_cases he : o.id = e.id
  · simp [he, h]
  · simp [he]

theorem deleteAll_run (k : StorageKind) : ∀ (l : List Event) {es : List Event} {b : Bench π},
    b.store = ofEvents k es → (∀ e ∈ l, ∃ o ∈ es, o.id = e.id) → (l.map (·.id)).Nodup →
      (deleteAll l).run c.answer b
        = ((l.filter fun e => c.deleteFails e.id = none).length,
          { b with store := ofEvents k (c.left l es) })
  | [], es, b, hb, _, _ => by
    simp [deleteAll, left, ← hb]
  | e :: l, es, b, hb, hl, hn => by
    rw [List.map_cons, List.nodup_cons] at hn
    have ⟨he, hl'⟩ := List.forall_mem_cons.1 hl
    unfold deleteAll
    simp only [ask, Script.run_bind, Script.run_query, answer]
    rcases hf : c.deleteFails e.id with _ | err
    · have hdel : b.store.delete e.id = (.ok (), ofEvents k (es.filter fun o => o.id ≠ e.id)) := by
        rw [hb, delete_ofEvents, if_pos he]
      have hrest : ∀ a ∈ l, ∃ o ∈ es.filter fun o => o.id ≠ e.id, o.id = a.id := by
        intro a ha
        obtain ⟨o, ho, hoa⟩ := hl' a ha
        refine ⟨o, List.mem_filter.2 ⟨ho, decide_eq_true fun hoe => hn.1 ?_⟩, hoa⟩
        exact List.mem_map.2 ⟨a, ha, hoa ▸ hoe⟩
      rw [List.filter_cons_of_pos (by simp [hf])]
      simp only [hdel, Script.run_bind, Script.run_pure]
      rw [deleteAll_run k l rfl hrest hn.2, left_cons_of_not_fails c hf]
      rfl
    · rw [List.filter_cons_of_neg (by simp [hf])]
      simp only []
      rw [deleteAll_run k l hb hl' hn.2, left_cons_of_fails c (by simp [hf])]

section Passes

/-- The list of this number succeeds and has the event, whose reminder is due. -/
def Finds (k : StorageKind) (n : Nat) (now finish : Instant) (e : Event) : Prop :=
  c.listFails n = none ∧ k.InWindow now finish e ∧ IsDue now finish e

/-- The list of this number succeeds and has the event, and so does its deletion. -/
def Removes (k : StorageKind) (n : Nat) (cutoff : Instant) (e : Event) : Prop :=
  c.listFails n = none ∧ k.InWindow Instant.first cutoff e ∧ c.deleteFails e.id = none

instance (k : StorageKind) (n : Nat) (now finish : Instant) (e : Event) :
    Decidable (c.Finds k n now finish e) := inferInstanceAs (Decidable (_ ∧ _ ∧ _))

instance (k : StorageKind) (n : Nat) (cutoff : Instant) (e : Event) :
    Decidable (c.Removes k n cutoff e) := inferInstanceAs (Decidable (_ ∧ _ ∧ _))

variable {k : StorageKind} {es : List Event} {b : Bench π} (s : SchedulerSettings) (now : Instant)

theorem notifyPass_run (hb : b.store = ofEvents k es) (hes : ∀ e ∈ es, k.Fits e) :
    ∃ (due : List Event) (offered : List Offer) (producer : π) (given : Nat),
      due.Perm (es.filter (c.Finds k b.listed now (windowEnd s now) ·))
      ∧ List.Forall₂ (c.Offers now) offered due
      ∧ (notifyPass s now).run c.answer b
        = (((es.filter fun e =>
              c.listFails b.listed = none ∧ k.InWindow now (windowEnd s now) e).length,
            accepted offered),
          { b with producer, given, offers := b.offers ++ offered, listed := b.listed + 1 }) := by
  unfold notifyPass
  simp only [ask, Script.run_bind, Script.run_query, answer]
  rcases hf : c.listFails b.listed with _ | err
  · obtain ⟨l, hl, hperm⟩ := list_ofEvents hes now (windowEnd s now)
    obtain ⟨offered, producer, given, hrun, hall⟩ :=
      c.sendDue_run now (windowEnd s now) l { b with listed := b.listed + 1 }
    refine ⟨_, offered, producer, given, ?_, hall, ?_⟩
    · refine (hperm.filter _).trans (List.Perm.of_eq ?_)
      rw [filter_filter_and]
      exact filter_congr_iff fun e _ => (and_iff_right hf).symm
    · rw [hb] at hrun ⊢
      simp only [hl, Option.elim_none, Script.run_bind, hrun, Script.run_pure, hperm.length_eq,
        true_and]
  · refine ⟨[], [], b.producer, b.given, ?_, .nil, ?_⟩
    · simp [Finds, hf]
    · simp [accepted]

theorem cleanupPass_run (hb : b.store = ofEvents k es) (hes : ∀ e ∈ es, k.Fits e)
    (hn : (es.map (·.id)).Nodup) :
    (cleanupPass s now).run c.answer b
      = ((es.filter (c.Removes k b.listed (cutoff s now) ·)).length,
          { b with
            store := ofEvents k (es.filter (¬ c.Removes k b.listed (cutoff s now) ·))
            listed := b.listed + 1 }) := by
  unfold cleanupPass
  simp only [ask, Script.run_bind, Script.run_query, answer]
  rcases hf : c.listFails b.listed with _ | err
  · obtain ⟨l, hl, hperm⟩ := list_ofEvents hes Instant.first (cutoff s now)
    have hmem : ∀ e, e ∈ l ↔ e ∈ es ∧ k.InWindow Instant.first (cutoff s now) e := by
      intro e
      rw [hperm.mem_iff, List.mem_filter, decide_eq_true_eq]
    have hids : (l.map (·.id)).Nodup :=
      (hperm.map _).nodup_iff.2 (hn.sublist (List.filter_sublist.map _))
    have hrun := c.deleteAll_run k l (b := { b with listed := b.listed + 1 }) hb
      (fun e he => ⟨e, ((hmem e).1 he).1, rfl⟩) hids
    rw [hb] at hrun ⊢
    simp only [hl, Option.elim_none, hrun, Prod.mk.injEq]
    constructor
    · rw [(hperm.filter _).length_eq, filter_filter_and]
      exact congrArg List.length (filter_congr_iff fun e _ => (and_iff_right hf).symm)
    · unfold left
      congr 2
      refine filter_congr_iff fun o ho => not_congr ?_
      have hw : o.id ∈ l.map (·.id) ↔ k.InWindow Instant.first (cutoff s now) o := by
        rw [List.mem_map]
        constructor
        · rintro ⟨e, he, heo⟩
          obtain rfl := List.inj_on_of_nodup_map hn ((hmem e).1 he).1 ho heo
          exact ((hmem e).1 he).2
        · exact fun hw => ⟨o, (hmem o).2 ⟨ho, hw⟩, rfl⟩
      rw [hw]
      exact (and_iff_right hf).symm
  · simp [Removes, hf, ← hb]

end Passes

end Conditions

namespace Tick

/-- The event starts in the window, from `now` on, and its reminder lies strictly inside. -/
def Selects (now finish : Instant) (e : Event) : Prop :=
  now ≤ e.startTime ∧ e.startTime ≤ finish ∧ IsDue now finish e

instance (now finish : Instant) (e : Event) : Decidable (Selects now finish e) :=
  inferInstanceAs (Decidable (_ ∧ _ ∧ _))

/-- What a table lists before `now` is not due, since a valid event has its reminder no later than
its start. -/
theorem inWindow_and_isDue_iff {k : StorageKind} {now finish : Instant} {e : Event} (hv : e.IsValid)
    (he : k.Fits e) (hord : k = .database → now.IsOrdinary ∧ finish.IsOrdinary) :
    k.InWindow now finish e ∧ IsDue now finish e ↔ Selects now finish e := by
  unfold Selects
  rw [← and_assoc, and_congr_left_iff]
  rintro ⟨r, hr, hnr, -⟩
  have hle : now ≤ e.startTime :=
    Instant.le_of_lt (Instant.lt_of_lt_of_le hnr (hv.reminderAt_le r hr))
  cases k with
  | memory => rfl
  | database =>
    obtain ⟨hn, hf⟩ := hord rfl
    obtain ⟨ho, hw⟩ := he
    have hm := Instant.micros_mono hn ho.startTime hle
    exact and_congr (iff_of_true hm hle) (Instant.micros_le_micros ho.startTime hw.startTime hf)

end Tick

namespace Bench

open EventStore Tick

variable (c : Conditions π) (s : SchedulerSettings) (now : Instant)

/-- One tick at any instant, at a store of either kind. -/
theorem tick_run {k : StorageKind} {es : List Event} {b : Bench π} (hb : b.store = ofEvents k es)
    (hes : ∀ e ∈ es, k.Fits e) (hn : (es.map (·.id)).Nodup) :
    ∃ (due : List Event) (offered : List Offer) (producer : π) (given : Nat),
      due.Perm (es.filter (c.Finds k 0 now (windowEnd s now) ·))
      ∧ List.Forall₂ (c.Offers now) offered due
      ∧ b.tick c s now
        = (⟨(es.filter fun e => c.listFails 0 = none ∧ k.InWindow now (windowEnd s now) e).length,
            accepted offered, (es.filter (c.Removes k 1 (cutoff s now) ·)).length⟩,
          ⟨ofEvents k (es.filter (¬ c.Removes k 1 (cutoff s now) ·)), producer, b.offers ++ offered,
            given, 2⟩) := by
  obtain ⟨due, offered, producer, given, hperm, hall, hnotify⟩ :=
    c.notifyPass_run (b := { b with listed := 0 }) s now hb hes
  have hcleanup := c.cleanupPass_run s now
    (b := { b with producer, given, offers := b.offers ++ offered, listed := 1 }) hb hes hn
  refine ⟨due, offered, producer, given, hperm, hall, ?_⟩
  unfold tick Datebook.tick
  simp only [Script.run_bind, Script.run_pure, hnotify, hcleanup]

/-- What a tick of a store that kept these events adds to the offers. -/
structure Notifies (k : StorageKind) (finish : Instant) (es : List Event)
    (before after : List Offer) (r : TickReport) : Prop where
  of_listed : c.listFails 0 = none → ∃ due offered,
    due.Perm (es.filter (Selects now finish ·)) ∧ List.Forall₂ (c.Offers now) offered due
      ∧ after = before ++ offered ∧ r.sent = accepted offered
      ∧ r.scanned = (es.filter (k.InWindow now finish ·)).length
  of_fails : c.listFails 0 ≠ none → after = before ∧ r.sent = 0 ∧ r.scanned = 0

/-- What a tick leaves of a store that kept these events. -/
structure Cleans (cutoff : Instant) (es : List Event) (before after : EventStore) (r : TickReport) :
    Prop where
  of_listed : c.listFails 1 = none →
    after.Holds (es.filter fun e => ¬ (e.startTime ≤ cutoff ∧ c.deleteFails e.id = none))
      ∧ r.deleted = (es.filter fun e => e.startTime ≤ cutoff ∧ c.deleteFails e.id = none).length
  of_fails : c.listFails 1 ≠ none → after = before ∧ r.deleted = 0

/-- One tick at an ordinary instant, at a store that keeps an agenda, whatever fails. The window
ends one interval ahead, or with the calendar, and the retention reaches back to the cutoff, or to
the start of the calendar. -/
theorem tick_notifies_and_cleans {now : Instant} (hnow : now.IsOrdinary) {b : Bench π}
    {es : List Event} (hb : b.store.Holds es) (h : IsAgenda es) :
    ∃ finish cutoff r b', b.tick c s now = (r, b')
      ∧ finish.IsOrdinary ∧ finish.nanos
        = min (now.nanos + max ((s.intervalSecs : Int) * 1000000000) 1000000) Instant.last.nanos
      ∧ cutoff.IsOrdinary ∧ cutoff.nanos
        = max (now.nanos - (s.retentionSecs : Int) * 1000000000) Instant.first.nanos
      ∧ Notifies c now b.store.kind finish es b.offers b'.offers r
      ∧ Cleans c cutoff es b.store b'.store r := by
  obtain ⟨k, hk, hes⟩ := holds_iff.1 hb
  obtain ⟨due, offered, producer, given, hperm, hall, hrun⟩ := tick_run c s now hk hes h.ids_nodup
  have hfinish : (windowEnd s now).IsOrdinary := isOrdinary_windowEnd hnow
  have hcutoff : (Tick.cutoff s now).IsOrdinary := isOrdinary_cutoff hnow
  refine ⟨_, _, _, _, hrun, hfinish, windowEnd_nanos hnow, hcutoff, cutoff_nanos hnow, ⟨?_, ?_⟩,
    ⟨?_, ?_⟩⟩
  · intro hl
    have hsel : es.filter (c.Finds k 0 now (windowEnd s now) ·)
        = es.filter (Selects now (windowEnd s now) ·) := by
      refine filter_congr_iff fun e he => (and_iff_right hl).trans ?_
      exact inWindow_and_isDue_iff (h.isValid e he) (hes e he) fun _ => ⟨hnow, hfinish⟩
    refine ⟨due, offered, hsel ▸ hperm, hall, rfl, rfl, ?_⟩
    simp only [hl, true_and, hk, kind_ofEvents]
  · intro hl
    have hdue : due = [] := List.Perm.eq_nil (by simpa [Conditions.Finds, hl] using hperm)
    rw [hdue, List.forall₂_nil_right_iff] at hall
    simp [hall, hl, accepted]
  · intro hl
    have hrem : ∀ e ∈ es, c.Removes k 1 (Tick.cutoff s now) e
        ↔ e.startTime ≤ Tick.cutoff s now ∧ c.deleteFails e.id = none := by
      intro e he
      unfold Conditions.Removes
      rw [(hes e he).inWindow_iff fun _ => ⟨by decide, by decide, hcutoff⟩, and_iff_right hl,
        and_iff_right e.startTime.first_le]
    rw [filter_congr_iff hrem, filter_congr_iff fun e he => not_congr (hrem e he)]
    exact ⟨holds_iff.2 ⟨k, rfl, fun e he => hes e (List.mem_filter.1 he).1⟩, rfl⟩
  · intro hl
    simp [Conditions.Removes, hl, hk]

/-- Two dinners that come due and two that are long over. -/
def dinners : List Event :=
  [.dinner "a" "Dinner" (.atTime 30 0),
    .dinner "b" "Supper" (.atTime 40 0),
    .dinner "c" "Old dinner" (.atTime (-7200) 0),
    .dinner "d" "Old supper" (.atTime (-7201) 0)]

/-- One notification is refused, and one deletion fails. -/
def unlucky : Conditions Unit where
  newId := toString
  send n _ := (if n.eventId = "b" then .error .cancelled else .ok (), ())
  listFails _ := none
  deleteFails id := if id = "d" then some .busy else none

theorem tick_notifies_and_cleans_dinners :
    Instant.beforeEpoch.IsOrdinary ∧ (new (ofEvents .database dinners) ()).store.Holds dinners
      ∧ IsAgenda dinners
      ∧ ∃ finish cutoff r b', (new (ofEvents .database dinners) ()).tick unlucky ⟨60, 3600⟩
          .beforeEpoch = (r, b')
        ∧ finish.IsOrdinary ∧ finish.nanos
          = min (Instant.beforeEpoch.nanos + max (((60 : Nat) : Int) * 1000000000) 1000000)
            Instant.last.nanos
        ∧ cutoff.IsOrdinary ∧ cutoff.nanos
          = max (Instant.beforeEpoch.nanos - ((3600 : Nat) : Int) * 1000000000) Instant.first.nanos
        ∧ Notifies unlucky .beforeEpoch .database finish dinners [] b'.offers r
        ∧ Cleans unlucky cutoff dinners (ofEvents .database dinners) b'.store r :=
  have hnow : Instant.beforeEpoch.IsOrdinary := by decide
  have hb : (new (ofEvents .database dinners) ()).store.Holds dinners :=
    holds_iff.2 ⟨.database, rfl, by decide⟩
  have h : IsAgenda dinners := by decide +kernel
  ⟨hnow, hb, h, tick_notifies_and_cleans unlucky ⟨60, 3600⟩ hnow hb h⟩

end Bench

end Datebook
