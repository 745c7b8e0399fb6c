import Datebook.Proofs.Logs
import Datebook.Proofs.Replays
import Datebook.Proofs.Rounds

/-!
# Integers in columns

A table holds instants as 64-bit integers, in which the microseconds of every instant fit
(`toInt_micros64`). All that a client binds or writes are microseconds of instants
(`Call.client_asks`), and the rows that a table comes to hold are those of valid events that were
entered (`allRows_acts`). A row is read unless its event ends in the leap second at the end of the
calendar, which is beyond the last microsecond that is read back (`IsRowOf.isReadable_iff`). One
such row is enough to make a list fail as a whole, so a table answers all that is asked of it
exactly if it holds none (`table_answers_iff`).
-/

namespace Datebook

namespace Instant

variable {t : Instant} {m : Int}

theorem isSome_ofMicros?_iff : (ofMicros? m).isSome ↔ first.micros ≤ m ∧ m ≤ last.micros := by
  have hf : first.micros = minSecond * 1000000 := by decide
  have hl : last.micros = maxSecond * 1000000 + 999999 := by decide
  unfold ofMicros? mk?
  rw [hf, hl]
  split_ifs with h
  · simp only [Option.isSome_some, true_iff]
    omega
  · simp only [Option.isSome_none, Bool.false_eq_true, false_iff]
    omega

theorem first_micros_le (t : Instant) : first.micros ≤ t.micros := by
  have := t.minSecond_le
  have hf : first.micros = minSecond * 1000000 := by decide
  unfold micros at *
  omega

theorem micros_le_last_iff : t.micros ≤ last.micros ↔ t ≤ last := by
  have := t.le_maxSecond
  have := t.nano_lt
  have hl : last.micros = maxSecond * 1000000 + 999999 := by decide
  rw [hl, le_def]
  unfold micros last
  simp only []
  omega

/-- The microseconds as they are counted in 64 bits. -/
def micros64 (t : Instant) : Int64 :=
  Int64.ofInt t.second * 1000000 + Int64.ofNat (t.nano / 1000)

theorem toInt_micros64 (t : Instant) : t.micros64.toInt = t.micros := by
  have hs := t.minSecond_le
  have hs' := t.le_maxSecond
  have hn := t.nano_lt
  unfold minSecond at hs
  unfold maxSecond at hs'
  have hsecond : (Int64.ofInt t.second).toInt = t.second :=
    Int64.toInt_ofInt_of_le (by omega) (by omega)
  have hnano : (Int64.ofNat (t.nano / 1000)).toInt = (t.nano / 1000 : Nat) :=
    Int64.toInt_ofNat_of_lt (by omega)
  have hmillion : (1000000 : Int64).toInt = 1000000 := rfl
  have hproduct : (Int64.ofInt t.second * 1000000).toInt = t.second * 1000000 := by
    rw [Int64.toInt_mul, hsecond, hmillion]
    exact Int.bmod_eq_of_le (by omega) (by omega)
  unfold micros64 micros
  rw [Int64.toInt_add, hproduct, hnano]
  exact Int.bmod_eq_of_le (by omega) (by omega)

/-- Up to the last instant, all is read back as an instant of the same microseconds. -/
theorem exists_of_le_last (h : t ≤ last) :
    ∃ u : Instant, u.micros = t.micros ∧ u.IsOrdinary ∧ u.IsWholeMicros := by
  obtain ⟨u, hu⟩ := Option.isSome_iff_exists.1
    (isSome_ofMicros?_iff.2 ⟨t.first_micros_le, micros_le_last_iff.2 h⟩)
  exact ⟨u, ofMicros?_eq_some_iff.1 hu⟩

end Instant

theorem Event.IsValid.withId {e : Event} (h : e.IsValid) (id : String) : { e with id }.IsValid :=
  ⟨h.title, h.userId, h.startTime_le, h.reminderAt_le⟩

/-- The integer is the count of microseconds of an instant, also in 64 bits. -/
def IsCount (m : Int) : Prop := ∃ t : Instant, t.micros = m ∧ t.micros64.toInt = m

theorem isCount_micros (t : Instant) : IsCount t.micros := ⟨t, rfl, t.toInt_micros64⟩

namespace EventRow

def integers (r : EventRow) : List Int := r.start :: r.finish :: r.reminder.toList

theorem isCount_of_mem_integers {e : Event} : ∀ m ∈ (ofEvent e).integers, IsCount m := by
  intro m hm
  simp only [integers, ofEvent, List.mem_cons, Option.mem_toList, Option.map_eq_some_iff] at hm
  rcases hm with rfl | rfl | ⟨r, -, rfl⟩
  · exact isCount_micros _
  · exact isCount_micros _
  · exact isCount_micros _

/-- A row of the event as it is stored, under some id; the event is valid. -/
def IsRowOf (e? : Option Event) (r : EventRow) : Prop :=
  ∃ e ∈ e?, ∃ id, { e.atStoragePrecision with id }.IsValid
    ∧ r = ofEvent { e.atStoragePrecision with id }

theorem IsRowOf.isCount {e? : Option Event} {r : EventRow} (h : r.IsRowOf e?) :
    ∀ m ∈ r.integers, IsCount m := by
  obtain ⟨e, -, id, -, rfl⟩ := h
  exact isCount_of_mem_integers

theorem not_isRowOf_none {r : EventRow} : ¬ r.IsRowOf none := by
  rintro ⟨e, he, -⟩
  cases he

def IsReadable (r : EventRow) : Prop := ∃ e, r.event = .ok e

theorem isReadable_ofEvent_iff {e : Event} (hv : e.IsValid) :
    (ofEvent e).IsReadable ↔ e.endTime ≤ Instant.last := by
  constructor
  · rintro ⟨a, ha⟩
    obtain ⟨hrow, ho, -⟩ := event_eq_ok_iff.1 ha
    have hfinish : e.endTime.micros = a.endTime.micros := congrArg finish hrow
    rw [← Instant.micros_le_last_iff, hfinish, Instant.micros_le_last_iff]
    exact Instant.le_last ho.endTime
  · intro hend
    have hstart := Instant.le_trans hv.startTime_le hend
    obtain ⟨u, hu, huo, huw⟩ := Instant.exists_of_le_last hend
    obtain ⟨t, ht, hto, htw⟩ := Instant.exists_of_le_last hstart
    obtain ⟨q, hq, hqo⟩ : ∃ q : Option Instant, q.map Instant.micros
        = e.reminderAt.map Instant.micros ∧ ∀ r ∈ q, r.IsOrdinary ∧ r.IsWholeMicros := by
      rcases hr : e.reminderAt with _ | r
      · exact ⟨none, rfl, by simp⟩
      · obtain ⟨q, hq, hqo⟩ := Instant.exists_of_le_last
          (Instant.le_trans (hv.reminderAt_le r hr) hstart)
        exact ⟨some q, by simp [hq], by simpa using hqo⟩
    refine ⟨⟨e.id, e.title, e.description, t, u, e.userId, q⟩, event_eq_ok_iff.2 ⟨?_, ?_, ?_⟩⟩
    · simp only [ofEvent, hu, ht, hq]
    · exact ⟨hto, huo, fun r hr => (hqo r hr).1⟩
    · exact ⟨htw, huw, fun r hr => (hqo r hr).2⟩

end EventRow

/-! ## What clients bind and write -/

namespace Statement

/-- The integers that the statement binds or writes. -/
def integers : Statement → List Int
  | .hasSlot _ start | .hasSlotOfOther _ start _ => [start]
  | .insert row | .replace row => row.integers
  | .window start finish => [start, finish]
  | .hasRow _ | .delete _ | .find _ => []

/-- The row that the statement writes. -/
def row? : Statement → Option EventRow
  | .insert row | .replace row => some row
  | _ => none

/-- All integers are microseconds, and what is written is a row of the event, if there is one. -/
structure IsFor (e? : Option Event) (s : Statement) : Prop where
  isCount : ∀ m ∈ s.integers, IsCount m
  isRowOf : ∀ r ∈ s.row?, r.IsRowOf e?

theorem isFor_of_reads {e? : Option Event} {s : Statement} (hrow : s.row? = none)
    (h : ∀ m ∈ s.integers, IsCount m) : s.IsFor e? :=
  ⟨h, by simp [hrow]⟩

theorem isFor_of_writes {e? : Option Event} {s : Statement} {r : EventRow} (hrow : s.row? = some r)
    (hi : s.integers = r.integers) (h : r.IsRowOf e?) : s.IsFor e? :=
  ⟨hi ▸ h.isCount, by simpa [hrow] using h⟩

theorem exec_keeps {P : EventRow → Prop} {s : Statement} (hs : ∀ r ∈ s.row?, P r) {t : EventTable}
    (ht : ∀ r ∈ t, P r) : ∀ r ∈ (s.exec t).2, P r := by
  cases s with
  | insert row =>
    intro r hr
    rcases List.mem_append.1 hr with hr | hr
    · exact ht r hr
    · exact hs r (by rw [List.mem_singleton.1 hr]; rfl)
  | replace row =>
    intro r hr
    obtain ⟨o, ho, rfl⟩ := List.mem_map.1 hr
    split_ifs
    · exact hs row rfl
    · exact ht o ho
  | delete id => exact fun r hr => ht r (List.mem_filter.1 hr).1
  | hasSlot userId start => exact ht
  | hasSlotOfOther userId start id => exact ht
  | hasRow id => exact ht
  | find id => exact ht
  | window start finish => exact ht

end Statement

namespace EventTable

open Script Statement

theorem create_asks (id : String) (e : Event) :
    (create id e).Asks (Statement.IsFor (some e)) := by
  simp only [create]
  cases hflaw : e.atStoragePrecision.flaw? with
  | some flaw => exact asks_pure _
  | none =>
    have hrow : EventRow.IsRowOf (some e) (.ofEvent { e.atStoragePrecision with id }) :=
      ⟨e, rfl, id, (Event.flaw?_eq_none_iff.1 hflaw).withId id, rfl⟩
    refine asks_query_bind (isFor_of_reads rfl (by simp [integers, isCount_micros])) fun busy => ?_
    cases busy with
    | true => exact asks_pure _
    | false => exact asks_query_bind (isFor_of_writes rfl rfl hrow) fun _ => asks_pure _

theorem update_asks (e : Event) : (update e).Asks (Statement.IsFor (some e)) := by
  simp only [update]
  cases hflaw : e.atStoragePrecision.flaw? with
  | some flaw => exact asks_pure _
  | none =>
    have hrow : EventRow.IsRowOf (some e) (.ofEvent e.atStoragePrecision) :=
      ⟨e, rfl, e.id, Event.flaw?_eq_none_iff.1 hflaw, rfl⟩
    refine asks_query_bind (isFor_of_reads rfl (by simp [integers])) fun known => ?_
    cases known with
    | false => exact asks_pure _
    | true =>
      refine asks_query_bind (isFor_of_reads rfl (by simp [integers, isCount_micros]))
        fun busy => ?_
      cases busy with
      | true => exact asks_pure _
      | false => exact asks_query_bind (isFor_of_writes rfl rfl hrow) fun _ => asks_pure _

end EventTable

open Script Statement in
theorem Call.client_asks (c : Call) : c.client.Asks (Statement.IsFor c.event?) := by
  cases c with
  | create id e => exact (EventTable.create_asks id.text e).bind fun _ => asks_pure _
  | update e => exact (EventTable.update_asks e).bind fun _ => asks_pure _
  | delete id =>
    refine (asks_query_bind (isFor_of_reads rfl (by simp [integers])) fun n => ?_).bind
      fun _ => asks_pure _
    by_cases hn : n = 0
    · rw [if_pos hn]
      exact asks_pure _
    · rw [if_neg hn]
      exact asks_pure _
  | get id =>
    refine (asks_query_bind (isFor_of_reads rfl (by simp [integers])) fun row => ?_).bind
      fun _ => asks_pure _
    cases row <;> exact asks_pure _
  | list start finish =>
    exact (asks_query_bind (isFor_of_reads rfl (by simp [integers, isCount_micros]))
      fun _ => asks_pure _).bind fun _ => asks_pure _

namespace EventStore

/-- The store is a table, and all of its rows are such. -/
def AllRows (P : EventRow → Prop) (s : EventStore) : Prop := ∃ t, s = table t ∧ ∀ r ∈ t, P r

variable {P : EventRow → Prop} {s : EventStore}

theorem AllRows.call (h : s.AllRows P) {c : Call} (hc : ∀ r, r.IsRowOf c.event? → P r) :
    (s.call c).2.AllRows P := by
  obtain ⟨t, rfl, ht⟩ := h
  rw [EventTable.call_table]
  have hstep : ∀ q, Statement.IsFor c.event? q → ∀ t : EventTable, (∀ r ∈ t, P r) →
      ∀ r ∈ (q.exec t).2, P r := fun q hq t ht =>
    Statement.exec_keeps (fun r hr => hc r (hq.isRowOf r hr)) ht
  exact ⟨_, rfl, Script.run_keeps hstep c.client_asks ht⟩

/-- Whatever is asked of the store, an event is given back unless there is none, and a list is
complete. -/
structure Answers (s : EventStore) : Prop where
  get : ∀ id err, s.get id = .error err → err = .notFound id
  list : ∀ start finish, ∃ l, s.list start finish = .ok l

theorem answers_memory (m : MemoryStore) : (memory m).Answers := by
  refine ⟨fun id err h => ?_, fun start finish => ⟨_, rfl⟩⟩
  simp only [EventStore.get, MemoryStore.get] at h
  split at h <;> cases h
  rfl

theorem list_table (t : EventTable) (start finish : Instant) :
    (table t).list start finish = ((t.filter fun r => decide (start.micros ≤ r.start)
        && decide (r.start ≤ finish.micros)).mergeSort
      fun a b => decide (a.start ≤ b.start)).mapM EventRow.event := rfl

/-- A row that cannot be read is enough to make the list of what starts with it fail. -/
theorem answers_table_iff {t : EventTable} (ht : ∀ r ∈ t, ∃ e?, r.IsRowOf e?) :
    (table t).Answers ↔ ∀ r ∈ t, r.IsReadable := by
  constructor
  · intro h r hr
    obtain ⟨_, e, -, id, -, hrow⟩ := ht r hr
    have hstart : r.start = e.atStoragePrecision.startTime.micros := congrArg EventRow.start hrow
    obtain ⟨l, hl⟩ := h.list e.atStoragePrecision.startTime e.atStoragePrecision.startTime
    rw [list_table] at hl
    refine exists_mapM_eq_ok_iff.1 ⟨l, hl⟩ r ?_
    rw [List.mem_mergeSort, List.mem_filter, Bool.and_eq_true, decide_eq_true_eq,
      decide_eq_true_eq]
    exact ⟨hr, hstart.ge, hstart.le⟩
  · intro h
    refine ⟨fun id err herr => ?_, fun start finish => ?_⟩
    · rw [EventStore.get, EventTable.run_get] at herr
      rcases hf : t.find? fun r => r.id = id with _ | r
      · rw [hf] at herr
        cases herr
        rfl
      · obtain ⟨e, he⟩ := h r (List.mem_of_find?_eq_some hf)
        rw [hf, Option.elim_some, he] at herr
        cases herr
    · rw [list_table]
      refine exists_mapM_eq_ok_iff.2 fun r hr => h r ?_
      exact (List.mem_filter.1 (List.mem_mergeSort.1 hr)).1

end EventStore

namespace EventRow

variable {e? : Option Event} {r : EventRow}

theorem IsRowOf.isReadable_iff (h : r.IsRowOf e?) :
    r.IsReadable ↔ r.finish ≤ Instant.last.micros := by
  obtain ⟨e, -, id, hv, rfl⟩ := h
  rw [isReadable_ofEvent_iff hv]
  exact Instant.micros_le_last_iff.symm

theorem IsRowOf.isReadable (h : r.IsRowOf e?) (he : ∀ e ∈ e?, e.endTime ≤ Instant.last) :
    r.IsReadable := by
  obtain ⟨e, hmem, id, hv, rfl⟩ := h
  rw [isReadable_ofEvent_iff hv]
  exact Instant.le_trans e.endTime.floorMicros_le (he e hmem)

end EventRow

namespace NotificationRow

theorem exists_instant_iff {t : Instant} {c : Nat} :
    (∃ u, EventRow.instant t.micros c = .ok u) ↔ t ≤ Instant.last := by
  constructor
  · rintro ⟨u, hu⟩
    obtain ⟨hm, ho, -⟩ := EventRow.instant_eq_ok_iff.1 hu
    rw [← Instant.micros_le_last_iff, ← hm, Instant.micros_le_last_iff]
    exact Instant.le_last ho
  · intro h
    obtain ⟨u, hu⟩ := Instant.exists_of_le_last h
    exact ⟨u, EventRow.instant_eq_ok_iff.2 hu⟩

theorem exists_notification_iff {n : Notification} :
    (∃ m, (ofNotification n).notification = .ok m)
      ↔ n.notifyAt ≤ Instant.last ∧ n.createdAt ≤ Instant.last := by
  rw [← exists_instant_iff (c := 5), ← exists_instant_iff (c := 6)]
  simp only [notification, ofNotification, bind_eq_ok_iff]
  constructor
  · rintro ⟨_, t, ht, u, hu, -⟩
    exact ⟨⟨t, ht⟩, u, hu⟩
  · rintro ⟨⟨t, ht⟩, u, hu⟩
    exact ⟨_, t, ht, u, hu, rfl⟩

end NotificationRow

namespace NotificationStore

/-- Whatever is asked of the store, a list is complete. -/
def Answers (s : NotificationStore) : Prop :=
  ∀ userId start finish, ∃ l, s.list userId start finish = .ok l

theorem answers_table_iff {ns : List Notification} :
    (ofNotifications .database ns).Answers
      ↔ ∀ n ∈ ns, n.notifyAt ≤ Instant.last ∧ n.createdAt ≤ Instant.last := by
  simp only [Answers, ofNotifications, list, NotificationTable.list, exists_mapM_eq_ok_iff,
    List.mem_mergeSort, List.mem_filter, Bool.and_eq_true, beq_iff_eq, decide_eq_true_eq]
  constructor
  · intro h n hn
    refine NotificationRow.exists_notification_iff.1 ?_
    exact h n.userId n.notifyAt n.notifyAt _ ⟨List.mem_map_of_mem hn,
      ⟨rfl, Int.le_refl _⟩, Int.le_refl _⟩
  · rintro h userId start finish r ⟨hr, -⟩
    obtain ⟨n, hn, rfl⟩ := List.mem_map.1 hr
    exact NotificationRow.exists_notification_iff.2 (h n hn)

end NotificationStore

namespace Bench

open EventStore

variable {π : Type} {P : EventRow → Prop}

theorem allRows_tick (c : Conditions π) (s : SchedulerSettings) (now : Instant) {b : Bench π}
    (h : b.store.AllRows P) : (b.tick c s now).2.store.AllRows P := by
  have hstep : ∀ r, True → ∀ b : Bench π, b.store.AllRows P →
      (c.answer r b).2.store.AllRows P := by
    intro r _ b hb
    cases r with
    | list start finish => exact hb
    | newId => exact hb
    | send n => exact hb
    | delete id =>
      rcases hf : c.deleteFails id with _ | err
      · simp only [Conditions.answer, hf]
        exact hb.call (c := .delete id) fun r hr => absurd hr EventRow.not_isRowOf_none
      · simp only [Conditions.answer, hf]
        exact hb
  exact Script.run_keeps hstep (Datebook.tick s now).asks_true h

theorem allRows_act {b : Bench π} (h : b.store.AllRows P) {a : Act π}
    (ha : ∀ r, r.IsRowOf a.event? → P r) : (b.act a).store.AllRows P := by
  cases a with
  | call c => exact h.call ha
  | tick c s now => exact allRows_tick c s now h

theorem allRows_acts : ∀ (as : List (Act π)) {b : Bench π}, b.store.AllRows P →
    (∀ a ∈ as, ∀ r, r.IsRowOf a.event? → P r) → ∀ b' ∈ b.acts as, b'.store.AllRows P
  | [], b, h, _, b', hb' => by
    rw [acts, List.mem_singleton] at hb'
    exact hb' ▸ h
  | a :: as, b, h, ha, b', hb' => by
    rcases List.mem_cons.1 hb' with rfl | hb'
    · exact h
    · have hact := allRows_act h (ha a List.mem_cons_self)
      exact allRows_acts as hact (fun a' ha' => ha a' (List.mem_cons_of_mem a ha')) b' hb'

/-- A list that fails as a whole leaves nothing to be notified of. -/
theorem tick_of_list_error {c : Conditions π} {s : SchedulerSettings} {now : Instant} {b : Bench π}
    {err : StoreError} (h : b.store.list now (Tick.windowEnd s now) = .error err) :
    (b.tick c s now).1.scanned = 0 ∧ (b.tick c s now).1.sent = 0
      ∧ (b.tick c s now).2.offers = b.offers := by
  have hlist : ∃ err, (c.listFails 0).elim (b.store.list now (Tick.windowEnd s now)) .error
      = .error err := by
    rw [h]
    cases c.listFails 0 <;> exact ⟨_, rfl⟩
  obtain ⟨err, hlist⟩ := hlist
  unfold tick Datebook.tick Tick.notifyPass
  simp only [Tick.ask, Script.run_bind, Script.run_query, Script.run_pure, Conditions.answer, hlist,
    c.cleanupPass_offers, and_self]

/-- The microseconds of every instant fit in 64 bits. Whatever is done at an empty table, and
whatever is saved in an empty log: all that is bound and written are such counts of microseconds,
and everything asked for is answered exactly if no event that is kept ends in the leap second at the
end of the calendar, and no notification that is kept lies in it. -/
theorem table_answers_iff (producer : π) (as : List (Act π)) (ns : List Notification) :
    (∀ t : Instant, t.micros64.toInt = t.micros)
      ∧ (∀ c : Call, c.client.Asks fun q => ∀ m ∈ q.integers, IsCount m)
      ∧ (∀ b ∈ (new (.empty .database) producer).acts as, ∃ t, b.store = .table t
        ∧ (∀ r ∈ t, ∀ m ∈ r.integers, IsCount m)
        ∧ (b.store.Answers ↔ ∀ r ∈ t, r.finish ≤ Instant.last.micros)
        ∧ ((∀ a ∈ as, ∀ e ∈ a.event?, e.endTime ≤ Instant.last) → b.store.Answers))
      ∧ ∃ t, (NotificationStore.empty .database).saveAll ns = .table t
        ∧ (∀ r ∈ t, IsCount r.notify ∧ IsCount r.created)
        ∧ ((NotificationStore.table t).Answers
          ↔ ∀ n ∈ firsts ns, n.notifyAt ≤ Instant.last ∧ n.createdAt ≤ Instant.last) := by
  refine ⟨Instant.toInt_micros64, fun c => c.client_asks.imp fun q hq => hq.isCount,
    fun b hb => ?_, ?_⟩
  · have hempty : (new (.empty .database) producer).store.AllRows
        fun r => ∃ a ∈ as, r.IsRowOf a.event? := ⟨[], rfl, by simp⟩
    obtain ⟨t, hs, ht⟩ := allRows_acts as hempty (fun a ha r hr => ⟨a, ha, hr⟩) b hb
    have hanswers : b.store.Answers ↔ ∀ r ∈ t, r.IsReadable := by
      rw [hs]
      refine answers_table_iff fun r hr => ?_
      obtain ⟨a, -, hrow⟩ := ht r hr
      exact ⟨a.event?, hrow⟩
    refine ⟨t, hs, fun r hr => ?_, ?_, fun hend => hanswers.2 fun r hr => ?_⟩
    · obtain ⟨a, -, hrow⟩ := ht r hr
      exact hrow.isCount
    · rw [hanswers]
      refine forall₂_congr fun r hr => ?_
      obtain ⟨a, -, hrow⟩ := ht r hr
      exact hrow.isReadable_iff
    · obtain ⟨a, ha, hrow⟩ := ht r hr
      exact hrow.isReadable (hend a ha)
  · rw [NotificationStore.saveAll_empty_eq]
    refine ⟨_, rfl, fun r hr => ?_, NotificationStore.answers_table_iff⟩
    obtain ⟨n, -, rfl⟩ := List.mem_map.1 hr
    exact ⟨isCount_micros _, isCount_micros _⟩

open Event Instant

theorem table_answers_iff_dinnerActs :
    (∀ b ∈ (new (.empty .database) ()).acts dinnerActs, b.store.Answers)
      ∧ ((NotificationStore.empty .database).saveAll NotificationStore.meals).Answers := by
  obtain ⟨-, -, hruns, t, hsaves, -, hiff⟩ :=
    table_answers_iff () dinnerActs NotificationStore.meals
  constructor
  · intro b hb
    obtain ⟨_, -, -, -, hanswers⟩ := hruns b hb
    exact hanswers (by decide)
  · rw [hsaves]
    exact hiff.2 (by decide)

/-- The leap second at the end of the calendar. -/
def lastLeap : Instant := atTime maxSecond 1000000000

/-- A dinner that ends with the calendar, and a supper that is reminded of. -/
def endlessActs : List (Act Unit) :=
  [.call (.create idA ⟨"", "Dinner", "", atTime 30 0, lastLeap, "ada", none⟩),
    .call (.create idB (dinner "" "Supper" (atTime 40 0)))]

/-- What these acts lead to at an empty store. -/
def endless (k : StorageKind) : Bench Unit := endlessActs.foldl act (new (.empty k) ())

theorem endless_mem_acts (k : StorageKind) : endless k ∈ (new (.empty k) ()).acts endlessActs := by
  simp [endless, endlessActs, acts]

def endlessRows : EventTable :=
  [⟨"a", "Dinner", "", 30000000, 8210266876800000000, "ada", none⟩,
    ⟨"b", "Supper", "", 40000000, 40000000, "ada", some 40000000⟩]

/-- Both are entered, but the dinner cannot be given back, no list has the supper, and no tick finds
that its reminder is due. In memory nothing of the kind happens. -/
theorem endless_dinner_unreadable :
    ofText? "+262142-12-31T23:59:60Z" = some lastLeap ∧ ofMicros? lastLeap.micros = none
      ∧ (∃ b ∈ (new (.empty .database) ()).acts endlessActs, ¬ b.store.Answers
        ∧ b.store = .table endlessRows
        ∧ b.store.get "a" = .error (.outOfRange 8210266876800000000 4)
        ∧ b.store.list (atTime 0 0) (atTime 60 0) = .error (.outOfRange 8210266876800000000 4)
        ∧ (b.tick fair ⟨60, 3600⟩ (atTime 0 0)).1.sent = 0)
      ∧ ∃ b ∈ (new (.empty .memory) ()).acts endlessActs, b.store.Answers
        ∧ (b.tick fair ⟨60, 3600⟩ (atTime 0 0)).1.sent = 1 := by
  have hstore : (endless .database).store = .table endlessRows := by decide +kernel
  have hget : (endless .database).store.get "a" = .error (.outOfRange 8210266876800000000 4) := by
    rw [hstore]
    decide
  have hlist : (endless .database).store.list (atTime 0 0) (atTime 60 0)
      = .error (.outOfRange 8210266876800000000 4) := by
    rw [hstore, list_table, List.mergeSort_of_pairwise (by decide)]
    decide
  have hmemory : ∃ m, (endless .memory).store = .memory m := ⟨_, rfl⟩
  refine ⟨by decide +kernel, by decide, ⟨_, endless_mem_acts .database, fun h => ?_, hstore, hget,
    hlist, (tick_of_list_error hlist).2.1⟩, _, endless_mem_acts .memory, ?_, by decide +kernel⟩
  · exact absurd (h.get "a" _ hget) (by decide)
  · obtain ⟨m, hm⟩ := hmemory
    rw [hm]
    exact answers_memory m

end Bench

end Datebook
