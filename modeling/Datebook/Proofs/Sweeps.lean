import Datebook.Proofs.Keys
import Datebook.Proofs.Periods

/-!
# A tick among clients

Clients call the store whenever they like between the requests of a tick. The cleanup lists what has
started by the cutoff and then deletes it by its id, so what a client has moved in the meantime is
deleted all the same (`moved_dinner_removed`). That is the only way to lose an event that has not
started by then (`removals_of_tick`): a call changes only what is kept under its own id, and no new
event has an id of the list.
-/

namespace Datebook

theorem Tick.isOrdinary_cutoff_of_or {s : SchedulerSettings} {now : Instant}
    (h : now.IsOrdinary ∨ 1 ≤ s.retentionSecs) : (cutoff s now).IsOrdinary := by
  rcases h with h | h
  · exact isOrdinary_cutoff h
  · unfold cutoff
    rcases hu : now.sub? s.retention with _ | u
    · exact Instant.isOrdinary_first
    · refine Instant.isOrdinary_of_sub? ?_ hu
      unfold SchedulerSettings.retention Span.ofSeconds Span.longest
      omega

/-- One of these calls updated what is kept under the id. -/
def WasUpdated (log : List (Call × Reply)) (i : String) : Prop :=
  ∃ u, (Call.update u, Reply.done (.ok ())) ∈ log ∧ u.id = i

theorem WasUpdated.append {log : List (Call × Reply)} {i : String} (h : WasUpdated log i)
    (log' : List (Call × Reply)) : WasUpdated (log ++ log') i := by
  obtain ⟨u, hu, hui⟩ := h
  exact ⟨u, List.mem_append_left _ hu, hui⟩

namespace EventStore

/-- If anything is kept under the id, it starts by the cutoff or was updated by one of the calls. -/
def IsSpent (cutoff : Instant) (log : List (Call × Reply)) (s : EventStore) (i : String) : Prop :=
  i ∈ s.ids → (∃ e, (i, .ok e) ∈ s.entries ∧ e.startTime ≤ cutoff) ∨ WasUpdated log i

variable {cutoff : Instant} {log : List (Call × Reply)} {s : EventStore} {i : String}

theorem IsSpent.of_entries {s' : EventStore} (h : s.IsSpent cutoff log i)
    (hs : ∀ r, (i, r) ∈ s'.entries ↔ (i, r) ∈ s.entries) : s'.IsSpent cutoff log i := by
  intro hi
  obtain ⟨r, hr⟩ := mem_ids.1 hi
  obtain ⟨e, he, hle⟩ | hu := h (mem_ids.2 ⟨r, (hs r).1 hr⟩)
  · exact Or.inl ⟨e, (hs _).2 he, hle⟩
  · exact Or.inr hu

theorem IsSpent.delete (h : s.IsSpent cutoff log i) (id : String) :
    (s.delete id).2.IsSpent cutoff log i := by
  by_cases hid : i = id
  · intro hi
    obtain ⟨r, hr⟩ := mem_ids.1 hi
    rw [entries_delete, List.mem_filter, decide_eq_true_eq] at hr
    exact absurd hid hr.2
  · refine h.of_entries fun r => ?_
    rw [entries_delete, List.mem_filter, decide_eq_true_eq, and_iff_left hid]

theorem IsSpent.call (h : s.IsSpent cutoff log i) {c : Call} (hnew : s.IsNewIn c)
    (hi : c.newId? ≠ some i) : (s.call c).2.IsSpent cutoff (log ++ [(c, (s.call c).1)]) i := by
  have hlog : s.IsSpent cutoff (log ++ [(c, (s.call c).1)]) i := fun hmem =>
    (h hmem).imp_right fun hu => hu.append _
  by_cases ht : c.target? = some i
  · cases c with
    | create id e => exact absurd ht hi
    | update e =>
      obtain ⟨err, hs⟩ | ⟨hok, -⟩ := update_cases s e
      · rw [call_update, hs] at hlog ⊢
        exact hlog
      · refine fun _ => Or.inr ⟨e, ?_, Option.some.inj ht⟩
        rw [call_update, hok]
        exact List.mem_append_right _ List.mem_cons_self
    | delete id => exact hlog.delete id
    | get id => cases ht
    | list start finish => cases ht
  · exact hlog.of_entries fun r => mem_entries_call hnew ht

/-- While the events with these ids are removed, and the clients go on with these calls. -/
structure IsSwept (cutoff : Instant) (k : StorageKind) (ids : List String) (ahead : List Call)
    (log : List (Call × Reply)) (s : EventStore) : Prop where
  isKeyed : s.IsKeyed
  kind_eq : s.kind = k
  newIds_nodup : (newIds ahead).Nodup
  not_mem : ∀ i ∈ newIds ahead, i ∉ s.ids ∧ i ∉ ids
  isSpent : ∀ i ∈ ids, s.IsSpent cutoff log i

variable {k : StorageKind} {ids : List String} {ahead : List Call}

theorem IsSwept.delete (h : s.IsSwept cutoff k ids ahead log) (id : String) :
    (s.delete id).2.IsSwept cutoff k ids ahead log := by
  refine ⟨delete_isKeyed h.isKeyed id, (kind_call s (.delete id)).trans h.kind_eq, h.newIds_nodup,
    fun i hi => ⟨fun hmem => ?_, (h.not_mem i hi).2⟩, fun i hi => (h.isSpent i hi).delete id⟩
  rcases mem_ids_call (c := .delete id) trivial hmem with hmem | hmem
  · exact (h.not_mem i hi).1 hmem
  · cases hmem

theorem IsSwept.call {c : Call} (h : s.IsSwept cutoff k ids (c :: ahead) log) :
    (s.call c).2.IsSwept cutoff k ids ahead (log ++ [(c, (s.call c).1)]) := by
  have hsub : newIds ahead ⊆ newIds (c :: ahead) :=
    ((List.sublist_cons_self c ahead).filterMap _).subset
  have hmine : ∀ i, c.newId? = some i → i ∈ newIds (c :: ahead) ∧ i ∉ newIds ahead := by
    intro i hi
    have hn := h.newIds_nodup
    unfold newIds at hn ⊢
    rw [List.filterMap_cons_some hi] at hn ⊢
    exact ⟨List.mem_cons_self, (List.nodup_cons.1 hn).1⟩
  have hnew : s.IsNewIn c := by
    cases c with
    | create id e => exact (h.not_mem id.text (hmine id.text rfl).1).1
    | _ => trivial
  refine ⟨call_isKeyed h.isKeyed hnew, (kind_call s c).trans h.kind_eq,
    h.newIds_nodup.sublist ((List.sublist_cons_self c ahead).filterMap _),
    fun i hi => ⟨fun hmem => ?_, (h.not_mem i (hsub hi)).2⟩, fun i hi => ?_⟩
  · rcases mem_ids_call hnew hmem with hmem | hmem
    · exact (h.not_mem i (hsub hi)).1 hmem
    · exact (hmine i hmem).2 hi
  · exact (h.isSpent i hi).call hnew fun hc => (h.not_mem i (hmine i hc).1).2 hi

theorem IsSwept.calls : ∀ (cs : List Call) {log : List (Call × Reply)} {s : EventStore},
    s.IsSwept cutoff k ids (cs ++ ahead) log →
      (s.calls cs).2.IsSwept cutoff k ids ahead (log ++ cs.zip (s.calls cs).1)
  | [], log, s, h => by
    rw [EventStore.calls, List.zip_nil_left, List.append_nil]
    exact h
  | c :: cs, log, s, h => by
    have ih := IsSwept.calls cs h.call
    rw [List.append_assoc] at ih
    exact ih

theorem IsSwept.list (h : s.IsSwept cutoff k [] ahead log)
    (hcutoff : k = .database → cutoff.IsOrdinary) {l : List Event}
    (hl : s.list Instant.first cutoff = .ok l) :
    s.IsSwept cutoff k (l.map (·.id)) ahead [] := by
  obtain ⟨-, hmem⟩ := mem_entries_of_list h.isKeyed hl
  refine ⟨h.isKeyed, h.kind_eq, h.newIds_nodup, fun i hi => ?_, fun i hi => ?_⟩
  · have hids := (h.not_mem i hi).1
    refine ⟨hids, fun hil => hids ?_⟩
    obtain ⟨e, he, rfl⟩ := List.mem_map.1 hil
    exact mem_ids.2 ⟨_, (hmem e he).1⟩
  · obtain ⟨e, he, rfl⟩ := List.mem_map.1 hi
    obtain ⟨hentry, hw⟩ := hmem e he
    have hord : s.kind = .database → Instant.first.IsOrdinary ∧ Instant.first.IsWholeMicros
        ∧ cutoff.IsOrdinary :=
      fun hk => ⟨by decide, by decide, hcutoff (h.kind_eq ▸ hk)⟩
    exact fun _ => Or.inl ⟨e, hentry, (((fits_of_mem_entries hentry).inWindow_iff hord).1 hw).2⟩

end EventStore

/-- A deletion of a tick that succeeded: the store that it found, and what clients had called since
the tick last listed, with the replies. -/
structure Removal where
  id : String
  found : EventStore
  log : List (Call × Reply)

/-- What was kept had started by the cutoff, or a client had updated it since the list. -/
def Removal.IsRight (cutoff : Instant) (r : Removal) : Prop :=
  (∃ e, r.found.get r.id = .ok e ∧ e.startTime ≤ cutoff) ∨ WasUpdated r.log r.id

/-- A bench among clients, what they will call before each request to come, what they have called
since the tick last listed, and what the tick has removed. -/
structure Crowd (π : Type) where
  bench : Bench π
  plan : List (List Call)
  log : List (Call × Reply)
  removals : List Removal

variable {π : Type}

namespace Crowd

/-- The clients call before the next request. -/
def arrive (w : Crowd π) : Crowd π :=
  let cs := w.plan.headD []
  let (replies, store) := w.bench.store.calls cs
  { w with
    bench := { w.bench with store }
    plan := w.plan.tail
    log := w.log ++ cs.zip replies }

def answer (c : Conditions π) : (r : Request) → Crowd π → r.Answer × Crowd π
  | .list start finish, w =>
    let w := w.arrive
    let (a, bench) := c.answer (.list start finish) w.bench
    (a, { w with bench, log := [] })
  | .newId, w =>
    let w := w.arrive
    let (a, bench) := c.answer .newId w.bench
    (a, { w with bench })
  | .send n, w =>
    let w := w.arrive
    let (a, bench) := c.answer (.send n) w.bench
    (a, { w with bench })
  | .delete id, w =>
    let w := w.arrive
    let (a, bench) := c.answer (.delete id) w.bench
    (a, { w with
      bench
      removals := w.removals ++ if a.isOk then [⟨id, w.bench.store, w.log⟩] else [] })

/-- Runs one tick, whose lists are counted from 0, among clients with these plans. -/
def tick (c : Conditions π) (s : SchedulerSettings) (now : Instant) (b : Bench π)
    (plan : List (List Call)) : TickReport × Crowd π :=
  (Datebook.tick s now).run (answer c) ⟨{ b with listed := 0 }, plan, [], []⟩

structure IsSwept (cutoff : Instant) (k : StorageKind) (ids : List String) (w : Crowd π) :
    Prop where
  store : w.bench.store.IsSwept cutoff k ids w.plan.flatten w.log
  isRight : ∀ r ∈ w.removals, r.IsRight cutoff

variable {cutoff : Instant} {k : StorageKind} {ids : List String} {w : Crowd π}

theorem IsSwept.arrive (h : w.IsSwept cutoff k ids) : w.arrive.IsSwept cutoff k ids := by
  refine ⟨EventStore.IsSwept.calls (w.plan.headD []) ?_, h.isRight⟩
  have hplan : w.plan.headD [] ++ w.arrive.plan.flatten = w.plan.flatten := by
    unfold Crowd.arrive
    cases w.plan <;> rfl
  rw [hplan]
  exact h.store

theorem IsSwept.answer_notify (c : Conditions π) {r : Request} (hr : Tick.IsOfNotifyPass r)
    (h : w.IsSwept cutoff k []) : (answer c r w).2.IsSwept cutoff k [] := by
  have h' := h.arrive
  cases r with
  | list start finish =>
    exact ⟨⟨h'.store.isKeyed, h'.store.kind_eq, h'.store.newIds_nodup, h'.store.not_mem,
      fun _ hi => by cases hi⟩, h'.isRight⟩
  | newId => exact ⟨h'.store, h'.isRight⟩
  | send n => exact ⟨h'.store, h'.isRight⟩
  | delete id => cases hr

theorem IsSwept.answer_list (c : Conditions π) (hcutoff : k = .database → cutoff.IsOrdinary)
    (h : w.IsSwept cutoff k []) {l : List Event}
    (hl : (answer c (.list Instant.first cutoff) w).1 = .ok l) :
    (answer c (.list Instant.first cutoff) w).2.IsSwept cutoff k (l.map (·.id)) := by
  have h' := h.arrive
  have hl' : w.arrive.bench.store.list Instant.first cutoff = .ok l := by
    simp only [answer, Conditions.answer] at hl
    rcases hf : c.listFails w.arrive.bench.listed with _ | err
    · rwa [hf] at hl
    · rw [hf] at hl
      cases hl
  exact ⟨h'.store.list hcutoff hl', h'.isRight⟩

theorem IsSwept.answer_delete (c : Conditions π) (h : w.IsSwept cutoff k ids) {i : String}
    (hi : i ∈ ids) : (answer c (.delete i) w).2.IsSwept cutoff k ids := by
  have h' := h.arrive
  rcases hf : c.deleteFails i with _ | err
  · simp only [answer, Conditions.answer, hf]
    refine ⟨h'.store.delete i, fun r hr => ?_⟩
    rcases List.mem_append.1 hr with hr | hr
    · exact h'.isRight r hr
    · split_ifs at hr with hok
      · obtain rfl := List.mem_singleton.1 hr
        have hdel : (w.arrive.bench.store.delete i).1 = .ok () := by
          rcases hd : (w.arrive.bench.store.delete i).1 with err | u
          · rw [hd] at hok
            cases hok
          · rfl
        refine (h'.store.isSpent i hi (EventStore.mem_ids_of_delete hdel)).imp_left ?_
        rintro ⟨e, he, hle⟩
        exact ⟨e, EventStore.get_of_mem_entries h'.store.isKeyed he, hle⟩
      · cases hr
  · simp only [answer, Conditions.answer, hf]
    exact ⟨h'.store, by simpa [Except.isOk, Except.toBool] using h'.isRight⟩

/-- Whatever clients do during a tick, it removes only what has started by the cutoff, or what a
client has updated since the cleanup listed it. -/
theorem removals_of_tick (c : Conditions π) (s : SchedulerSettings) (now : Instant) {b : Bench π}
    (hb : b.store.IsKeyed) (plan : List (List Call)) (hnodup : (newIds plan.flatten).Nodup)
    (hnew : ∀ i ∈ newIds plan.flatten, i ∉ b.store.ids)
    (hnow : b.store.kind = .database → now.IsOrdinary ∨ 1 ≤ s.retentionSecs) :
    ∀ r ∈ (tick c s now b plan).2.removals, r.IsRight (Tick.cutoff s now) := by
  have hstart : IsSwept (Tick.cutoff s now) b.store.kind []
      ⟨{ b with listed := 0 }, plan, [], []⟩ :=
    ⟨⟨hb, rfl, hnodup, fun i hi => ⟨hnew i hi, by simp⟩, by simp⟩, by simp⟩
  have hanswer : ∀ r, Tick.IsOfNotifyPass r → ∀ w : Crowd π,
      w.IsSwept (Tick.cutoff s now) b.store.kind [] →
      (answer c r w).2.IsSwept (Tick.cutoff s now) b.store.kind [] :=
    fun r hr w h => h.answer_notify c hr
  -- The first pass removes nothing, so nothing has to hold of what is removed until the second
  -- lists.
  have hnotify := Script.run_keeps hanswer (Tick.notifyPass_asks s now) hstart
  unfold tick Datebook.tick Tick.cleanupPass
  simp only [Tick.ask, Script.run_bind, Script.run_query, Script.run_pure]
  generalize ((Tick.notifyPass s now).run (answer c) _).2 = w at hnotify ⊢
  rcases hl : (answer c (.list Instant.first (Tick.cutoff s now)) w).1 with err | l
  · exact (hnotify.answer_notify c (r := .list Instant.first (Tick.cutoff s now)) trivial).isRight
  · have hlist := hnotify.answer_list c (fun hk => Tick.isOrdinary_cutoff_of_or (hnow hk)) hl
    refine (Script.run_keeps ?_ (Tick.deleteAll_asks l) hlist).isRight
    rintro r ⟨i, hi, rfl⟩ w' h
    exact h.answer_delete c hi

open Bench EventStore

def oldDinner : Event := .dinner "a" "Dinner" (.atTime (-7200) 0)

def movedDinner : Event := .dinner "a" "Dinner" (.atTime 7200 0)

/-- A new dinner is entered before the tick, and the old one is put off once it was listed. -/
def busyEvening : List (List Call) :=
  [[.create idB (.dinner "" "Supper" (.atTime 50 0))], [], [], [], [.get "a", .update movedDinner]]

theorem removals_of_tick_busyEvening :
    let b := new (ofEvents .database [oldDinner]) ()
    b.store.IsKeyed ∧ (newIds busyEvening.flatten).Nodup
      ∧ (∀ i ∈ newIds busyEvening.flatten, i ∉ b.store.ids) ∧ (minute 0).IsOrdinary
      ∧ (tick fair ⟨60, 3600⟩ (minute 0) b busyEvening).2.removals.map
          (fun r => (r.id, r.found.ids))
        = [("a", ["a", "b"])]
      ∧ ∀ r ∈ (tick fair ⟨60, 3600⟩ (minute 0) b busyEvening).2.removals,
        r.IsRight (Tick.cutoff ⟨60, 3600⟩ (minute 0)) :=
  have hs : (ofEvents .database [oldDinner]).Holds [oldDinner] :=
    holds_iff.2 ⟨.database, rfl, by decide⟩
  have hb : (new (ofEvents .database [oldDinner]) ()).store.IsKeyed := hs.isKeyed (by decide)
  have hnodup : (newIds busyEvening.flatten).Nodup := by decide
  have hnew : ∀ i ∈ newIds busyEvening.flatten,
      i ∉ (new (ofEvents .database [oldDinner]) ()).store.ids := by decide +kernel
  have hnow : (minute 0).IsOrdinary := by decide +kernel
  ⟨hb, hnodup, hnew, hnow, by decide +kernel,
    removals_of_tick fair ⟨60, 3600⟩ (minute 0) hb busyEvening hnodup hnew fun _ => Or.inl hnow⟩

/-- A client puts the dinner off after the cleanup has listed it, and it is removed as it is then.
Nor does a table tell a leap second from what comes after it. -/
theorem moved_dinner_removed :
    (ofEvents .memory [oldDinner]).update movedDinner = (.ok (), ofEvents .memory [movedDinner])
      ∧ ¬ movedDinner.startTime ≤ Tick.cutoff ⟨60, 3600⟩ (minute 0)
      ∧ (tick fair ⟨60, 3600⟩ (minute 0) (new (ofEvents .memory [oldDinner]) ())
          [[], [], [.update movedDinner]]).2.removals.map (fun r => (r.id, r.found))
        = [("a", ofEvents .memory [movedDinner])]
      ∧ ¬ afterLeap.startTime ≤ Tick.cutoff ⟨60, 0⟩ leap
      ∧ (tick fair ⟨60, 0⟩ leap (new (ofEvents .database [afterLeap]) ()) []).2.removals.map
          (fun r => (r.id, r.found))
        = [("a", ofEvents .database [afterLeap])] :=
  ⟨by rfl, by decide +kernel, by decide +kernel, by decide +kernel, by decide +kernel⟩

end Crowd

end Datebook
