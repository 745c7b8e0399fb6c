import Datebook.Proofs.Lists
import Datebook.Proofs.Validity
import Datebook.Settings.Basic
import Datebook.Store.Events
import Mathlib.Data.List.Nodup

/-!
# What a store holds

Of either kind, a store is a list of events in the order in which they were first stored, each under
its own id (`ofEvents`); a table needs every event to be read back as it was (`Fits`). Each call is
one equation on that list: `create_ofEvents`, `update_ofEvents`, `delete_ofEvents`, `get_ofEvents`
and `list_ofEvents`.
-/

namespace Datebook

namespace Event

/-- The events with this one in place of the one with its id. -/
def putIn (e : Event) (es : List Event) : List Event := es.map fun o => if o.id = e.id then e else o

theorem map_id_putIn (e : Event) (es : List Event) :
    (e.putIn es).map (·.id) = es.map (·.id) := by
  unfold putIn
  rw [List.map_map]
  refine List.map_congr_left fun o _ => ?_
  rw [Function.comp_apply]
  split_ifs with ho
  · exact ho.symm
  · rfl

theorem mem_putIn {e a : Event} {es : List Event} :
    a ∈ e.putIn es ↔ (a = e ∧ ∃ o ∈ es, o.id = e.id) ∨ (a ∈ es ∧ a.id ≠ e.id) := by
  unfold putIn
  rw [List.mem_map]
  constructor
  · rintro ⟨o, ho, rfl⟩
    split_ifs with hi
    · exact Or.inl ⟨rfl, o, ho, hi⟩
    · exact Or.inr ⟨ho, hi⟩
  · rintro (⟨rfl, o, ho, hi⟩ | ⟨ha, hi⟩)
    · exact ⟨o, ho, if_pos hi⟩
    · exact ⟨a, ha, if_neg hi⟩

end Event

namespace EventRow

theorem instant_eq_ok_iff {m : Int} {c : Nat} {t : Instant} :
    instant m c = .ok t ↔ t.micros = m ∧ t.IsOrdinary ∧ t.IsWholeMicros := by
  rw [← Instant.ofMicros?_eq_some_iff]
  unfold instant
  split <;> simp_all

theorem mapM_instant_eq_ok_iff {o : Option Int} {c : Nat} {r : Option Instant} :
    o.mapM (instant · c) = .ok r
      ↔ o = r.map Instant.micros ∧ ∀ t ∈ r, t.IsOrdinary ∧ t.IsWholeMicros := by
  rcases o with _ | m
  · cases r <;> simp [pure, Except.pure]
  · simp only [Option.mapM_some, map_eq_pure_bind, bind_eq_ok_iff, instant_eq_ok_iff]
    cases r <;> simp [pure, Except.pure, eq_comm]

/-- A row is read as an event exactly if it is the row of that event, and nothing of it was lost. -/
theorem event_eq_ok_iff {r : EventRow} {e : Event} :
    r.event = .ok e ↔ r = ofEvent e ∧ e.IsOrdinary ∧ e.IsWholeMicros := by
  obtain ⟨id, title, description, start, finish, user, reminder⟩ := r
  obtain ⟨id', title', description', start', finish', user', reminder'⟩ := e
  simp only [event, bind_eq_ok_iff, mapM_instant_eq_ok_iff, instant_eq_ok_iff]
  constructor
  · rintro ⟨q, ⟨rfl, hq⟩, t, ⟨rfl, ht⟩, u, ⟨rfl, hu⟩, h⟩
    cases h
    exact ⟨rfl, ⟨ht.1, hu.1, fun r hr => (hq r hr).1⟩, ht.2, hu.2, fun r hr => (hq r hr).2⟩
  · rintro ⟨h, ho, hw⟩
    cases h
    exact ⟨_, ⟨rfl, fun r hr => ⟨ho.reminderAt r hr, hw.reminderAt r hr⟩⟩, _,
      ⟨rfl, ho.startTime, hw.startTime⟩, _, ⟨rfl, ho.endTime, hw.endTime⟩, rfl⟩

end EventRow

/-- An event that storage of this kind gives back as it was. -/
def StorageKind.Fits : StorageKind → Event → Prop
  | .memory, _ => True
  | .database, e => e.IsOrdinary ∧ e.IsWholeMicros

instance (k : StorageKind) (e : Event) : Decidable (k.Fits e) := by
  cases k
  · exact instDecidableTrue
  · exact inferInstanceAs (Decidable (_ ∧ _))

/-- The event starts from `start` to `finish`, as storage of this kind compares them. -/
def StorageKind.InWindow : StorageKind → Instant → Instant → Event → Prop
  | .memory, start, finish, e => start ≤ e.startTime ∧ e.startTime ≤ finish
  | .database, start, finish, e =>
    start.micros ≤ e.startTime.micros ∧ e.startTime.micros ≤ finish.micros

instance (k : StorageKind) (start finish : Instant) (e : Event) :
    Decidable (k.InWindow start finish e) := by
  cases k <;> exact inferInstanceAs (Decidable (_ ∧ _))

namespace StorageKind

theorem Fits.withId {k : StorageKind} {e : Event} (h : k.Fits e) (id : String) :
    k.Fits { e with id } := by
  cases k
  · trivial
  · exact ⟨⟨h.1.startTime, h.1.endTime, h.1.reminderAt⟩,
      ⟨h.2.startTime, h.2.endTime, h.2.reminderAt⟩⟩

theorem fits_atStoragePrecision {k : StorageKind} {e : Event}
    (he : k = .database → e.IsOrdinary) : k.Fits e.atStoragePrecision := by
  cases k
  · trivial
  · exact ⟨(he rfl).atStoragePrecision, e.isWholeMicros_atStoragePrecision⟩

/-- Both kinds of storage compare alike with a bound in whole microseconds below and any above. -/
theorem Fits.inWindow_iff {k : StorageKind} {e : Event} (he : k.Fits e) {start finish : Instant}
    (hw : k = .database → start.IsOrdinary ∧ start.IsWholeMicros ∧ finish.IsOrdinary) :
    k.InWindow start finish e ↔ start ≤ e.startTime ∧ e.startTime ≤ finish := by
  cases k
  · rfl
  · obtain ⟨h1, h2, h3⟩ := hw rfl
    obtain ⟨ho, hm⟩ := he
    exact and_congr (Instant.micros_le_micros h1 h2 ho.startTime)
      (Instant.micros_le_micros ho.startTime hm.startTime h3)

end StorageKind

namespace EventStore

/-- The store of a kind with these events in this order. -/
def ofEvents : StorageKind → List Event → EventStore
  | .memory, es => .memory ⟨es.map fun e => (e.id, e)⟩
  | .database, es => .table (es.map .ofEvent)

def kind : EventStore → StorageKind
  | .memory _ => .memory
  | .table _ => .database

@[simp] theorem kind_ofEvents (k : StorageKind) (es : List Event) : (ofEvents k es).kind = k := by
  cases k <;> rfl

/-- What a store keeps: the ids in order, each with its event or with why that cannot be read. -/
def entries : EventStore → List (String × Except StoreError Event)
  | .memory m => m.entries.map fun entry => (entry.1, .ok entry.2)
  | .table t => t.map fun row => (row.id, row.event)

/-- The store keeps these events in this order, each under its own id. -/
def Holds (s : EventStore) (es : List Event) : Prop := s.entries = es.map fun e => (e.id, .ok e)

theorem eq_map_ofEvent : ∀ {t : EventTable} {es : List Event},
    (t.map fun row => (row.id, row.event)) = es.map (fun e => (e.id, .ok e)) →
      t = es.map .ofEvent ∧ ∀ e ∈ es, StorageKind.Fits .database e
  | [], [], _ => by simp
  | [], _ :: _, h => by simp at h
  | _ :: _, [], h => by simp at h
  | r :: t, e :: es, h => by
    simp only [List.map_cons, List.cons.injEq, Prod.mk.injEq] at h
    obtain ⟨⟨-, hr⟩, ht⟩ := h
    obtain ⟨rfl, he⟩ := EventRow.event_eq_ok_iff.1 hr
    obtain ⟨rfl, hes⟩ := eq_map_ofEvent ht
    exact ⟨rfl, List.forall_mem_cons.2 ⟨he, hes⟩⟩

theorem holds_iff {s : EventStore} {es : List Event} :
    s.Holds es ↔ ∃ k, s = ofEvents k es ∧ ∀ e ∈ es, StorageKind.Fits k e := by
  unfold Holds entries
  constructor
  · intro h
    rcases s with m | t
    · refine ⟨.memory, ?_, fun _ _ => trivial⟩
      obtain ⟨entries⟩ := m
      have hinj : Function.Injective fun p : String × Event =>
          ((p.1, .ok p.2) : String × Except StoreError Event) := by
        rintro ⟨i, a⟩ ⟨j, b⟩ hab
        simpa using hab
      have he : entries = es.map fun e => (e.id, e) :=
        hinj.list_map (by rw [List.map_map]; exact h)
      rw [he]
      rfl
    · obtain ⟨rfl, hes⟩ := eq_map_ofEvent h
      exact ⟨.database, rfl, hes⟩
  · rintro ⟨k, rfl, h⟩
    cases k
    · simp [ofEvents]
    · simp only [ofEvents, List.map_map]
      refine List.map_congr_left fun e he => ?_
      rw [Function.comp_apply, EventRow.event_eq_ok_iff.2 ⟨rfl, h e he⟩]
      rfl

theorem mapM_event {es : List Event} (h : ∀ e ∈ es, StorageKind.Fits .database e) :
    (es.map EventRow.ofEvent).mapM EventRow.event = .ok es := by
  induction es with
  | nil => rfl
  | cons e es ih =>
    have he : (EventRow.ofEvent e).event = .ok e := EventRow.event_eq_ok_iff.2 ⟨rfl, h e (by simp)⟩
    rw [List.map_cons, List.mapM_cons, he, ih fun e he => h e (by simp [he])]
    rfl

theorem get?_ofEvents (es : List Event) (id : String) :
    MemoryStore.get? ⟨es.map fun e => (e.id, e)⟩ id = es.find? fun e => e.id = id := by
  unfold MemoryStore.get?
  induction es with
  | nil => rfl
  | cons e es ih =>
    simp only [List.map_cons, List.lookup_cons, ih, List.find?_cons]
    by_cases h : id = e.id
    · simp [h]
    · have h' : ¬ e.id = id := fun h' => h h'.symm
      have hb : (id == e.id) = false := by simpa using h
      simp [hb, h']

theorem events_ofEvents (es : List Event) :
    MemoryStore.events ⟨es.map fun e => (e.id, e)⟩ = es := by
  simp [MemoryStore.events, Function.comp_def]

theorem isSome_find?_id {es : List Event} {id : String} :
    (es.find? fun e => e.id = id).isSome ↔ ∃ e ∈ es, e.id = id := by
  simp [List.find?_isSome]

theorem map_pair_putIn (es : List Event) (a : Event) :
    ((es.map fun e => (e.id, e)).map fun entry => if entry.1 = a.id then (a.id, a) else entry)
      = (a.putIn es).map fun e => (e.id, e) := by
  unfold Event.putIn
  rw [List.map_map, List.map_map]
  refine List.map_congr_left fun o _ => ?_
  simp only [Function.comp_apply]
  split_ifs <;> rfl

section Statements

variable {es : List Event} {e : Event}

/-- Where events are read back as they were, microseconds tell whether two claim one slot. -/
theorem claims_slot_iff {o : Event} (ho : StorageKind.Fits .database o)
    (he : StorageKind.Fits .database e) :
    ((EventRow.ofEvent o).userId == e.userId && (EventRow.ofEvent o).start == e.startTime.micros)
      ↔ o.CollidesWith e := by
  unfold EventRow.ofEvent Event.CollidesWith
  rw [Bool.and_eq_true, beq_iff_eq, beq_iff_eq,
    Instant.micros_inj ho.1.startTime ho.2.startTime he.1.startTime he.2.startTime]

theorem exec_hasSlot (hes : ∀ o ∈ es, StorageKind.Fits .database o)
    (he : StorageKind.Fits .database e) :
    (Statement.hasSlot e.userId e.startTime.micros).exec (es.map .ofEvent)
      = (decide (∃ o ∈ es, o.CollidesWith e), es.map .ofEvent) := by
  refine Prod.ext (Bool.eq_iff_iff.2 ?_) rfl
  simp only [Statement.exec, List.any_map, List.any_eq_true, decide_eq_true_eq]
  exact exists_congr fun o => and_congr_right fun ho => claims_slot_iff (hes o ho) he

theorem exec_hasSlotOfOther (hes : ∀ o ∈ es, StorageKind.Fits .database o)
    (he : StorageKind.Fits .database e) :
    (Statement.hasSlotOfOther e.userId e.startTime.micros e.id).exec (es.map .ofEvent)
      = (decide (∃ o ∈ es, o.id ≠ e.id ∧ o.CollidesWith e), es.map .ofEvent) := by
  refine Prod.ext (Bool.eq_iff_iff.2 ?_) rfl
  simp only [Statement.exec, List.any_map, List.any_eq_true, decide_eq_true_eq]
  refine exists_congr fun o => and_congr_right fun ho => ?_
  rw [Function.comp_apply, Bool.and_eq_true, claims_slot_iff (hes o ho) he, bne_iff_ne, and_comm]
  rfl

theorem exec_hasRow (es : List Event) (id : String) :
    (Statement.hasRow id).exec (es.map .ofEvent)
      = (decide (∃ o ∈ es, o.id = id), es.map .ofEvent) := by
  refine Prod.ext (Bool.eq_iff_iff.2 ?_) rfl
  simp [Statement.exec, EventRow.ofEvent]

theorem exec_insert (es : List Event) (e : Event) :
    (Statement.insert (.ofEvent e)).exec (es.map .ofEvent) = ((), (es ++ [e]).map .ofEvent) := by
  simp [Statement.exec]

theorem exec_replace (es : List Event) (e : Event) :
    (Statement.replace (.ofEvent e)).exec (es.map .ofEvent) = ((), (e.putIn es).map .ofEvent) := by
  refine Prod.ext rfl ?_
  unfold Event.putIn
  simp only [Statement.exec, List.map_map]
  refine List.map_congr_left fun o _ => ?_
  rw [Function.comp_apply, Function.comp_apply, apply_ite EventRow.ofEvent]
  rfl

theorem exec_delete (es : List Event) (id : String) :
    (Statement.delete id).exec (es.map .ofEvent)
      = ((es.filter fun e => e.id = id).length, (es.filter fun e => e.id ≠ id).map .ofEvent) := by
  simp only [Statement.exec, List.filter_map, List.length_map]
  rfl

theorem exec_find (es : List Event) (id : String) :
    (Statement.find id).exec (es.map .ofEvent)
      = ((es.find? fun e => e.id = id).map .ofEvent, es.map .ofEvent) := by
  simp only [Statement.exec, List.find?_map]
  rfl

end Statements

section Calls

variable {k : StorageKind} {es : List Event}

theorem get_ofEvents (hes : ∀ e ∈ es, k.Fits e) (id : String) :
    (ofEvents k es).get id = (es.find? fun e => e.id = id).elim (.error (.notFound id)) .ok := by
  cases k with
  | memory =>
    simp only [ofEvents, EventStore.get, MemoryStore.get, get?_ofEvents]
    cases es.find? fun e => e.id = id <;> rfl
  | database =>
    simp only [ofEvents, EventStore.get, EventTable.run, EventTable.get, EventTable.ask,
      Script.run_bind, Script.run_query, exec_find]
    cases hf : es.find? fun e => e.id = id with
    | none => rfl
    | some e => exact EventRow.event_eq_ok_iff.2 ⟨rfl, hes e (List.mem_of_find?_eq_some hf)⟩

theorem create_ofEvents (hes : ∀ e ∈ es, k.Fits e) {id : String} (hid : id ∉ es.map (·.id))
    {e : Event} (he : k.Fits e.atStoragePrecision) :
    (ofEvents k es).create id e
      = match e.atStoragePrecision.flaw? with
        | some flaw => (.error (.invalid flaw), ofEvents k es)
        | none =>
          if ∃ o ∈ es, o.CollidesWith e.atStoragePrecision then (.error .busy, ofEvents k es)
          else (.ok { e.atStoragePrecision with id },
            ofEvents k (es ++ [{ e.atStoragePrecision with id }])) := by
  cases k with
  | memory =>
    simp only [ofEvents, EventStore.create, MemoryStore.create, events_ofEvents]
    cases e.atStoragePrecision.flaw? with
    | some flaw => rfl
    | none =>
      have hfree : ¬ (es.find? fun o => o.id = id).isSome := by
        rw [isSome_find?_id]
        rintro ⟨o, ho, rfl⟩
        exact hid (List.mem_map_of_mem ho)
      simp only [List.any_eq_true, decide_eq_true_eq, MemoryStore.insert, get?_ofEvents,
        if_neg hfree]
      split_ifs
      · rfl
      · simp
  | database =>
    simp only [ofEvents, EventStore.create, onTable, EventTable.run, EventTable.create]
    cases e.atStoragePrecision.flaw? with
    | some flaw => rfl
    | none =>
      simp only [EventTable.ask, Script.run_bind, Script.run_query, exec_hasSlot hes he,
        decide_eq_true_eq]
      split_ifs
      · rfl
      · simp only [Script.run_bind, Script.run_query, exec_insert]
        rfl

theorem update_ofEvents (hes : ∀ e ∈ es, k.Fits e) {e : Event} (he : k.Fits e.atStoragePrecision) :
    (ofEvents k es).update e
      = match e.atStoragePrecision.flaw? with
        | some flaw => (.error (.invalid flaw), ofEvents k es)
        | none =>
          if ¬ ∃ o ∈ es, o.id = e.id then (.error (.notFound e.id), ofEvents k es)
          else if ∃ o ∈ es, o.id ≠ e.id ∧ o.CollidesWith e.atStoragePrecision then
            (.error .busy, ofEvents k es)
          else (.ok (), ofEvents k (e.atStoragePrecision.putIn es)) := by
  rw [← Event.atStoragePrecision_id e]
  cases k with
  | memory =>
    simp only [ofEvents, EventStore.update, MemoryStore.update, events_ofEvents]
    generalize e.atStoragePrecision = a
    cases a.flaw? with
    | some flaw => rfl
    | none =>
      have hm : (es.find? fun o => o.id = a.id).isNone ↔ ¬ ∃ o ∈ es, o.id = a.id := by
        rw [← isSome_find?_id]
        simp
      simp only [get?_ofEvents, hm, List.any_eq_true, decide_eq_true_eq, MemoryStore.insert,
        isSome_find?_id, map_pair_putIn]
      split_ifs <;> rfl
  | database =>
    simp only [ofEvents, EventStore.update, onTable, EventTable.run, EventTable.update]
    generalize e.atStoragePrecision = a at he ⊢
    cases a.flaw? with
    | some flaw => rfl
    | none =>
      simp only [EventTable.ask, Script.run_bind, Script.run_query, exec_hasRow]
      by_cases h : ∃ o ∈ es, o.id = a.id
      · simp only [h, decide_true, Bool.not_true, Bool.false_eq_true, not_true_eq_false, if_false,
          Script.run_bind, Script.run_query, exec_hasSlotOfOther hes he, decide_eq_true_eq]
        split_ifs
        · rfl
        · simp only [Script.run_bind, Script.run_query, exec_replace]
          rfl
      · simp only [h, decide_false, Bool.not_false, not_false_eq_true, if_true]
        rfl

theorem delete_ofEvents (k : StorageKind) (es : List Event) (id : String) :
    (ofEvents k es).delete id
      = if ∃ e ∈ es, e.id = id then (.ok (), ofEvents k (es.filter fun e => e.id ≠ id))
        else (.error (.notFound id), ofEvents k es) := by
  cases k with
  | memory =>
    simp only [ofEvents, EventStore.delete, MemoryStore.delete, MemoryStore.erase, get?_ofEvents,
      isSome_find?_id, List.filter_map]
    split_ifs <;> rfl
  | database =>
    have hn : (es.filter fun e => e.id = id).length = 0 ↔ ¬ ∃ e ∈ es, e.id = id := by
      simp
    simp only [ofEvents, EventStore.delete, onTable, EventTable.run, EventTable.delete,
      EventTable.ask, Script.run_bind, Script.run_query, exec_delete, hn]
    by_cases h : ∃ e ∈ es, e.id = id
    · rw [if_pos h, if_neg (not_not.2 h)]
      rfl
    · have hf : es.filter (fun e => e.id ≠ id) = es :=
        List.filter_eq_self.2 fun e he => decide_eq_true fun hi => h ⟨e, he, hi⟩
      rw [if_neg h, if_pos h, hf]
      rfl

theorem list_ofEvents (hes : ∀ e ∈ es, k.Fits e) (start finish : Instant) :
    ∃ l, (ofEvents k es).list start finish = .ok l
      ∧ l.Perm (es.filter (k.InWindow start finish ·)) := by
  cases k with
  | memory =>
    refine ⟨_, rfl, ?_⟩
    simp only [MemoryStore.list, events_ofEvents, ← Bool.decide_and]
    exact List.Perm.refl _
  | database =>
    simp only [ofEvents, EventStore.list, EventTable.run, EventTable.list, EventTable.ask,
      Script.run_bind, Script.run_query, Statement.exec, List.filter_map]
    rw [← List.map_mergeSort
      (r := fun a b : Event => decide (a.startTime.micros ≤ b.startTime.micros))
      (fun _ _ _ _ => rfl)]
    refine ⟨_, mapM_event ?_, ?_⟩
    · intro e he
      rw [List.mem_mergeSort, List.mem_filter] at he
      exact hes e he.1
    · refine (List.mergeSort_perm _ _).trans ?_
      simp only [← Bool.decide_and]
      exact List.Perm.refl _

end Calls

end EventStore

end Datebook
