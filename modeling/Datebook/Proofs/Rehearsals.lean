import Datebook.Api.Gateway
import Datebook.Proofs.Archiving
import Datebook.Proofs.Bench
import Datebook.Proofs.Cadences
import Datebook.Proofs.Rows
import Datebook.Rehearsal.Archive
import Datebook.Rehearsal.Watch

/-!
# Rehearsals

What is rehearsed with faults that are planned is what is proved of faults of any kind. The desk
that the scheduler works at is a bench: its outbox is the producer, and its outages are conditions
that do not change during a tick (`Desk.conditions`). A deletion that fails is told by the title of
the event that the store has then, which no other deletion changes (`UnsureStore.keeps_delete`), so
the conditions can be read off the desk as it is at first (`Desk.tick_eq`). A watch keeps the
cadence of the scheduler's loop (`Watch.run_keepsCadence`), an archive that is disturbed is one
whose saves meet faults (`ArchiveStore.archivist_savesTo`), and a gateway over a store without
outages answers as one over the store itself (`Gateway.answer_sure`).
-/

namespace Datebook

/-- Two ways of answering that agree wherever their states are related run a program alike. -/
theorem Script.run_related {Q : Type} {A : Q → Type} {α σ τ : Type}
    {f : (q : Q) → σ → A q × σ} {g : (q : Q) → τ → A q × τ} {R : σ → τ → Prop}
    (h : ∀ q s t, R s t → (f q s).1 = (g q t).1 ∧ R (f q s).2 (g q t).2) (p : Script Q A α) :
    ∀ {s t}, R s t → (p.run f s).1 = (p.run g t).1 ∧ R (p.run f s).2 (p.run g t).2 := by
  induction p with
  | done a => exact fun hst => ⟨rfl, hst⟩
  | ask q next ih =>
    intro s t hst
    obtain ⟨ha, hr⟩ := h q s t hst
    unfold Script.run
    rw [ha]
    exact ih _ hr

namespace MemoryStore

theorem get?_erase (m : MemoryStore) (id i : String) :
    (m.erase id).get? i = if i = id then none else m.get? i := by
  obtain ⟨entries⟩ := m
  unfold erase get?
  induction entries with
  | nil => simp
  | cons entry entries ih =>
    obtain ⟨j, e⟩ := entry
    by_cases hj : j = id
    · rw [List.filter_cons_of_neg (by simpa using hj), ih, List.lookup_cons]
      split_ifs with hi
      · rfl
      · rw [beq_false_of_ne fun hij => hi (hij.trans hj)]
    · rw [List.filter_cons_of_pos (by simpa using hj), List.lookup_cons, List.lookup_cons, ih]
      by_cases hi : i = id
      · rw [beq_false_of_ne fun hij => hj (hij.symm.trans hi), if_pos hi]
      · rw [if_neg hi, if_neg hi]

theorem get?_delete (m : MemoryStore) (id i : String) :
    (m.delete id).2.get? i = if i = id then none else m.get? i := by
  unfold delete
  by_cases h : (m.get? id).isSome
  · rw [if_pos h, get?_erase]
  · rw [if_neg h]
    split_ifs with hi
    · rw [hi, Option.not_isSome_iff_eq_none.1 h]
    · rfl

end MemoryStore

namespace EventTable

theorem find?_filter_ne (t : EventTable) (id i : String) :
    ((t.filter fun r => r.id ≠ id).find? fun r => r.id = i)
      = if i = id then none else t.find? fun r => r.id = i := by
  rw [List.find?_filter]
  split_ifs with hi
  · simp [hi]
  · refine congrArg (t.find? ·) (funext fun r => ?_)
    by_cases hr : r.id = i
    · simp [hr, hi]
    · simp [hr]

end EventTable

/-- No deletion changes what the store has under another id. -/
theorem EventStore.get_delete (s : EventStore) (id i : String) :
    (s.delete id).2.get i = if i = id then .error (.notFound i) else s.get i := by
  cases s with
  | memory m =>
    simp only [delete, get, MemoryStore.get, MemoryStore.get?_delete]
    split_ifs <;> rfl
  | table t =>
    simp only [delete, onTable, get, EventTable.run_delete, EventTable.run_get,
      EventTable.find?_filter_ne]
    split_ifs <;> rfl

/-- A deletion leaves the same deletions failing. -/
theorem UnsureStore.keeps_delete (s : UnsureStore) (id i : String) :
    (s.delete id).2.keeps i = s.keeps i := by
  unfold delete
  split_ifs with h
  · rfl
  · have hid : s.keeps id = false := (Bool.or_eq_false_iff.1 (Bool.eq_false_iff.2 h)).2
    unfold keeps at hid ⊢
    simp only [EventStore.get_delete]
    split_ifs with hi
    · rw [hi, hid]
    · rfl

namespace Desk

/-- The conditions of a tick at the desk. -/
def conditions (ids : Nat → String) (d : Desk) : Conditions Outbox where
  newId := ids
  send n o := o.send n
  listFails n :=
    if d.store.outages.everything || d.store.outages.lists.contains (d.store.listed + n + 1) then
      some Outages.error
    else none
  deleteFails id :=
    if d.store.outages.everything || d.store.keeps id then some Outages.error else none

/-- The desk as a bench. -/
def bench (d : Desk) : Bench Outbox := ⟨d.store.store, d.outbox, [], d.given, 0⟩

/-- The desk once a tick has brought its bench to `b`. -/
def after (d : Desk) (b : Bench Outbox) : Desk :=
  ⟨⟨b.store, d.store.outages, d.store.listed + b.listed⟩, b.producer, b.given⟩

/-- A tick of the desk `d` has come to `d'` and that of its bench to `b`. -/
structure Follows (d d' : Desk) (b : Bench Outbox) : Prop where
  eq_after : d' = d.after b
  keeps : ∀ id, d'.store.keeps id = d.store.keeps id

variable (ids : Nat → String) (d : Desk)

theorem follows_bench : Follows d d d.bench := ⟨rfl, fun _ => rfl⟩

theorem Follows.answer {d d' : Desk} {b : Bench Outbox} (h : Follows d d' b) (r : Request) :
    (d'.answer ids r).1 = ((d.conditions ids).answer r b).1
      ∧ Follows d (d'.answer ids r).2 ((d.conditions ids).answer r b).2 := by
  obtain ⟨rfl, hk⟩ := h
  cases r with
  | list start finish =>
    cases hf : d.store.outages.everything
        || d.store.outages.lists.contains (d.store.listed + b.listed + 1) with
    | true =>
      simp only [Desk.answer, UnsureStore.list, Conditions.answer, conditions, after, hf, if_true]
      exact ⟨rfl, rfl, hk⟩
    | false =>
      simp only [Desk.answer, UnsureStore.list, Conditions.answer, conditions, after, hf,
        Bool.false_eq_true, if_false]
      exact ⟨rfl, rfl, hk⟩
  | newId => exact ⟨rfl, rfl, hk⟩
  | send n => exact ⟨rfl, rfl, hk⟩
  | delete id =>
    have hk' := fun i => ((d.after b).store.keeps_delete id i).trans (hk i)
    have hid := hk id
    simp only [after] at hid
    cases hf : d.store.outages.everything || d.store.keeps id with
    | true =>
      simp only [Desk.answer, UnsureStore.delete, Conditions.answer, conditions, after, hid, hf,
        if_true, true_and]
      exact ⟨rfl, hk⟩
    | false =>
      simp only [Desk.answer, UnsureStore.delete, Conditions.answer, conditions, after, hid, hf,
        Bool.false_eq_true, if_false, true_and] at hk' ⊢
      exact ⟨rfl, hk'⟩

/-- A tick at the desk is the tick of its bench. -/
theorem tick_eq (s : SchedulerSettings) (now : Instant) :
    d.tick ids s now
      = ((d.bench.tick (d.conditions ids) s now).1,
        d.after (d.bench.tick (d.conditions ids) s now).2) := by
  have hanswer := fun r d' b (h : Follows d d' b) => h.answer ids r
  obtain ⟨hreport, hd⟩ := Script.run_related hanswer (Datebook.tick s now) d.follows_bench
  exact Prod.ext hreport hd.eq_after

end Desk

namespace Watch

variable {ids : Nat → String} {settings : SchedulerSettings} {wall : Nat → Instant}

theorem le_answer (r : Request) (p : Nat × Watch) : p.1 ≤ (answer ids r p).2.1 := by
  cases r with
  | list start finish => exact Nat.le_add_right ..
  | newId => exact Nat.le_refl _
  | send n => exact Nat.le_refl _
  | delete id => exact Nat.le_refl _

/-- A watch keeps the cadence too, in milliseconds and also if a tick's own lists cancel it. -/
theorem run_keepsCadence (w : Watch) :
    ∃ l, (periodicTicks 1 settings wall (answer ids) cancelledAt).KeepsCadence w l
      ∧ run ids settings wall w
        = ((periodicTicks 1 settings wall (answer ids) cancelledAt).stopTime l.progress,
          l.state) := by
  refine ⟨_, Periodic.loop_keepsCadence (isForward_periodicTicks le_answer) w w.enoughTicks, ?_⟩
  unfold run
  simp only [Periodic.run_eq_progress]
  rfl

end Watch

/-- A save that is planned to fail meets a fault, and every other one adds its notification. -/
theorem ArchiveStore.archivist_savesTo : Archiving.SavesTo archivist store := by
  intro n s
  by_cases h : s.failsFor.any fun start => start.toList.isPrefixOf n.id.toList
  · exact ⟨some (.io "disk full"), by simp [archivist, save, h, Attempt.outcome]⟩
  · exact ⟨none, by simp [archivist, save, h, Attempt.outcome]⟩

namespace Api.Gateway

/-- The gateway over its store without outages, of which so many lists were asked. -/
def sure (listed : Nat) (g : Gateway EventStore) : Gateway UnsureStore :=
  ⟨⟨g.store, .none, listed⟩, g.given⟩

/-- A gateway without outages gives the result of one over the store itself. -/
def IsAlike {α : Type} (x : α × Gateway UnsureStore) (y : α × Gateway EventStore) : Prop :=
  ∃ listed, x = (y.1, y.2.sure listed)

variable {ids : Nat → String} {now : Instant} {r : HttpRequest} {g : Gateway EventStore}
variable {id : String} {listed : Nat}

theorem IsAlike.respond {α : Type} {x : Except ApiError α × Gateway UnsureStore}
    {y : Except ApiError α × Gateway EventStore} (h : IsAlike x y) (f : α → HttpResponse) :
    IsAlike (respond f x) (respond f y) := by
  obtain ⟨n, rfl⟩ := h
  obtain ⟨err | a, g⟩ := y
  · exact ⟨n, rfl⟩
  · exact ⟨n, rfl⟩

theorem create_isAlike : IsAlike (create ids now r (g.sure listed)) (create ids now r g) := by
  unfold create
  rcases readBody r with err | b
  · exact ⟨listed, rfl⟩
  simp only []
  split_ifs
  · exact ⟨listed, rfl⟩
  rcases b.event "" with fault | e
  · exact ⟨listed, rfl⟩
  have hsure : EventCalls.create (g.sure listed).store (ids (g.sure listed).given) e
      = ((g.store.create (ids g.given) e).1,
        ⟨(g.store.create (ids g.given) e).2, .none, listed⟩) := rfl
  have hstore : EventCalls.create g.store (ids g.given) e = g.store.create (ids g.given) e := rfl
  simp only [hsure, hstore]
  rcases g.store.create (ids g.given) e with ⟨err | a, store⟩
  · exact ⟨listed, rfl⟩
  · exact ⟨listed, rfl⟩

theorem replace_isAlike : IsAlike (replace id r (g.sure listed)) (replace id r g) := by
  unfold replace
  rcases readBody r with err | b
  · exact ⟨listed, rfl⟩
  simp only []
  rcases b.event id with fault | e
  · exact ⟨listed, rfl⟩
  · exact ⟨listed, rfl⟩

theorem list_isAlike : IsAlike (list now r (g.sure listed)) (list now r g) := by
  unfold list
  rcases Bounds.ofQuery? r.target.query with _ | bounds
  · exact ⟨listed, rfl⟩
  simp only []
  split_ifs
  · exact ⟨listed, rfl⟩
  · exact ⟨listed + 1, rfl⟩

theorem delete_isAlike : IsAlike (delete id (g.sure listed)) (delete id g) := by
  have hkeeps : (g.sure listed).store.keeps id = false := by
    unfold UnsureStore.keeps
    split <;> rfl
  have hsure : EventCalls.delete (g.sure listed).store id
      = ((g.store.delete id).1, ⟨(g.store.delete id).2, .none, listed⟩) := by
    show (g.sure listed).store.delete id = _
    rw [UnsureStore.delete, hkeeps]
    rfl
  unfold delete
  rw [hsure]
  exact ⟨listed, rfl⟩

theorem onEvent_isAlike : IsAlike (onEvent id r (g.sure listed)) (onEvent id r g) := by
  have hget : IsAlike ((g.sure listed).get id, g.sure listed) (g.get id, g) := ⟨listed, rfl⟩
  unfold onEvent
  cases r.method with
  | get | head => exact hget.respond _
  | put => exact replace_isAlike.respond _
  | delete => exact delete_isAlike.respond _
  | post | other => exact ⟨listed, rfl⟩

theorem onEvents_isAlike : IsAlike (onEvents ids now r (g.sure listed)) (onEvents ids now r g) := by
  unfold onEvents
  cases r.method with
  | get | head => exact list_isAlike.respond _
  | post => exact create_isAlike.respond _
  | put | delete | other => exact ⟨listed, rfl⟩

/-- Every request is answered alike. -/
theorem answer_sure : IsAlike (answer ids now r (g.sure listed)) (answer ids now r g) := by
  have hroute : IsAlike (route ids now r (g.sure listed)) (route ids now r g) := by
    unfold route
    rcases Route.ofPath? r.target.path with _ | _ | _ | part
    · exact ⟨listed, rfl⟩
    · exact ⟨listed, rfl⟩
    · exact onEvents_isAlike
    · rcases h : part.percentDecode.text? with _ | id
      · simp only [h]
        exact ⟨listed, rfl⟩
      · simp only [h]
        exact onEvent_isAlike
  obtain ⟨n, h⟩ := hroute
  unfold answer
  rw [h]
  exact ⟨n, rfl⟩

end Api.Gateway

end Datebook
