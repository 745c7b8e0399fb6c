import Datebook.Proofs.Calls
import Datebook.Proofs.Rows

/-!
# Unique ids

The least that every store keeps to: nothing is kept twice under one id, and an event only under its
own (`IsKeyed`). Nothing is asked of the events themselves, which may be in leap seconds or beyond
what a table can read back. A list never has an id twice, and has only what is kept
(`mem_entries_of_list`). `create_cases`, `update_cases` and `entries_delete` say what a call does to
the entries, which is nothing to what is kept under another id (`mem_entries_call`). What is kept of
a new event is its `copy`, which is the event itself if storage of the kind can keep it.
-/

namespace Datebook

namespace EventRow

/-- Rows that are all read are the rows of what was read. -/
theorem eq_map_of_mapM_event : ∀ {t : List EventRow} {es : List Event},
    t.mapM event = .ok es → t = es.map ofEvent ∧ ∀ e ∈ es, (ofEvent e).event = .ok e
  | [], es, h => by
    cases h
    simp
  | r :: t, es, h => by
    rw [List.mapM_cons, bind_eq_ok_iff] at h
    obtain ⟨e, he, h⟩ := h
    rw [bind_eq_ok_iff] at h
    obtain ⟨es', hes, h⟩ := h
    cases h
    obtain ⟨rfl, -⟩ := event_eq_ok_iff.1 he
    obtain ⟨rfl, hall⟩ := eq_map_of_mapM_event hes
    exact ⟨rfl, List.forall_mem_cons.2 ⟨he, hall⟩⟩

end EventRow

namespace StorageKind

/-- What storage of this kind gives back of an event. -/
def copy : StorageKind → Event → Except StoreError Event
  | .memory, e => .ok e
  | .database, e => (EventRow.ofEvent e).event

theorem copy_eq_self_iff {k : StorageKind} {e : Event} : k.copy e = .ok e ↔ k.Fits e := by
  cases k <;> simp [copy, Fits, EventRow.event_eq_ok_iff]

theorem id_eq_of_copy {k : StorageKind} {e a : Event} (h : k.copy e = .ok a) : a.id = e.id := by
  cases k with
  | memory =>
    cases h
    rfl
  | database => exact (congrArg EventRow.id (EventRow.event_eq_ok_iff.1 h).1).symm

end StorageKind

/-- The id under which a call creates, changes or removes something. -/
def Call.target? : Call → Option String
  | .create id _ => some id.text
  | .update e => some e.id
  | .delete id => some id
  | .get _ | .list _ _ => none

/-- The id for a new event. -/
def Call.newId? : Call → Option String
  | .create id _ => some id.text
  | _ => none

/-- The ids that calls bring. -/
def newIds (cs : List Call) : List String := cs.filterMap Call.newId?

namespace EventStore

section Entries

variable {m : MemoryStore} {t : EventTable} {i : String} {r : Except StoreError Event}

@[simp] theorem ids_memory : (memory m).ids = m.entries.map (·.1) := by
  simp [ids, entries, Function.comp_def]

@[simp] theorem ids_table : (table t).ids = t.map (·.id) := by
  simp [ids, entries, Function.comp_def]

theorem mem_entries_memory : (i, r) ∈ (memory m).entries ↔ ∃ e, (i, e) ∈ m.entries ∧ .ok e = r := by
  simp [entries]

theorem mem_entries_table : (i, r) ∈ (table t).entries ↔ ∃ row ∈ t, row.id = i ∧ row.event = r := by
  simp [entries]

end Entries

/-- Nothing is kept twice under one id, and an event only under its own. -/
structure IsKeyed (s : EventStore) : Prop where
  ids_nodup : s.ids.Nodup
  id_eq : ∀ i e, (i, .ok e) ∈ s.entries → e.id = i

variable {s : EventStore}

theorem IsKeyed.of_sublist {s' : EventStore} (h : s.IsKeyed)
    (hs : s'.entries.Sublist s.entries) : s'.IsKeyed :=
  ⟨h.ids_nodup.sublist (hs.map _), fun i e he => h.id_eq i e (hs.subset he)⟩

theorem IsKeyed.eq_of_mem (h : s.IsKeyed) {i : String} {r r' : Except StoreError Event}
    (hr : (i, r) ∈ s.entries) (hr' : (i, r') ∈ s.entries) : r = r' :=
  congrArg Prod.snd (List.inj_on_of_nodup_map h.ids_nodup hr hr' rfl)

theorem Holds.isKeyed {es : List Event} (h : s.Holds es) (hn : (es.map (·.id)).Nodup) :
    s.IsKeyed := by
  constructor
  · unfold ids
    rw [h, List.map_map]
    exact hn
  · intro i e he
    rw [h, List.mem_map] at he
    obtain ⟨a, -, ha⟩ := he
    cases ha
    rfl

/-- What is read from a table was kept as it was. -/
theorem fits_of_mem_entries {i : String} {e : Event} (h : (i, .ok e) ∈ s.entries) :
    s.kind.Fits e := by
  cases s with
  | memory m => trivial
  | table t =>
    obtain ⟨row, -, -, hread⟩ := mem_entries_table.1 h
    exact (EventRow.event_eq_ok_iff.1 hread).2

theorem isKeyed_empty (k : StorageKind) : (empty k).IsKeyed := by
  constructor <;> cases k <;> simp [ids, entries, empty, MemoryStore.empty]

section Reading

variable {start finish : Instant} {l : List Event}

theorem get_of_mem_entries (h : s.IsKeyed) {i : String} {r : Except StoreError Event}
    (hr : (i, r) ∈ s.entries) : s.get i = r := by
  have hn := h.ids_nodup
  rcases s with m | t
  · obtain ⟨a, ha, rfl⟩ := mem_entries_memory.1 hr
    rw [ids_memory] at hn
    have hl : m.entries.lookup i = some a := by
      obtain ⟨front, back, hm⟩ := List.append_of_mem ha
      refine List.lookup_eq_some_iff.2 ⟨front, back, hm, fun q hq => bne_iff_ne.2 ?_⟩
      rw [hm, List.map_append, List.nodup_append] at hn
      exact (hn.2.2 _ (List.mem_map_of_mem hq) _ (by simp)).symm
    simp only [get, MemoryStore.get, MemoryStore.get?, hl]
  · obtain ⟨row, hrow, rfl, hread⟩ := mem_entries_table.1 hr
    rw [ids_table] at hn
    have hf : (t.find? fun o => o.id = row.id) = some row := by
      obtain ⟨o, ho⟩ : ∃ o, (t.find? fun o => o.id = row.id) = some o :=
        Option.isSome_iff_exists.1 (List.find?_isSome.2 ⟨row, hrow, by simp⟩)
      have hid : o.id = row.id := by simpa using List.find?_some ho
      rw [ho, List.inj_on_of_nodup_map hn (List.mem_of_find?_eq_some ho) hrow hid]
    rw [get, EventTable.run_get, hf]
    exact hread

/-- A list has only what is kept and starts in the window, and nothing twice. -/
theorem mem_entries_of_list (h : s.IsKeyed) (hl : s.list start finish = .ok l) :
    (l.map (·.id)).Nodup
      ∧ ∀ e ∈ l, (e.id, .ok e) ∈ s.entries ∧ s.kind.InWindow start finish e := by
  have hn := h.ids_nodup
  rcases s with m | t
  · cases hl
    rw [ids_memory] at hn
    have hkey : ∀ p ∈ m.entries, p.2.id = p.1 := fun p hp =>
      h.id_eq p.1 p.2 (mem_entries_memory.2 ⟨p.2, hp, rfl⟩)
    have hids : m.events.map (·.id) = m.entries.map (·.1) := by
      unfold MemoryStore.events
      rw [List.map_map]
      exact List.map_congr_left hkey
    refine ⟨(hids ▸ hn).sublist (List.filter_sublist.map _), fun e he => ?_⟩
    unfold MemoryStore.list at he
    rw [List.mem_filter, Bool.and_eq_true, decide_eq_true_eq, decide_eq_true_eq] at he
    obtain ⟨he, hw⟩ := he
    obtain ⟨p, hp, rfl⟩ := List.mem_map.1 he
    exact ⟨mem_entries_memory.2 ⟨p.2, hkey p hp ▸ hp, rfl⟩, hw⟩
  · rw [ids_table] at hn
    simp only [list, EventTable.run, EventTable.list, EventTable.ask, Script.run_bind,
      Script.run_query, Script.run_pure, Statement.exec] at hl
    obtain ⟨hrows, hread⟩ := EventRow.eq_map_of_mapM_event hl
    have hperm := List.mergeSort_perm (t.filter fun r => decide (start.micros ≤ r.start)
      && decide (r.start ≤ finish.micros)) fun a b => decide (a.start ≤ b.start)
    rw [hrows] at hperm
    constructor
    · have hids : (l.map EventRow.ofEvent).map (·.id) = l.map (·.id) := by
        rw [List.map_map]
        rfl
      rw [← hids, (hperm.map _).nodup_iff]
      exact hn.sublist (List.filter_sublist.map _)
    · intro e he
      have hmem := hperm.mem_iff.1 (List.mem_map_of_mem he)
      rw [List.mem_filter, Bool.and_eq_true, decide_eq_true_eq, decide_eq_true_eq] at hmem
      exact ⟨mem_entries_table.2 ⟨_, hmem.1, rfl, hread e he⟩, hmem.2⟩

end Reading

section Calls

theorem mem_ids_of_get? {m : MemoryStore} {id : String} (h : (m.get? id).isSome) :
    id ∈ (memory m).ids := by
  unfold MemoryStore.get? at h
  rw [List.lookup_isSome_iff] at h
  obtain ⟨p, hp, hpid⟩ := h
  exact ids_memory ▸ List.mem_map.2 ⟨p, hp, (beq_iff_eq.1 hpid).symm⟩

theorem mem_ids_of_has {t : EventTable} {id : String} (h : t.Has id) : id ∈ (table t).ids :=
  ids_table ▸ List.mem_map.2 h

theorem entries_delete (s : EventStore) (id : String) :
    (s.delete id).2.entries = s.entries.filter fun p => p.1 ≠ id := by
  rcases s with m | t
  · simp only [delete, MemoryStore.delete]
    by_cases h : (m.get? id).isSome
    · rw [if_pos h]
      simp only [entries, MemoryStore.erase, List.filter_map]
      rfl
    · rw [if_neg h]
      symm
      rw [List.filter_eq_self]
      rintro ⟨i, r⟩ hp
      obtain ⟨e, he, rfl⟩ := mem_entries_memory.1 hp
      refine decide_eq_true fun hid => h ?_
      unfold MemoryStore.get?
      rw [List.lookup_isSome_iff]
      exact ⟨_, he, beq_iff_eq.2 hid.symm⟩
  · simp only [delete, onTable, EventTable.run_delete, entries, List.filter_map]
    rfl

/-- A call that creates fails and changes nothing, or adds the copy of the event that it answers. -/
theorem create_cases {id : String} (hid : id ∉ s.ids) (e : Event) :
    (∃ err, s.create id e = (.error err, s))
      ∨ (s.create id e).1 = .ok { e.atStoragePrecision with id }
        ∧ (s.create id e).2.entries
          = s.entries ++ [(id, s.kind.copy { e.atStoragePrecision with id })] := by
  rcases s with m | t
  · simp only [create, MemoryStore.create]
    rcases e.atStoragePrecision.flaw? with _ | flaw
    · by_cases hb : m.events.any fun other => decide (other.CollidesWith e.atStoragePrecision)
      · exact Or.inl ⟨.busy, by simp only [if_pos hb]⟩
      · have hfree : ¬ (m.get? id).isSome := fun h => hid (mem_ids_of_get? h)
        right
        simp only [if_neg hb, MemoryStore.insert, if_neg hfree, entries, List.map_append]
        exact ⟨trivial, rfl⟩
    · exact Or.inl ⟨.invalid flaw, rfl⟩
  · simp only [create, onTable, EventTable.run_create]
    rcases e.atStoragePrecision.flaw? with _ | flaw
    · by_cases hb : t.Taken e.atStoragePrecision
      · exact Or.inl ⟨.busy, by simp only [if_pos hb]⟩
      · right
        simp only [if_neg hb, entries, List.map_append]
        exact ⟨trivial, rfl⟩
    · exact Or.inl ⟨.invalid flaw, rfl⟩

/-- A call that updates fails and changes nothing, or puts the copy of its event in the place of
what is kept under the id. -/
theorem update_cases (s : EventStore) (e : Event) :
    (∃ err, s.update e = (.error err, s))
      ∨ (s.update e).1 = .ok () ∧ e.id ∈ s.ids
        ∧ (s.update e).2.entries = s.entries.map fun p =>
          if p.1 = e.id then (e.id, s.kind.copy e.atStoragePrecision) else p := by
  rcases s with m | t
  · have hid : e.atStoragePrecision.id = e.id := rfl
    simp only [update, MemoryStore.update, hid]
    rcases e.atStoragePrecision.flaw? with _ | flaw
    · by_cases hm : (m.get? e.id).isNone
      · exact Or.inl ⟨.notFound e.id, by simp only [if_pos hm]⟩
      · by_cases hb : m.events.any fun other =>
            decide (other.id ≠ e.id ∧ other.CollidesWith e.atStoragePrecision)
        · exact Or.inl ⟨.busy, by simp only [if_neg hm, if_pos hb]⟩
        · have hsome : (m.get? e.id).isSome := by
            simpa [Option.isSome_iff_ne_none, Option.isNone_iff_eq_none] using hm
          refine Or.inr ⟨?_, mem_ids_of_get? hsome, ?_⟩
          · simp only [if_neg hm, if_neg hb]
          · simp only [if_neg hm, if_neg hb, MemoryStore.insert, if_pos hsome, entries,
              List.map_map]
            refine List.map_congr_left fun p _ => ?_
            simp only [Function.comp_apply]
            split_ifs <;> rfl
    · exact Or.inl ⟨.invalid flaw, rfl⟩
  · simp only [update, onTable, EventTable.run_update]
    rcases e.atStoragePrecision.flaw? with _ | flaw
    · by_cases hm : t.Has e.id
      · simp only [hm, not_true_eq_false, if_false]
        by_cases hb : t.TakenByOther e.atStoragePrecision
        · exact Or.inl ⟨.busy, by simp only [if_pos hb]⟩
        · simp only [if_neg hb]
          have hid : (EventRow.ofEvent e.atStoragePrecision).id = e.id := rfl
          refine Or.inr ⟨trivial, mem_ids_of_has hm, ?_⟩
          simp only [entries, EventTable.putIn, List.map_map, hid]
          refine List.map_congr_left fun row _ => ?_
          simp only [Function.comp_apply]
          split_ifs <;> rfl
      · simp only [hm, not_false_eq_true, if_true]
        exact Or.inl ⟨.notFound e.id, rfl⟩
    · exact Or.inl ⟨.invalid flaw, rfl⟩

theorem delete_isKeyed (h : s.IsKeyed) (id : String) : (s.delete id).2.IsKeyed :=
  h.of_sublist (entries_delete s id ▸ List.filter_sublist)

theorem create_isKeyed (h : s.IsKeyed) {id : String} (hid : id ∉ s.ids) (e : Event) :
    (s.create id e).2.IsKeyed := by
  obtain ⟨err, hs⟩ | ⟨-, hs⟩ := create_cases hid e
  · rwa [hs]
  · constructor
    · unfold ids at hid ⊢
      rw [hs, List.map_append, List.nodup_append]
      refine ⟨h.ids_nodup, by simp, fun i hi j hj => ?_⟩
      rw [List.map_singleton, List.mem_singleton] at hj
      intro hij
      rw [hij, hj] at hi
      exact hid hi
    · intro i a' ha'
      rw [hs, List.mem_append, List.mem_singleton, Prod.mk.injEq] at ha'
      rcases ha' with ha' | ⟨rfl, ha'⟩
      · exact h.id_eq i a' ha'
      · exact StorageKind.id_eq_of_copy ha'.symm

theorem ids_update (s : EventStore) (e : Event) : (s.update e).2.ids = s.ids := by
  obtain ⟨err, hs⟩ | ⟨-, -, hs⟩ := update_cases s e
  · rw [hs]
  · unfold ids
    rw [hs, List.map_map]
    refine List.map_congr_left fun p _ => ?_
    rw [Function.comp_apply]
    split_ifs with hp
    · exact hp.symm
    · rfl

theorem update_isKeyed (h : s.IsKeyed) (e : Event) : (s.update e).2.IsKeyed := by
  refine ⟨ids_update s e ▸ h.ids_nodup, fun i a' ha' => ?_⟩
  obtain ⟨err, hs⟩ | ⟨-, -, hs⟩ := update_cases s e
  · rw [hs] at ha'
    exact h.id_eq i a' ha'
  · rw [hs, List.mem_map] at ha'
    obtain ⟨p, hp, hpi⟩ := ha'
    split_ifs at hpi with hpe
    · obtain ⟨rfl, hcopy⟩ := Prod.mk.inj hpi
      exact (StorageKind.id_eq_of_copy hcopy).trans e.atStoragePrecision_id
    · exact h.id_eq i a' (hpi ▸ hp)

@[simp] theorem kind_call (s : EventStore) (c : Call) : (s.call c).2.kind = s.kind := by
  cases s <;> cases c <;> rfl

theorem mem_ids {i : String} : i ∈ s.ids ↔ ∃ r, (i, r) ∈ s.entries := by
  unfold ids
  rw [List.mem_map]
  constructor
  · rintro ⟨⟨i, r⟩, hr, rfl⟩
    exact ⟨r, hr⟩
  · rintro ⟨r, hr⟩
    exact ⟨_, hr, rfl⟩

theorem mem_ids_of_delete {id : String} (h : (s.delete id).1 = .ok ()) : id ∈ s.ids := by
  rcases s with m | t
  · simp only [delete, MemoryStore.delete] at h
    split_ifs at h with hm
    exact mem_ids_of_get? hm
  · simp only [delete, onTable, EventTable.run_delete] at h
    split_ifs at h with ht
    exact mem_ids_of_has ht

section Others

variable {id i : String} {r : Except StoreError Event}

theorem mem_entries_create (hid : id ∉ s.ids) (hi : i ≠ id) (e : Event) :
    (i, r) ∈ (s.create id e).2.entries ↔ (i, r) ∈ s.entries := by
  obtain ⟨err, hs⟩ | ⟨-, hs⟩ := create_cases hid e
  · rw [hs]
  · rw [hs, List.mem_append, List.mem_singleton, Prod.mk.injEq, or_iff_left fun h => hi h.1]

theorem mem_entries_update {e : Event} (hi : i ≠ e.id) :
    (i, r) ∈ (s.update e).2.entries ↔ (i, r) ∈ s.entries := by
  obtain ⟨err, hs⟩ | ⟨-, -, hs⟩ := update_cases s e
  · rw [hs]
  · rw [hs, List.mem_map]
    constructor
    · rintro ⟨p, hp, hpi⟩
      split_ifs at hpi
      · exact absurd (congrArg Prod.fst hpi).symm hi
      · exact hpi ▸ hp
    · exact fun hr => ⟨_, hr, if_neg hi⟩

theorem mem_entries_delete (hi : i ≠ id) :
    (i, r) ∈ (s.delete id).2.entries ↔ (i, r) ∈ s.entries := by
  rw [entries_delete, List.mem_filter, decide_eq_true_eq, and_iff_left hi]

/-- A call leaves alone what is kept under other ids than its own. -/
theorem mem_entries_call {c : Call} (hnew : s.IsNewIn c) (hi : c.target? ≠ some i) :
    (i, r) ∈ (s.call c).2.entries ↔ (i, r) ∈ s.entries := by
  cases c with
  | create id e => exact mem_entries_create hnew (fun h => hi (congrArg some h.symm)) e
  | update e => exact mem_entries_update fun h => hi (congrArg some h.symm)
  | delete id => exact mem_entries_delete fun h => hi (congrArg some h.symm)
  | get id => rfl
  | list start finish => rfl

end Others

theorem mem_ids_create {id i : String} (hid : id ∉ s.ids) {e : Event}
    (hi : i ∈ (s.create id e).2.ids) : i ∈ s.ids ∨ i = id := by
  obtain ⟨r, hr⟩ := mem_ids.1 hi
  rw [or_iff_not_imp_right]
  intro hne
  exact mem_ids.2 ⟨r, (mem_entries_create hid hne e).1 hr⟩

theorem mem_ids_delete {id i : String} (hi : i ∈ (s.delete id).2.ids) : i ∈ s.ids := by
  obtain ⟨r, hr⟩ := mem_ids.1 hi
  rw [entries_delete] at hr
  exact mem_ids.2 ⟨r, (List.mem_filter.1 hr).1⟩

/-- No id comes in but the one that a call brings. -/
theorem mem_ids_call {c : Call} (hnew : s.IsNewIn c) {i : String} (hi : i ∈ (s.call c).2.ids) :
    i ∈ s.ids ∨ c.newId? = some i := by
  cases c with
  | create id e => exact (mem_ids_create hnew hi).imp_right fun h => congrArg some h.symm
  | update e => exact Or.inl (ids_update s e ▸ hi)
  | delete id => exact Or.inl (mem_ids_delete hi)
  | get id => exact Or.inl hi
  | list start finish => exact Or.inl hi

theorem call_isKeyed (h : s.IsKeyed) {c : Call} (hnew : s.IsNewIn c) : (s.call c).2.IsKeyed := by
  cases c with
  | create id e => exact create_isKeyed h hnew e
  | update e => exact update_isKeyed h e
  | delete id => exact delete_isKeyed h id
  | get id => exact h
  | list start finish => exact h

end Calls

end EventStore

end Datebook
