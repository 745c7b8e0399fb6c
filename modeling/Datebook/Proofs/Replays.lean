import Datebook.Proofs.Keys

/-!
# Calls over again

What calls are answered, one after another, and the rows that they leave (`Replays`). No call puts a
row into the slot of another one (`IsTidy.run`), and a row stays until it is deleted (`Has.run`).
-/

namespace Datebook

deriving instance DecidableEq for Reply

/-- A call that a handle has made, and its reply. -/
structure Answered (ι : Type) where
  handle : ι
  call : Call
  reply : Reply

/-- A call, statement by statement. -/
def Call.client : Call → EventTable.Client Reply
  | .create id e => .event <$> EventTable.create id.text e
  | .update e => .done <$> EventTable.update e
  | .delete id => .done <$> EventTable.delete id
  | .get id => .event <$> EventTable.get id
  | .list start finish => .events <$> EventTable.list start finish

def EventRow.slot (r : EventRow) : String × Int := (r.userId, r.start)

namespace EventTable

variable {ι : Type}

/-- Made one after another, the calls are answered so, and leave the rows so. -/
def Replays (t : EventTable) (o : List (Answered ι)) (t' : EventTable) : Prop :=
  (EventStore.table t).calls (o.map (·.call)) = (o.map (·.reply), .table t')

instance (t : EventTable) (o : List (Answered ι)) (t' : EventTable) : Decidable (Replays t o t') :=
  inferInstanceAs (Decidable (_ = _))

theorem run_map {α β : Type} (t : EventTable) (f : α → β) (p : Client α) :
    t.run (f <$> p) = (f (t.run p).1, (t.run p).2) := Script.run_map Statement.exec p f t

theorem call_table (t : EventTable) (c : Call) :
    (EventStore.table t).call c = ((t.run c.client).1, .table (t.run c.client).2) := by
  cases c with
  | get id => rw [Call.client, run_map, run_get_snd, EventStore.call, EventStore.get]
  | _ => rw [Call.client, run_map]; rfl

section Replays

variable {s t t' : EventTable} {o o' : List (Answered ι)} {x : Answered ι}

theorem replays_nil : Replays t ([] : List (Answered ι)) t' ↔ t = t' := by
  simp [Replays, EventStore.calls]

theorem replays_cons :
    Replays t (x :: o) t' ↔ ∃ s, t.run x.call.client = (x.reply, s) ∧ Replays s o t' := by
  simp only [Replays, EventStore.calls, List.map_cons, call_table, Prod.mk.injEq, List.cons.injEq]
  constructor
  · rintro ⟨⟨hr, hrs⟩, ht⟩
    exact ⟨_, Prod.ext hr rfl, Prod.ext hrs ht⟩
  · rintro ⟨s, hs, ho⟩
    rw [hs]
    exact ⟨⟨rfl, congrArg Prod.fst ho⟩, congrArg Prod.snd ho⟩

theorem replays_append :
    Replays t (o ++ o') t' ↔ ∃ s, Replays t o s ∧ Replays s o' t' := by
  induction o generalizing t with
  | nil => simp [replays_nil]
  | cons x o ih =>
    simp only [List.cons_append, replays_cons, ih]
    constructor
    · rintro ⟨s, hx, s', ho, ho'⟩
      exact ⟨s', ⟨s, hx, ho⟩, ho'⟩
    · rintro ⟨s', ⟨s, hx, ho⟩, ho'⟩
      exact ⟨s, hx, s', ho, ho'⟩

theorem replays_singleton : Replays t [x] t' ↔ t.run x.call.client = (x.reply, t') := by
  simp [replays_cons, replays_nil]

end Replays

/-- No two rows have one id, and no two are in one slot. -/
structure IsTidy (t : EventTable) : Prop where
  ids_nodup : (t.map (·.id)).Nodup
  slots_nodup : (t.map EventRow.slot).Nodup

instance (t : EventTable) : Decidable t.IsTidy :=
  decidable_of_iff (_ ∧ _) ⟨fun h => ⟨h.1, h.2⟩, fun h => ⟨h.ids_nodup, h.slots_nodup⟩⟩

section Tidy

variable {s t : EventTable} {e : Event}

theorem IsTidy.sublist (h : t.IsTidy) (hs : s.Sublist t) : s.IsTidy :=
  ⟨h.ids_nodup.sublist (hs.map _), h.slots_nodup.sublist (hs.map _)⟩

theorem IsTidy.append (h : t.IsTidy) (hid : ¬ t.Has e.id) (hfree : ¬ t.Taken e) :
    IsTidy (t ++ [.ofEvent e]) := by
  constructor
  · rw [List.map_append, List.nodup_append]
    refine ⟨h.ids_nodup, by simp, fun i hi j hj hij => hid ?_⟩
    obtain ⟨r, hr, rfl⟩ := List.mem_map.1 hi
    exact ⟨r, hr, hij.trans (List.mem_singleton.1 hj)⟩
  · rw [List.map_append, List.nodup_append]
    refine ⟨h.slots_nodup, by simp, fun i hi j hj hij => hfree ?_⟩
    obtain ⟨r, hr, rfl⟩ := List.mem_map.1 hi
    obtain ⟨huser, hstart⟩ := Prod.ext_iff.1 (hij.trans (List.mem_singleton.1 hj))
    exact ⟨r, hr, huser, hstart⟩

theorem IsTidy.putIn (h : t.IsTidy) (hfree : ¬ t.TakenByOther e) :
    IsTidy (putIn (.ofEvent e) t) := by
  refine ⟨map_id_putIn (.ofEvent e) t ▸ h.ids_nodup, ?_⟩
  have hids := List.pairwise_map.1 h.ids_nodup
  have hslots := List.pairwise_map.1 h.slots_nodup
  unfold EventTable.putIn
  rw [List.map_map]
  refine List.pairwise_map.2 ((hids.and hslots).imp_of_mem ?_)
  intro a b ha hb hab
  simp only [Function.comp_apply]
  have hother : ∀ r ∈ t, r.id ≠ (EventRow.ofEvent e).id → r.slot ≠ (EventRow.ofEvent e).slot :=
    fun r hr hne hslot => hfree ⟨r, hr, hne, Prod.ext_iff.1 hslot⟩
  by_cases hae : a.id = (EventRow.ofEvent e).id
  · have hbe : b.id ≠ (EventRow.ofEvent e).id := fun hbe => hab.1 (hae.trans hbe.symm)
    rw [if_pos hae, if_neg hbe]
    exact (hother b hb hbe).symm
  · rw [if_neg hae]
    split_ifs
    · exact hother a ha hae
    · exact hab.2

theorem IsTidy.run (h : t.IsTidy) {c : Call} (hnew : ∀ id, c.newId? = some id → ¬ t.Has id) :
    (t.run c.client).2.IsTidy := by
  cases c with
  | create id e =>
    rw [Call.client, run_map, run_create]
    rcases e.atStoragePrecision.flaw? with _ | flaw
    · by_cases htaken : t.Taken e.atStoragePrecision
      · simp only [if_pos htaken]
        exact h
      · simp only [if_neg htaken]
        exact h.append (e := { e.atStoragePrecision with id := id.text }) (hnew id.text rfl) htaken
    · exact h
  | update e =>
    rw [Call.client, run_map, run_update]
    rcases e.atStoragePrecision.flaw? with _ | flaw
    · by_cases hhas : t.Has e.id
      · by_cases htaken : t.TakenByOther e.atStoragePrecision
        · simp only [hhas, not_true_eq_false, if_false, if_pos htaken]
          exact h
        · simp only [hhas, not_true_eq_false, if_false, if_neg htaken]
          exact h.putIn htaken
      · simp only [hhas, not_false_eq_true, if_true]
        exact h
    · exact h
  | delete id =>
    rw [Call.client, run_map, run_delete]
    exact h.sublist List.filter_sublist
  | get id =>
    rw [Call.client, run_map, run_get_snd]
    exact h
  | list start finish =>
    rw [Call.client, run_map]
    exact h

theorem Has.run {id : String} (h : t.Has id) {c : Call} (hc : ∀ id', c ≠ .delete id') :
    (t.run c.client).2.Has id := by
  cases c with
  | create id' e =>
    rw [Call.client, run_map, run_create]
    rcases e.atStoragePrecision.flaw? with _ | flaw
    · split_ifs
      · exact h
      · obtain ⟨r, hr, hid⟩ := h
        exact ⟨r, List.mem_append_left _ hr, hid⟩
    · exact h
  | update e =>
    rw [Call.client, run_map, run_update]
    rcases e.atStoragePrecision.flaw? with _ | flaw
    · simp only []
      split_ifs
      · exact h
      · exact has_putIn.2 h
      · exact h
    · exact h
  | delete id' => exact absurd rfl (hc id')
  | get id' =>
    rw [Call.client, run_map, run_get_snd]
    exact h
  | list start finish =>
    rw [Call.client, run_map]
    exact h

theorem has_of_run {id : String} {c : Call} (hnew : ∀ id, c.newId? = some id → ¬ t.Has id)
    (h : (t.run c.client).2.Has id) : t.Has id ∨ c.newId? = some id := by
  have hids : ∀ s : EventTable, id ∈ (EventStore.table s).ids ↔ s.Has id := fun s => by
    rw [EventStore.ids_table, List.mem_map]
    rfl
  have hnew' : (EventStore.table t).IsNewIn c := by
    cases c with
    | create id' e =>
      rw [EventStore.IsNewIn, EventStore.ids_table, List.mem_map]
      exact hnew id'.text rfl
    | _ => trivial
  have hmem : id ∈ ((EventStore.table t).call c).2.ids := by
    rw [call_table]
    exact (hids _).2 h
  exact (EventStore.mem_ids_call hnew' hmem).imp_left (hids t).1

end Tidy

end EventTable

end Datebook
