import Datebook.Proofs.Replays

/-!
# Calls under way

How far a call has come, statement by statement. Until its row is gone, what is left of it does what
the whole call would do now (`Stage.run_eq`). Once the row of an update is gone, its reply is
settled and it writes nothing more (`Stage.settled`). Both last as long as what the next statement
relies on is spared (`Stage.keep`, `IsSettled.keep`).
-/

namespace Datebook

/-- A change to the rows spares what this statement of a call under way relies on. A slot that was
found free must not be taken, as long as there is a row to write. And once the row of an update is
gone, the slot that it has yet to look at must neither be taken nor freed. -/
def Statement.IsSpared (before after : EventTable) : Statement → Prop
  | .insert row => ((hasSlot row.userId row.start).exec after).1 = false
  | .replace row =>
    after.Has row.id → ((hasSlotOfOther row.userId row.start row.id).exec after).1 = false
  | .hasSlotOfOther userId start id => ¬ before.Has id →
    ((hasSlotOfOther userId start id).exec after).1
      = ((hasSlotOfOther userId start id).exec before).1
  | .hasSlot _ _ | .hasRow _ | .delete _ | .find _ | .window _ _ => True

instance (before after : EventTable) : ∀ q : Statement, Decidable (q.IsSpared before after)
  | .insert _ => inferInstanceAs (Decidable (_ = _))
  | .replace _ => inferInstanceAs (Decidable (_ → _))
  | .hasSlotOfOther _ _ _ => inferInstanceAs (Decidable (_ → _))
  | .hasSlot _ _ | .hasRow _ | .delete _ | .find _ | .window _ _ => isTrue trivial

namespace EventTable

/-- What is left of a call that creates once its slot was found free. -/
def inserting (e : Event) : Client Reply :=
  .ask (.insert (.ofEvent e)) fun _ => .done (.event (.ok e))

/-- What is left of a call that updates once its slot was found free. -/
def replacing (e : Event) : Client Reply :=
  .ask (.replace (.ofEvent e)) fun _ => .done (.done (.ok ()))

/-- What is left of a call that updates once its row was found. -/
def checking (e : Event) : Client Reply :=
  .ask (.hasSlotOfOther e.userId e.startTime.micros e.id) fun (isTaken : Bool) =>
    if isTaken then .done (.done (.error .busy)) else replacing e

theorem client_create (id : NewId) (e : Event) :
    (Call.create id e).client = match e.atStoragePrecision.flaw? with
      | some flaw => .done (.event (.error (.invalid flaw)))
      | none => .ask (.hasSlot e.userId e.atStoragePrecision.startTime.micros)
        fun (isTaken : Bool) => if isTaken then .done (.event (.error .busy))
          else inserting { e.atStoragePrecision with id := id.text } := by
  simp only [Call.client, create]
  rcases e.atStoragePrecision.flaw? with _ | flaw
  · refine congrArg (Script.ask _) (funext fun isTaken => ?_)
    cases isTaken <;> rfl
  · rfl

theorem client_update (e : Event) :
    (Call.update e).client = match e.atStoragePrecision.flaw? with
      | some flaw => .done (.done (.error (.invalid flaw)))
      | none => .ask (.hasRow e.id) fun (isThere : Bool) =>
        if isThere then checking e.atStoragePrecision
          else .done (.done (.error (.notFound e.id))) := by
  simp only [Call.client, update]
  rcases e.atStoragePrecision.flaw? with _ | flaw
  · refine congrArg (Script.ask _) (funext fun isThere => ?_)
    cases isThere
    · rfl
    · refine congrArg (Script.ask _) (funext fun isTaken => ?_)
      cases isTaken <;> rfl
  · rfl

theorem client_delete (id : String) :
    (Call.delete id).client = .ask (.delete id) fun (n : Nat) =>
      .done (.done (if n = 0 then .error (.notFound id) else .ok ())) := by
  refine congrArg (Script.ask _) (funext fun (n : Nat) => ?_)
  cases n <;> rfl

theorem client_get (id : String) :
    (Call.get id).client = .ask (.find id) fun (row? : Option EventRow) =>
      .done (.event (row?.elim (.error (.notFound id)) EventRow.event)) := by
  refine congrArg (Script.ask _) (funext fun (row? : Option EventRow) => ?_)
  cases row? <;> rfl

theorem run_of_advance {t t' : EventTable} {p : Client Reply} {r : Reply}
    (h : p.advance Statement.exec t = (.done r, t')) : t.run p = (r, t') := by
  have hrun := Script.run_advance Statement.exec p t
  rw [h] at hrun
  exact hrun.symm

/-- What is left of a call that has found what the rows would still tell it. -/
inductive Stage (t : EventTable) : Call → Client Reply → Prop
  | inserting {id : NewId} {e : Event} (hv : e.atStoragePrecision.flaw? = none)
      (hfree : ¬ t.Taken e.atStoragePrecision) :
      Stage t (.create id e) (inserting { e.atStoragePrecision with id := id.text })
  | checking {e : Event} (hv : e.atStoragePrecision.flaw? = none) (hhas : t.Has e.id) :
      Stage t (.update e) (checking e.atStoragePrecision)
  | replacing {e : Event} (hv : e.atStoragePrecision.flaw? = none) (hhas : t.Has e.id)
      (hfree : ¬ t.TakenByOther e.atStoragePrecision) :
      Stage t (.update e) (replacing e.atStoragePrecision)

/-- What is left of an update whose row is gone, and the reply that it will get. -/
inductive IsSettled (t : EventTable) (e : Event) : Client Reply → Reply → Prop
  | checking (hgone : ¬ t.Has e.id) : IsSettled t e (checking e.atStoragePrecision)
      (.done (if t.TakenByOther e.atStoragePrecision then .error .busy else .ok ()))
  | replacing (hgone : ¬ t.Has e.id) :
      IsSettled t e (replacing e.atStoragePrecision) (.done (.ok ()))

def IsSpared (before after : EventTable) : Client Reply → Prop
  | .done _ => True
  | .ask q _ => q.IsSpared before after

instance (before after : EventTable) : ∀ p : Client Reply, Decidable (IsSpared before after p)
  | .done _ => isTrue trivial
  | .ask q _ => inferInstanceAs (Decidable (q.IsSpared before after))

section Spared

variable {t t' : EventTable} {e : Event}

theorem isSpared_inserting : IsSpared t t' (inserting e) ↔ ¬ t'.Taken e := by
  change ((Statement.hasSlot e.userId e.startTime.micros).exec t').1 = false ↔ _
  rw [exec_hasSlot_taken, decide_eq_false_iff_not]

theorem isSpared_replacing :
    IsSpared t t' (replacing e) ↔ (t'.Has e.id → ¬ t'.TakenByOther e) := by
  change (t'.Has e.id →
    ((Statement.hasSlotOfOther e.userId e.startTime.micros e.id).exec t').1 = false) ↔ _
  rw [exec_hasSlotOfOther_taken, decide_eq_false_iff_not]

theorem isSpared_checking :
    IsSpared t t' (checking e) ↔ (¬ t.Has e.id → (t'.TakenByOther e ↔ t.TakenByOther e)) := by
  simp only [IsSpared, checking, Statement.IsSpared, exec_hasSlotOfOther_taken, decide_eq_decide]

end Spared

variable {s t t' : EventTable} {c : Call} {e : Event} {p : Client Reply} {r : Reply}

theorem run_client_create {id : NewId} (hv : e.atStoragePrecision.flaw? = none)
    (hfree : ¬ t.Taken e.atStoragePrecision) :
    t.run (Call.create id e).client = (.event (.ok { e.atStoragePrecision with id := id.text }),
      t ++ [.ofEvent { e.atStoragePrecision with id := id.text }]) := by
  rw [Call.client, run_map, run_create]
  simp only [hv, if_neg hfree]

theorem run_client_update (hv : e.atStoragePrecision.flaw? = none) (hhas : t.Has e.id) :
    t.run (Call.update e).client = if t.TakenByOther e.atStoragePrecision
      then (.done (.error .busy), t)
      else (.done (.ok ()), putIn (.ofEvent e.atStoragePrecision) t) := by
  rw [Call.client, run_map, run_update]
  simp only [hv, hhas, not_true_eq_false, if_false]
  split_ifs <;> rfl

theorem run_client_delete (t : EventTable) (id : String) :
    t.run (Call.delete id).client
      = (.done (if t.Has id then .ok () else .error (.notFound id)),
        t.filter fun r => r.id ≠ id) := by
  rw [Call.client, run_map, run_delete]

theorem mem_of_run_update (h : t.run (Call.update e).client = (.done (.ok ()), t')) :
    .ofEvent e.atStoragePrecision ∈ t' := by
  rw [Call.client, run_map, run_update] at h
  rcases hf : e.atStoragePrecision.flaw? with _ | flaw
  · rw [hf] at h
    simp only [] at h
    split_ifs at h with hhas htaken
    · cases h
    · have hrow : t.Has (EventRow.ofEvent e.atStoragePrecision).id := hhas
      obtain rfl := (Prod.mk.inj h).2
      exact mem_putIn_self hrow
    · cases h
  · rw [hf] at h
    cases h

theorem run_checking (t : EventTable) (e : Event) :
    t.run (checking e) = if t.TakenByOther e then (.done (.error .busy), t)
      else (.done (.ok ()), putIn (.ofEvent e) t) := by
  simp only [run, checking, Script.run, t.exec_hasSlotOfOther_taken, decide_eq_true_eq]
  split_ifs <;> rfl

/-- The first statement of a call ends it, or finds what the call goes on with. -/
theorem advance_client (t : EventTable) (c : Call) :
    ((∀ id, c ≠ .delete id) ∧ ∃ r, c.client.advance Statement.exec t = (.done r, t))
      ∨ (∃ id r, c = .delete id
        ∧ c.client.advance Statement.exec t = (.done r, t.filter fun r => r.id ≠ id))
      ∨ ∃ p, c.client.advance Statement.exec t = (p, t) ∧ Stage t c p := by
  cases c with
  | create id e =>
    rw [client_create]
    rcases hf : e.atStoragePrecision.flaw? with _ | flaw
    · have hexec : Statement.exec (.hasSlot e.userId e.atStoragePrecision.startTime.micros) t
          = (decide (t.Taken e.atStoragePrecision), t) := t.exec_hasSlot_taken e.atStoragePrecision
      simp only [Script.advance, hexec, decide_eq_true_eq]
      split_ifs with h
      · exact Or.inl ⟨nofun, _, rfl⟩
      · exact Or.inr (Or.inr ⟨_, rfl, .inserting hf h⟩)
    · exact Or.inl ⟨nofun, _, rfl⟩
  | update e =>
    rw [client_update]
    rcases hf : e.atStoragePrecision.flaw? with _ | flaw
    · simp only [Script.advance, t.exec_hasRow_has, decide_eq_true_eq]
      split_ifs with h
      · exact Or.inr (Or.inr ⟨_, rfl, .checking hf h⟩)
      · exact Or.inl ⟨nofun, _, rfl⟩
    · exact Or.inl ⟨nofun, _, rfl⟩
  | delete id => exact Or.inr (Or.inl ⟨id, _, rfl, by rw [client_delete]; rfl⟩)
  | get id => exact Or.inl ⟨nofun, _, by rw [client_get]; rfl⟩
  | list start finish => exact Or.inl ⟨nofun, _, rfl⟩

namespace Stage

theorem exists_ask (h : Stage t c p) : ∃ q next, p = .ask q next := by
  cases h <;> exact ⟨_, _, rfl⟩

/-- What is left of a call does what the whole call would do now. -/
theorem run_eq (h : Stage t c p) : t.run p = t.run c.client := by
  cases h with
  | inserting hv hfree =>
    rw [run_client_create hv hfree]
    rfl
  | checking hv hhas => rw [run_client_update hv hhas, run_checking]
  | replacing hv hhas hfree =>
    rw [run_client_update hv hhas, if_neg hfree]
    rfl

theorem advance (h : Stage t c p) :
    (∃ r t', p.advance Statement.exec t = (.done r, t'))
      ∨ ∃ p', p.advance Statement.exec t = (p', t) ∧ Stage t c p' := by
  cases h with
  | inserting hv hfree => exact Or.inl ⟨_, _, rfl⟩
  | @checking e hv hhas =>
    simp only [EventTable.checking, Script.advance, t.exec_hasSlotOfOther_taken, decide_eq_true_eq]
    split_ifs with htaken
    · exact Or.inl ⟨_, _, rfl⟩
    · exact Or.inr ⟨_, rfl, .replacing hv hhas htaken⟩
  | replacing hv hhas hfree => exact Or.inl ⟨_, _, rfl⟩

theorem keep (h : Stage t c p) (hp : IsSpared t t' p)
    (hhas : ∀ e, c = .update e → t'.Has e.id) : Stage t' c p := by
  cases h with
  | @inserting id e hv _ =>
    have hfree := isSpared_inserting.1 hp
    exact .inserting hv hfree
  | @checking e hv _ => exact .checking hv (hhas e rfl)
  | @replacing e hv _ _ =>
    exact .replacing hv (hhas e rfl) (isSpared_replacing.1 hp (hhas e rfl))

theorem ne_delete (h : Stage t c p) (id : String) : c ≠ .delete id := by
  cases h <;> nofun

theorem of_update (h : Stage t (.update e) p) :
    e.atStoragePrecision.flaw? = none ∧ t.Has e.id := by
  cases h <;> exact ⟨‹_›, ‹_›⟩

/-- An update does not notice what stands in the row that it replaces. -/
theorem exists_run_update (h : Stage t (.update e) p)
    (hs : s.filter (fun r => r.id ≠ e.id) = t.filter fun r => r.id ≠ e.id) (hhas : s.Has e.id) :
    ∃ s', s.run (Call.update e).client = ((t.run p).1, s')
      ∧ (s'.filter (fun r => r.id ≠ e.id) = t.filter fun r => r.id ≠ e.id) ∧ s'.Has e.id := by
  obtain ⟨hv, hthas⟩ := h.of_update
  have htaken : s.TakenByOther e.atStoragePrecision ↔ t.TakenByOther e.atStoragePrecision := by
    rw [← takenByOther_filter (t := s), ← takenByOther_filter (t := t)]
    exact iff_of_eq (congrArg (TakenByOther · e.atStoragePrecision) hs)
  rw [h.run_eq, run_client_update hv hthas, run_client_update hv hhas]
  by_cases ht : t.TakenByOther e.atStoragePrecision
  · rw [if_pos ht, if_pos (htaken.2 ht)]
    exact ⟨s, rfl, hs, hhas⟩
  · rw [if_neg ht, if_neg (mt htaken.1 ht)]
    exact ⟨_, rfl, (filter_putIn (.ofEvent e.atStoragePrecision) s).trans hs, has_putIn.2 hhas⟩

theorem settled (h : Stage t (.update e) p) :
    IsSettled (t.filter fun r => r.id ≠ e.id) e p (t.run p).1 := by
  have hgone : ¬ Has (t.filter fun r => r.id ≠ e.id) e.id := fun h => (has_filter.1 h).1 rfl
  cases h with
  | checking _ _ =>
    have hsame : TakenByOther (t.filter fun r => r.id ≠ e.id) e.atStoragePrecision
        ↔ t.TakenByOther e.atStoragePrecision :=
      takenByOther_filter (e := e.atStoragePrecision)
    have hreply : (t.run (EventTable.checking e.atStoragePrecision)).1
        = .done (if t.TakenByOther e.atStoragePrecision then .error .busy else .ok ()) := by
      rw [run_checking]
      split_ifs <;> rfl
    rw [hreply, ← if_congr hsame rfl rfl]
    exact .checking hgone
  | replacing _ _ _ => exact .replacing hgone

end Stage

namespace IsSettled

theorem exists_ask (h : IsSettled t e p r) : ∃ q next, p = .ask q next := by
  cases h <;> exact ⟨_, _, rfl⟩

theorem not_has (h : IsSettled t e p r) : ¬ t.Has e.id := by
  cases h <;> assumption

theorem advance (h : IsSettled t e p r) :
    p.advance Statement.exec t = (.done r, t)
      ∨ ∃ p', p.advance Statement.exec t = (p', t) ∧ IsSettled t e p' r := by
  cases h with
  | checking hgone =>
    simp only [EventTable.checking, Script.advance, t.exec_hasSlotOfOther_taken, decide_eq_true_eq]
    split_ifs with htaken
    · exact Or.inl rfl
    · exact Or.inr ⟨_, rfl, .replacing hgone⟩
  | replacing hgone =>
    have hrow : ¬ t.Has (EventRow.ofEvent e.atStoragePrecision).id := hgone
    exact Or.inl (Prod.ext rfl (putIn_of_not_has hrow))

theorem keep (h : IsSettled t e p r) (hp : IsSpared t t' p) (hgone : ¬ t'.Has e.id) :
    IsSettled t' e p r := by
  cases h with
  | checking hbefore =>
    rw [← if_congr (isSpared_checking.1 hp hbefore) rfl rfl]
    exact .checking hgone
  | replacing _ => exact .replacing hgone

end IsSettled

end EventTable

end Datebook
