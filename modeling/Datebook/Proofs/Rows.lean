import Datebook.Store.Events
import Mathlib.Logic.Basic
import Mathlib.Tactic.SplitIfs

/-!
# Calls on rows

What each call of a table answers and leaves, whatever the rows are (`run_create`, `run_update`,
`run_delete`, `run_get`). The questions that its statements ask are told by `Has`, `Taken` and
`TakenByOther`.
-/

namespace Datebook

namespace EventTable

/-- A row has the id. -/
def Has (t : EventTable) (id : String) : Prop := ∃ r ∈ t, r.id = id

/-- A row is in the slot of the event. -/
def Taken (t : EventTable) (e : Event) : Prop :=
  ∃ r ∈ t, r.userId = e.userId ∧ r.start = e.startTime.micros

/-- A row under another id is in the slot of the event. -/
def TakenByOther (t : EventTable) (e : Event) : Prop :=
  ∃ r ∈ t, r.id ≠ e.id ∧ r.userId = e.userId ∧ r.start = e.startTime.micros

instance (t : EventTable) (id : String) : Decidable (t.Has id) :=
  inferInstanceAs (Decidable (∃ r ∈ t, _))

instance (t : EventTable) (e : Event) : Decidable (t.Taken e) :=
  inferInstanceAs (Decidable (∃ r ∈ t, _))

instance (t : EventTable) (e : Event) : Decidable (t.TakenByOther e) :=
  inferInstanceAs (Decidable (∃ r ∈ t, _))

/-- The rows with this one in place of those with its id. -/
def putIn (row : EventRow) (t : EventTable) : EventTable :=
  t.map fun r => if r.id = row.id then row else r

theorem id_putIn_row (row r : EventRow) : (if r.id = row.id then row else r).id = r.id := by
  split_ifs with h
  · exact h.symm
  · rfl

theorem map_id_putIn (row : EventRow) (t : EventTable) :
    (putIn row t).map (·.id) = t.map (·.id) := by
  unfold putIn
  rw [List.map_map]
  exact List.map_congr_left fun r _ => id_putIn_row row r

theorem has_putIn {row : EventRow} {t : EventTable} {id : String} :
    (putIn row t).Has id ↔ t.Has id := by
  unfold Has
  rw [← List.mem_map, ← List.mem_map, map_id_putIn]

theorem mem_putIn_self {row : EventRow} {t : EventTable} (h : t.Has row.id) :
    row ∈ putIn row t := by
  obtain ⟨r, hr, hid⟩ := h
  exact List.mem_map.2 ⟨r, hr, if_pos hid⟩

theorem putIn_of_not_has {row : EventRow} {t : EventTable} (h : ¬ t.Has row.id) : putIn row t = t :=
  (List.map_congr_left fun r hr => if_neg fun hid => h ⟨r, hr, hid⟩).trans (List.map_id t)

theorem has_filter {t : EventTable} {id id' : String} :
    Has (t.filter fun r => r.id ≠ id) id' ↔ id' ≠ id ∧ t.Has id' := by
  simp only [Has, List.mem_filter, decide_eq_true_eq]
  constructor
  · rintro ⟨r, ⟨hr, hne⟩, rfl⟩
    exact ⟨hne, r, hr, rfl⟩
  · rintro ⟨hne, r, hr, rfl⟩
    exact ⟨r, ⟨hr, hne⟩, rfl⟩

theorem takenByOther_filter {t : EventTable} {e : Event} :
    TakenByOther (t.filter fun r => r.id ≠ e.id) e ↔ t.TakenByOther e := by
  simp only [TakenByOther, List.mem_filter, decide_eq_true_eq, and_assoc, and_self_left]

theorem filter_putIn (row : EventRow) (t : EventTable) :
    (putIn row t).filter (fun r => r.id ≠ row.id) = t.filter fun r => r.id ≠ row.id := by
  unfold putIn
  rw [List.filter_map]
  have hkeep : ∀ r ∈ t.filter fun r => r.id ≠ row.id, (if r.id = row.id then row else r) = r :=
    fun r hr => if_neg (of_decide_eq_true (List.mem_filter.1 hr).2)
  have hsame : t.filter
      ((fun r => decide (r.id ≠ row.id)) ∘ fun r => if r.id = row.id then row else r)
      = t.filter fun r => r.id ≠ row.id :=
    List.filter_congr fun r _ => by rw [Function.comp_apply, id_putIn_row]
  rw [hsame, List.map_congr_left hkeep, List.map_id']

section Statements

variable (t : EventTable)

theorem exec_hasSlot_taken (e : Event) :
    (Statement.hasSlot e.userId e.startTime.micros).exec t = (decide (t.Taken e), t) := by
  refine Prod.ext ?_ rfl
  rw [Bool.eq_iff_iff, decide_eq_true_eq]
  simp [Statement.exec, Taken]

theorem exec_hasSlotOfOther_taken (e : Event) :
    (Statement.hasSlotOfOther e.userId e.startTime.micros e.id).exec t
      = (decide (t.TakenByOther e), t) := by
  refine Prod.ext ?_ rfl
  rw [Bool.eq_iff_iff, decide_eq_true_eq]
  simp only [Statement.exec, TakenByOther, List.any_eq_true, Bool.and_eq_true, beq_iff_eq,
    bne_iff_ne]
  exact exists_congr fun r => and_congr_right fun _ => and_comm

theorem exec_hasRow_has (id : String) :
    (Statement.hasRow id).exec t = (decide (t.Has id), t) := by
  refine Prod.ext ?_ rfl
  rw [Bool.eq_iff_iff, decide_eq_true_eq]
  simp [Statement.exec, Has]

end Statements

section Calls

variable (t : EventTable)

theorem run_create (id : String) (e : Event) :
    t.run (create id e) = match e.atStoragePrecision.flaw? with
      | some flaw => (.error (.invalid flaw), t)
      | none =>
        if t.Taken e.atStoragePrecision then (.error .busy, t)
        else (.ok { e.atStoragePrecision with id },
          t ++ [.ofEvent { e.atStoragePrecision with id }]) := by
  simp only [run, create]
  cases e.atStoragePrecision.flaw? with
  | some flaw => rfl
  | none =>
    simp only [ask, Script.run_bind, Script.run_query, exec_hasSlot_taken, decide_eq_true_eq]
    split_ifs <;> rfl

theorem run_update (e : Event) :
    t.run (update e) = match e.atStoragePrecision.flaw? with
      | some flaw => (.error (.invalid flaw), t)
      | none =>
        if ¬ t.Has e.id then (.error (.notFound e.id), t)
        else if t.TakenByOther e.atStoragePrecision then (.error .busy, t)
        else (.ok (), putIn (.ofEvent e.atStoragePrecision) t) := by
  have hid : e.atStoragePrecision.id = e.id := rfl
  rw [← hid]
  simp only [run, update]
  generalize e.atStoragePrecision = a
  cases a.flaw? with
  | some flaw => rfl
  | none =>
    simp only [ask, Script.run_bind, Script.run_query, exec_hasRow_has]
    by_cases h : t.Has a.id
    · simp only [h, decide_true, Bool.not_true, Bool.false_eq_true, not_true_eq_false, if_false,
        Script.run_bind, Script.run_query, exec_hasSlotOfOther_taken, decide_eq_true_eq]
      split_ifs <;> rfl
    · simp only [h, decide_false, Bool.not_false, not_false_eq_true, if_true]
      rfl

theorem run_delete (id : String) :
    t.run (delete id)
      = (if t.Has id then .ok () else .error (.notFound id), t.filter fun r => r.id ≠ id) := by
  have hn : (t.filter fun r => r.id = id).length = 0 ↔ ¬ t.Has id := by
    simp [Has]
  simp only [run, delete, ask, Script.run_bind, Script.run_query, Statement.exec, hn]
  by_cases h : t.Has id
  · rw [if_pos h, if_neg (not_not.2 h)]
    rfl
  · rw [if_neg h, if_pos h]
    rfl

theorem run_get_snd (id : String) : (t.run (get id)).2 = t := by
  simp only [run, get, ask, Script.run_bind, Script.run_query, Statement.exec]
  cases t.find? fun r => r.id = id <;> rfl

theorem run_get (id : String) :
    (t.run (get id)).1
      = (t.find? fun r => r.id = id).elim (.error (.notFound id)) EventRow.event := by
  simp only [run, get, ask, Script.run_bind, Script.run_query, Statement.exec]
  cases t.find? fun r => r.id = id <;> rfl

end Calls

end EventTable

end Datebook
