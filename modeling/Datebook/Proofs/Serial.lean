import Datebook.Proofs.Handles
import Mathlib.Data.Fintype.Basic
import Mathlib.Data.List.Permutation

/-!
# One call after another

As long as every step spares what the calls under way rely on, all calls are answered, and leave the
rows, as if they had been made one after another, in the order of each handle (`run_serial`). A call
is made when it ends (`IsSerial.answer`), but an update whose row is deleted meanwhile is made just
before that (`IsSerial.delete`), and has only its reply to come (`IsSerial.answer_settled`).

Two calls that both look at a slot before either takes it are not spared, and no order explains that
they both succeed (`slot_taken_twice`).
-/

namespace Datebook

namespace SharedTable

open EventTable

variable {ι : Type} [DecidableEq ι]

/-- How it stands with a handle: whether its call under way goes on as if it began now, or has been
made already, just before its row was deleted. -/
inductive Standing (rows : EventTable) (log o : List (Answered ι)) (i : ι) (h : Handle) : Prop
  | idle (hbegun : h.begun = none) (ho : ofHandle i o = ofHandle i log)
  | going {c : Call} {p : Client Reply} (hbegun : h.begun = some (c, p))
      (ho : ofHandle i o = ofHandle i log) (hstage : Stage rows c p)
  | settled {e : Event} {p : Client Reply} {r : Reply} (hbegun : h.begun = some (.update e, p))
      (ho : ofHandle i o = ofHandle i log ++ [⟨i, .update e, r⟩]) (hsettled : IsSettled rows e p r)
      (hdelete : ∃ x ∈ log, x.handle ≠ i ∧ x.call = .delete e.id ∧ x.reply = .done (.ok ()))

/-- The calls `o`, made one after another, explain what was answered so far, and the rows. -/
structure IsSerial (rows : EventTable) (t : SharedTable ι) (o : List (Answered ι)) : Prop where
  replays : Replays rows o t.rows
  isTidy : t.rows.IsTidy
  bringNew : BringNew t.rows fun i => (t.handles i).pending
  not_new : ∀ i e p, (t.handles i).begun = some (.update e, p) →
    ∀ j, e.id ∉ newIds (t.handles j).pending
  standing : ∀ i, Standing t.rows t.log o i (t.handles i)

variable {rows rows' : EventTable} {t : SharedTable ι} {i j : ι} {o o' log log' : List (Answered ι)}
  {c : Call} {p p' : Client Reply} {r : Reply} {todo : List Call}

theorem IsSerial.isOrder (h : IsSerial rows t o) : t.IsOrder o := by
  intro i
  cases h.standing i with
  | idle _ ho => exact Or.inl ho
  | going _ ho _ => exact Or.inl ho
  | settled hbegun ho _ _ => exact Or.inr ⟨_, _, _, hbegun, ho⟩

section Step

/-- A step of one handle, with the rest of the invariant told by how it stands with every handle. -/
theorem IsSerial.next {t' : SharedTable ι} (h : IsSerial rows t o)
    (hne : ∀ j, j ≠ i → t'.handles j = t.handles j) (hreplays : Replays rows o' t'.rows)
    (htidy : t'.rows.IsTidy) (hpending : (t'.handles i).pending.Sublist (t.handles i).pending)
    (hrows : ∀ id, t'.rows.Has id → t.rows.Has id ∨ ∀ j, id ∉ newIds (t'.handles j).pending)
    (hbegun : ∀ e p, (t'.handles i).begun = some (.update e, p) → t.rows.Has e.id
      ∨ ∃ p', (t.handles i).begun = some (.update e, p'))
    (hi : Standing t'.rows t'.log o' i (t'.handles i))
    (hothers : ∀ j, j ≠ i → Standing t'.rows t'.log o' j (t.handles j)) :
    IsSerial rows t' o' := by
  have hsub : ∀ j, (t'.handles j).pending.Sublist (t.handles j).pending := by
    intro j
    by_cases hj : j = i
    · exact hj ▸ hpending
    · rw [hne j hj]
  refine ⟨hreplays, htidy, h.bringNew.next hsub hrows, fun j e p hj k hk => ?_, fun j => ?_⟩
  · have hk' := ((hsub k).filterMap _).subset hk
    have hfound : t.rows.Has e.id ∨ ∃ p', (t.handles j).begun = some (.update e, p') := by
      by_cases hji : j = i
      · subst hji
        exact hbegun e p hj
      · exact Or.inr ⟨p, hne j hji ▸ hj⟩
    rcases hfound with hhas | ⟨p', hp'⟩
    · exact h.bringNew.not_has k e.id hk' hhas
    · exact h.not_new j e p' hp' k hk'
  · by_cases hj : j = i
    · exact hj ▸ hi
    · rw [hne j hj]
      exact hothers j hj

theorem Standing.keep {h : Handle} (hs : Standing rows log o j h) (hspared : h.IsSpared rows rows')
    (hhas : ∀ e p, h.begun = some (.update e, p) → (rows'.Has e.id ↔ rows.Has e.id))
    (ho : ofHandle j o' = ofHandle j o) (hlog : ofHandle j log' = ofHandle j log)
    (hsub : log ⊆ log') : Standing rows' log' o' j h := by
  cases hs with
  | idle hbegun hj => exact .idle hbegun (by rw [ho, hj, hlog])
  | going hbegun hj hstage =>
    refine .going hbegun (by rw [ho, hj, hlog]) (hstage.keep (hspared _ hbegun) ?_)
    rintro e rfl
    exact (hhas e _ hbegun).2 hstage.of_update.2
  | settled hbegun hj hsettled hdelete =>
    obtain ⟨x, hx, hcall⟩ := hdelete
    exact .settled hbegun (by rw [ho, hj, hlog]) (hsettled.keep (hspared _ hbegun)
      (mt (hhas _ _ hbegun).1 hsettled.not_has)) ⟨x, hsub hx, hcall⟩

theorem Standing.ofHandle_eq {h : Handle} (hs : Standing rows log o i h) (hbegun : h.begun = none) :
    ofHandle i o = ofHandle i log := by
  cases hs with
  | idle _ ho => exact ho
  | going hsome _ _ => cases hbegun.symm.trans hsome
  | settled hsome _ _ _ => cases hbegun.symm.trans hsome

theorem Standing.stage {h : Handle} (hs : Standing rows log o i h) {e : Event}
    (hbegun : h.begun = some (.update e, p)) (hhas : rows.Has e.id) :
    ofHandle i o = ofHandle i log ∧ Stage rows (.update e) p := by
  cases hs with
  | idle hnone _ => cases hnone.symm.trans hbegun
  | going hsome ho hstage =>
    cases hsome.symm.trans hbegun
    exact ⟨ho, hstage⟩
  | settled hsome _ hsettled _ =>
    cases hsome.symm.trans hbegun
    exact absurd hhas hsettled.not_has

theorem IsSerial.go_on (h : IsSerial rows t o) (hcur : (t.handles i).current? = some (c, p, todo))
    (hp : p.advance Statement.exec t.rows = (p', t.rows)) (hask : ∃ q next, p' = .ask q next)
    (hbegun : ∀ e, c = .update e → t.rows.Has e.id
      ∨ ∃ p', (t.handles i).begun = some (.update e, p'))
    (hi : Standing t.rows t.log o i ⟨some (c, p'), todo⟩) : IsSerial rows (t.step i) o := by
  rw [step_of_ask hcur hp hask]
  have hpending := Handle.pending_of_current? hcur
  refine h.next (i := i) (fun j hj => Function.update_of_ne hj ..) h.replays h.isTidy ?_
    (fun id hhas => Or.inl hhas) ?_ ?_ fun j _ => h.standing j
  · simp only [Function.update_self, hpending]
    exact List.Sublist.refl _
  · simp only [Function.update_self, Option.some.injEq, Prod.mk.injEq]
    exact fun e p hc => hbegun e hc.1
  · simp only [Function.update_self]
    exact hi

theorem IsSerial.finish (h : IsSerial rows t o)
    (hcur : (t.handles i).current? = some (c, p, todo))
    (hp : p.advance Statement.exec t.rows = (.done r, rows')) (hreplays : Replays rows o' rows')
    (htidy : rows'.IsTidy) (hrows : ∀ id, rows'.Has id → t.rows.Has id ∨ c.newId? = some id)
    (ho : ofHandle i o' = ofHandle i t.log ++ [⟨i, c, r⟩])
    (hothers : ∀ j, j ≠ i → Standing rows' (t.log ++ [⟨i, c, r⟩]) o' j (t.handles j)) :
    IsSerial rows (t.step i) o' := by
  rw [step_of_done hcur hp]
  have hpending := Handle.pending_of_current? hcur
  refine h.next (i := i) (fun j hj => Function.update_of_ne hj ..) hreplays htidy ?_
    (fun id hhas => (hrows id hhas).imp_right fun hid j => ?_) ?_ ?_ hothers
  · simp only [Function.update_self, hpending]
    exact List.sublist_cons_self c todo
  · obtain ⟨-, hmine, hothers⟩ := h.bringNew.of_cons hpending hid
    by_cases hj : j = i
    · subst hj
      simp only [Function.update_self]
      exact hmine
    · simpa only [Function.update_of_ne hj] using hothers j hj
  · simp
  · refine .idle (by simp) ?_
    rw [ho, ofHandle_append_self]

theorem IsSerial.answer (h : IsSerial rows t o)
    (hcur : (t.handles i).current? = some (c, p, todo))
    (hp : p.advance Statement.exec t.rows = (.done r, rows'))
    (hrun : t.rows.run c.client = (r, rows')) (hc : ∀ id, c ≠ .delete id)
    (ho : ofHandle i o = ofHandle i t.log)
    (hspared : ∀ j, j ≠ i → (t.handles j).IsSpared t.rows (t.step i).rows) :
    IsSerial rows (t.step i) (o ++ [⟨i, c, r⟩]) := by
  rw [step_of_done hcur hp] at hspared
  have hpending := Handle.pending_of_current? hcur
  have hnew : ∀ id, c.newId? = some id → ¬ t.rows.Has id :=
    fun id hid => (h.bringNew.of_cons hpending hid).1
  have hrows : ∀ id, rows'.Has id → t.rows.Has id ∨ c.newId? = some id := by
    intro id hhas
    refine has_of_run hnew ?_
    rwa [hrun]
  have htidy := h.isTidy.run hnew
  rw [hrun] at htidy
  refine h.finish hcur hp (replays_append.2 ⟨_, h.replays, replays_singleton.2 hrun⟩) htidy hrows
    (by rw [ofHandle_append_self, ho]) fun j hj => ?_
  refine (h.standing j).keep (hspared j hj) (fun e p hbegun => ⟨fun hhas => ?_, fun hhas => ?_⟩)
    (ofHandle_append_of_ne hj) (ofHandle_append_of_ne hj) (List.subset_append_left _ _)
  · refine (hrows e.id hhas).resolve_right fun hid => h.not_new j e p hbegun i ?_
    rw [hpending]
    exact List.mem_filterMap.2 ⟨c, List.mem_cons_self, hid⟩
  · have := hhas.run hc
    rwa [hrun] at this

theorem IsSerial.answer_settled {e : Event} (h : IsSerial rows t o)
    (hcur : (t.handles i).current? = some (.update e, p, todo))
    (hp : p.advance Statement.exec t.rows = (.done r, t.rows))
    (ho : ofHandle i o = ofHandle i t.log ++ [⟨i, .update e, r⟩])
    (hspared : ∀ j, j ≠ i → (t.handles j).IsSpared t.rows (t.step i).rows) :
    IsSerial rows (t.step i) o := by
  rw [step_of_done hcur hp] at hspared
  refine h.finish hcur hp h.replays h.isTidy (fun id hhas => Or.inl hhas) ho fun j hj => ?_
  exact (h.standing j).keep (hspared j hj) (fun e p _ => Iff.rfl) rfl
    (ofHandle_append_of_ne hj) (List.subset_append_left _ _)

end Step

section Delete

/-- The reply that a handle will get if it has an update under way of the row with this id. -/
def owed (t : SharedTable ι) (id : String) (i : ι) : List (Answered ι) :=
  match (t.handles i).begun with
  | some (.update e, p) => if e.id = id then [⟨i, .update e, (t.rows.run p).1⟩] else []
  | _ => []

omit [DecidableEq ι] in
theorem owed_cases (t : SharedTable ι) (id : String) (j : ι) :
    (t.owed id j = [] ∧ ∀ e p, (t.handles j).begun = some (.update e, p) → e.id ≠ id)
      ∨ ∃ e p, e.id = id ∧ (t.handles j).begun = some (.update e, p)
        ∧ t.owed id j = [⟨j, .update e, (t.rows.run p).1⟩] := by
  unfold owed
  rcases (t.handles j).begun with _ | ⟨c, p⟩
  · exact Or.inl ⟨rfl, fun e p he => by cases he⟩
  · cases c with
    | update e =>
      by_cases hid : e.id = id
      · exact Or.inr ⟨e, p, hid, rfl, if_pos hid⟩
      · refine Or.inl ⟨if_neg hid, fun e' p' he => ?_⟩
        cases he
        exact hid
    | _ => exact Or.inl ⟨rfl, fun e p he => by cases he⟩

/-- The updates under way of one row may be made now, which changes only that row. -/
theorem exists_owed (h : IsSerial rows t o) {id : String} (hhas : t.rows.Has id) :
    ∀ {js : List ι}, js.Nodup → ∃ q s, Replays t.rows q s ∧ s.Has id
      ∧ s.filter (fun r => r.id ≠ id) = t.rows.filter (fun r => r.id ≠ id)
      ∧ ∀ j, ofHandle j q = if j ∈ js then t.owed id j else []
  | [], _ => ⟨[], t.rows, replays_nil.2 rfl, hhas, rfl, fun j => by simp [ofHandle]⟩
  | k :: js, hn => by
    -- The rows `s` differ from those of the table in the row itself, which no update looks at.
    obtain ⟨hk, hn⟩ := List.nodup_cons.1 hn
    obtain ⟨q, s, hq, hs, hsame, hof⟩ := exists_owed h hhas hn
    obtain ⟨hnone, -⟩ | ⟨e, p, rfl, hsome, howed⟩ := t.owed_cases id k
    · refine ⟨q, s, hq, hs, hsame, fun j => ?_⟩
      rw [hof j]
      by_cases hj : j = k
      · rw [hj, hnone, ite_self, ite_self]
      · simp only [List.mem_cons, hj, false_or]
    · have hstage := ((h.standing k).stage hsome hhas).2
      obtain ⟨s', hrun, hsame', hs'⟩ := hstage.exists_run_update hsame hs
      refine ⟨q ++ t.owed e.id k, s', ?_, hs', hsame', fun j => ?_⟩
      · rw [howed]
        exact replays_append.2 ⟨s, hq, replays_singleton.2 hrun⟩
      · rw [ofHandle_append, hof j]
        by_cases hj : j = k
        · rw [hj, if_neg hk, if_pos List.mem_cons_self, howed, ofHandle_self, List.nil_append]
        · simp only [howed, ofHandle_of_ne hj, List.mem_cons, hj, false_or, List.append_nil]

theorem exists_before_delete [Fintype ι] (h : IsSerial rows t o) (id : String) :
    ∃ q s, Replays t.rows q s ∧ s.run (Call.delete id).client = t.rows.run (Call.delete id).client
      ∧ ∀ j, (ofHandle j q = [] ∧ ∀ e p, (t.handles j).begun = some (.update e, p) →
          t.rows.Has e.id → e.id ≠ id)
        ∨ ∃ e p, e.id = id ∧ (t.handles j).begun = some (.update e, p) ∧ t.rows.Has e.id
          ∧ ofHandle j q = [⟨j, .update e, (t.rows.run p).1⟩] := by
  by_cases hhas : t.rows.Has id
  · obtain ⟨q, s, hq, hs, hsame, hof⟩ := exists_owed h hhas Finset.univ.nodup_toList
    refine ⟨q, s, hq, ?_, fun j => ?_⟩
    · rw [run_client_delete, run_client_delete, if_pos hs, if_pos hhas, hsame]
    · rw [hof j, if_pos (Finset.mem_toList.2 (Finset.mem_univ j))]
      obtain ⟨hnone, hne⟩ | ⟨e, p, rfl, hsome, howed⟩ := t.owed_cases id j
      · exact Or.inl ⟨hnone, fun e p he _ => hne e p he⟩
      · exact Or.inr ⟨e, p, rfl, hsome, hhas, howed⟩
  · exact ⟨[], t.rows, replays_nil.2 rfl, rfl,
      fun j => Or.inl ⟨rfl, fun e p _ he hid => hhas (hid ▸ he)⟩⟩

theorem IsSerial.delete [Fintype ι] (h : IsSerial rows t o) {id : String}
    (hbegun : (t.handles i).begun = none) (htodo : (t.handles i).todo = .delete id :: todo)
    (hp : (Call.delete id).client.advance Statement.exec t.rows
      = (.done r, t.rows.filter fun r => r.id ≠ id))
    (hspared : ∀ j, j ≠ i → (t.handles j).IsSpared t.rows (t.step i).rows) :
    ∃ o', IsSerial rows (t.step i) o' := by
  have hcur := Handle.current?_of_cons hbegun htodo
  rw [step_of_done hcur hp] at hspared
  have hrun := run_of_advance hp
  obtain ⟨q, s, hq, hs, hcases⟩ := exists_before_delete h id
  refine ⟨o ++ (q ++ [⟨i, .delete id, r⟩]), h.finish hcur hp ?_
    (h.isTidy.sublist List.filter_sublist) (fun id hhas => Or.inl (has_filter.1 hhas).2) ?_
    fun j hj => ?_⟩
  · exact replays_append.2 ⟨_, h.replays,
      replays_append.2 ⟨s, hq, replays_singleton.2 (hs.trans hrun)⟩⟩
  · have hi : ofHandle i q = [] := by
      obtain ⟨hi, -⟩ | ⟨e, p, -, hsome, -⟩ := hcases i
      · exact hi
      · cases hbegun.symm.trans hsome
    rw [ofHandle_append, ofHandle_append_self, hi, List.nil_append,
      (h.standing i).ofHandle_eq hbegun]
  · have hlog : ofHandle j (t.log ++ [⟨i, .delete id, r⟩]) = ofHandle j t.log :=
      ofHandle_append_of_ne hj
    have hlast : ofHandle j (o ++ (q ++ [⟨i, .delete id, r⟩])) = ofHandle j o ++ ofHandle j q := by
      rw [ofHandle_append, ofHandle_append_of_ne hj]
    obtain ⟨hnone, hne⟩ | ⟨e, p, rfl, hsome, hhas, hmade⟩ := hcases j
    · refine (h.standing j).keep (hspared j hj) (fun e p he => ?_) (by rw [hlast, hnone,
        List.append_nil]) hlog (List.subset_append_left _ _)
      exact has_filter.trans ⟨And.right, fun hhas => ⟨hne e p he hhas, hhas⟩⟩
    · -- The update is made now, so that the deletion takes its row away again.
      obtain ⟨hjo, hstage⟩ := (h.standing j).stage hsome hhas
      have hr : r = .done (.ok ()) := by
        rw [run_client_delete, if_pos hhas] at hrun
        exact (Prod.mk.inj hrun).1.symm
      exact .settled hsome (by rw [hlast, hmade, hjo, hlog]) hstage.settled
        ⟨⟨i, .delete e.id, r⟩, List.mem_append_right _ List.mem_cons_self, hj.symm, rfl, hr⟩

end Delete

theorem IsSerial.step [Fintype ι] (h : IsSerial rows t o)
    (hspared : ∀ j, j ≠ i → (t.handles j).IsSpared t.rows (t.step i).rows) :
    ∃ o', IsSerial rows (t.step i) o' := by
  cases h.standing i with
  | idle hbegun ho =>
    rcases htodo : (t.handles i).todo with _ | ⟨c, todo⟩
    · rw [step_of_none (Handle.current?_of_nil hbegun htodo)]
      exact ⟨o, h⟩
    · have hcur := Handle.current?_of_cons hbegun htodo
      obtain ⟨hc, r, hp⟩ | ⟨id, r, rfl, hp⟩ | ⟨p, hp, hstage⟩ := advance_client t.rows c
      · exact ⟨_, h.answer hcur hp (run_of_advance hp) hc ho hspared⟩
      · exact h.delete hbegun htodo hp hspared
      · refine ⟨o, h.go_on hcur hp hstage.exists_ask ?_ (.going rfl ho hstage)⟩
        rintro e rfl
        exact Or.inl hstage.of_update.2
  | going hbegun ho hstage =>
    have hcur := Handle.current?_of_begun hbegun
    obtain ⟨r, rows', hp⟩ | ⟨p', hp, hstage'⟩ := hstage.advance
    · have hrun := hstage.run_eq.symm.trans (run_of_advance hp)
      exact ⟨_, h.answer hcur hp hrun hstage.ne_delete ho hspared⟩
    · refine ⟨o, h.go_on hcur hp hstage'.exists_ask ?_ (.going rfl ho hstage')⟩
      rintro e rfl
      exact Or.inl hstage.of_update.2
  | settled hbegun ho hsettled hdelete =>
    have hcur := Handle.current?_of_begun hbegun
    obtain hp | ⟨p', hp, hsettled'⟩ := hsettled.advance
    · exact ⟨o, h.answer_settled hcur hp ho hspared⟩
    · refine ⟨o, h.go_on hcur hp hsettled'.exists_ask ?_ (.settled rfl ho hsettled' hdelete)⟩
      rintro e he
      cases he
      exact Or.inr ⟨_, hbegun⟩

theorem IsSerial.run [Fintype ι] : ∀ (is : List ι) {t : SharedTable ι} {o : List (Answered ι)},
    IsSerial rows t o → t.SparesOthers is → ∃ o', IsSerial rows (t.run is) o'
  | [], _, o, h, _ => ⟨o, h⟩
  | i :: is, t, o, h, hspared => by
    obtain ⟨o', h'⟩ := h.step hspared.1
    exact IsSerial.run is h' hspared.2

theorem isSerial_start (htidy : rows.IsTidy) {todo : ι → List Call} (hnew : BringNew rows todo) :
    IsSerial rows (start rows todo) [] :=
  ⟨replays_nil.2 rfl, htidy, hnew, fun i e p he => (by cases he), fun _ => .idle rfl rfl⟩

theorem IsSerial.mem_of_update (h : IsSerial rows t o) {e : Event}
    (hlog : (t.step i).log = t.log ++ [⟨i, .update e, .done (.ok ())⟩]) :
    .ofEvent e.atStoragePrecision ∈ (t.step i).rows
      ∨ ∃ x ∈ t.log, x.handle ≠ i ∧ x.call = .delete e.id ∧ x.reply = .done (.ok ()) := by
  obtain ⟨p, todo, hcur, hp⟩ := exists_of_step_log hlog
  cases h.standing i with
  | idle hbegun _ =>
    rcases htodo : (t.handles i).todo with _ | ⟨c, todo'⟩
    · cases (Handle.current?_of_nil hbegun htodo).symm.trans hcur
    · cases (Handle.current?_of_cons hbegun htodo).symm.trans hcur
      exact Or.inl (mem_of_run_update (run_of_advance hp))
  | going hbegun _ hstage =>
    cases (Handle.current?_of_begun hbegun).symm.trans hcur
    exact Or.inl (mem_of_run_update (hstage.run_eq.symm.trans (run_of_advance hp)))
  | settled hbegun _ _ hdelete =>
    cases (Handle.current?_of_begun hbegun).symm.trans hcur
    exact Or.inr hdelete

/-- As long as every step spares what the calls under way rely on, the calls are at every moment
answered, and have left the rows, as if they had been made one after another. So no two rows are
ever in one slot, and an update that succeeds has written its row, or the row was deleted. -/
theorem run_serial [Fintype ι] {rows : EventTable} (htidy : rows.IsTidy) {todo : ι → List Call}
    (hnew : BringNew rows todo) (is : List ι) (hspared : (start rows todo).SparesOthers is) :
    let t := (start rows todo).run is
    (∃ o, t.IsOrder o ∧ Replays rows o t.rows) ∧ (t.rows.map EventRow.slot).Nodup
      ∧ ∀ i e, (t.step i).log = t.log ++ [⟨i, .update e, .done (.ok ())⟩] →
        .ofEvent e.atStoragePrecision ∈ (t.step i).rows
          ∨ ∃ x ∈ t.log, x.handle ≠ i ∧ x.call = .delete e.id ∧ x.reply = .done (.ok ()) := by
  intro t
  obtain ⟨o, h⟩ := (isSerial_start htidy hnew).run is hspared
  exact ⟨⟨o, h.isOrder, h.replays⟩, h.isTidy.slots_nodup, fun i e => h.mem_of_update⟩

instance decidableSparesOthers [Fintype ι] : ∀ (t : SharedTable ι) (is : List ι),
    Decidable (t.SparesOthers is)
  | _, [] => isTrue trivial
  | t, i :: is =>
    have := decidableSparesOthers (t.step i) is
    inferInstanceAs (Decidable (_ ∧ _))

open Event

def earlyDinner : Event := dinner "a" "Dinner" (.atTime 0 0)

def lateDinner : Event := dinner "a" "Late dinner" (.atTime 7200 0)

/-- One handle enters a dinner and moves it to a slot that the other has cleared, and the other
deletes it. -/
def twoHandles : Fin 2 → List Call
  | 0 => [.create EventStore.idA earlyDinner, .update lateDinner]
  | 1 => [.update (dinner "b" "Supper" (.atTime 3600 0)), .delete "a"]

/-- The dinner is entered while the supper is moved, and deleted while it is moved itself. -/
theorem run_serial_twoHandles :
    let rows : EventTable := [.ofEvent (dinner "b" "Supper" (.atTime 7200 0))]
    let is : List (Fin 2) := [0, 1, 0, 1, 1, 0, 0, 1, 0]
    let t := (start rows twoHandles).run is
    IsTidy rows ∧ BringNew rows twoHandles ∧ (start rows twoHandles).SparesOthers is
      ∧ t.rows.map EventRow.slot = [("ada", 3600000000)]
      ∧ t.log.map (·.handle) = [0, 1, 1, 0]
      ∧ (∃ o, t.IsOrder o ∧ Replays rows o t.rows) ∧ (t.rows.map EventRow.slot).Nodup
      ∧ ∀ i e, (t.step i).log = t.log ++ [⟨i, .update e, .done (.ok ())⟩] →
        .ofEvent e.atStoragePrecision ∈ (t.step i).rows
          ∨ ∃ x ∈ t.log, x.handle ≠ i ∧ x.call = .delete e.id ∧ x.reply = .done (.ok ()) := by
  intro rows is t
  have htidy : IsTidy rows := by decide +kernel
  have hspared : (start rows twoHandles).SparesOthers is := by decide +kernel
  have hnew : BringNew rows twoHandles :=
    ⟨by decide +kernel, by decide +kernel, by decide +kernel⟩
  exact ⟨htidy, hnew, hspared, by decide +kernel, by decide +kernel,
    run_serial htidy hnew is hspared⟩

/-- Each handle enters a dinner in the same slot. -/
def sameSlot : Fin 2 → List Call
  | 0 => [.create EventStore.idA earlyDinner]
  | 1 => [.create EventStore.idB earlyDinner]

def movedAndDeleted : Fin 2 → List Call
  | 0 => [.update lateDinner]
  | 1 => [.delete "a"]

def dinnerAndSupper : EventTable :=
  [.ofEvent earlyDinner, .ofEvent (dinner "b" "Supper" (.atTime 7200 0))]

/-- One handle moves the dinner to the slot of the supper, the other deletes the dinner and moves
the supper to its slot. -/
def movedAndReplaced : Fin 2 → List Call
  | 0 => [.update lateDinner]
  | 1 => [.delete "a", .update (dinner "b" "Supper" (.atTime 0 0))]

/-- Both handles look at the slot before either takes it. In no order would both have it. A dinner
that is deleted while it is moved is gone, although both calls succeed. And if then the slot that it
was to be moved to is cleared before the handle looks at it, no order explains what was answered. -/
theorem slot_taken_twice :
    let t := (start [] sameSlot).run [0, 1, 0, 1]
    let u := (start [.ofEvent earlyDinner] movedAndDeleted).run [0, 1, 0, 0]
    let v := (start dinnerAndSupper movedAndReplaced).run [0, 1, 1, 1, 1, 0, 0]
    t.rows.map EventRow.slot = [("ada", 0), ("ada", 0)]
      ∧ (¬ ∃ o, o.Perm t.log ∧ Replays [] o t.rows)
      ∧ u.rows = []
      ∧ u.log.map (fun x => (x.handle, x.reply)) = [(1, .done (.ok ())), (0, .done (.ok ()))]
      ∧ v.log.map (fun x => (x.handle, x.reply))
        = [(1, .done (.ok ())), (1, .done (.ok ())), (0, .done (.ok ()))]
      ∧ ¬ ∃ o, o.Perm v.log ∧ Replays dinnerAndSupper o v.rows := by
  have hnone : ∀ {rows : EventTable} {t : SharedTable (Fin 2)},
      (∀ o ∈ t.log.permutations', ¬ Replays rows o t.rows) →
        ¬ ∃ o, o.Perm t.log ∧ Replays rows o t.rows :=
    fun h ⟨o, hperm, hrun⟩ => h o (List.mem_permutations'.2 hperm) hrun
  exact ⟨by decide +kernel, hnone (by decide +kernel), by decide +kernel, by decide +kernel,
    by decide +kernel, hnone (by decide +kernel)⟩

end SharedTable

end Datebook
