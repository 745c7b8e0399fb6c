import Datebook.Archive
import Mathlib.Data.List.Induction
import Mathlib.Tactic.SplitIfs

/-!
# What an archive makes of the notifications it takes

A ledger lists the notifications that were to be saved, each with the fault that its save met, if
any, next to the counts and the store that come of them. The counts are those of the list, and the
store has the saved ones in their order (`Ledger.balances_of`). In a log that was empty these are
the first saved under each id, and its set has their ids (`saveAll_empty`), so a notification whose
id was saved before adds nothing to the store, wherever it comes again (`saveAll_redelivers`).
-/

namespace Datebook

/-- A notification that was to be saved, and the fault that kept it from being saved. -/
abbrev Attempt := Notification × Option StoreError

def Attempt.outcome (a : Attempt) : Except StoreError Unit :=
  match a.2 with
  | none => .ok ()
  | some e => .error e

def savedOf (as : List Attempt) : List Notification :=
  (as.filter fun a => a.2.isNone).map (·.1)

/-- The notifications without those that have the id of an earlier one. -/
def firsts : List Notification → List Notification
  | [] => []
  | n :: ns => n :: (firsts ns).filter fun m => m.id ≠ n.id

/-- What was to be saved, in order, and the counts and the store that came of it. -/
structure Ledger where
  attempts : List Attempt
  report : ArchiveReport
  store : NotificationStore

namespace Ledger

def new (store : NotificationStore) : Ledger := ⟨[], .zero, store⟩

def enter (l : Ledger) (a : Attempt) : Ledger where
  attempts := l.attempts ++ [a]
  report := l.report.count a.outcome
  store := if a.2.isNone then l.store.save a.1 else l.store

/-- The ledger of these attempts, with what was in the store before. -/
def of (store : NotificationStore) (as : List Attempt) : Ledger := as.foldl enter (new store)

theorem of_concat (store : NotificationStore) (as : List Attempt) (a : Attempt) :
    of store (as ++ [a]) = (of store as).enter a := List.foldl_append

theorem attempts_of (store : NotificationStore) (as : List Attempt) :
    (of store as).attempts = as := by
  induction as using List.reverseRecOn with
  | nil => rfl
  | append_singleton as a ih =>
    rw [of_concat, enter, ih]

end Ledger

section Savings

theorem savedOf_concat (as : List Attempt) (a : Attempt) :
    savedOf (as ++ [a]) = if a.2.isNone then savedOf as ++ [a.1] else savedOf as := by
  unfold savedOf
  split_ifs with h <;> simp [h]

theorem savedOf_append (as bs : List Attempt) : savedOf (as ++ bs) = savedOf as ++ savedOf bs := by
  simp [savedOf]

theorem mem_ids_firsts {ns : List Notification} {id : String} :
    id ∈ (firsts ns).map (·.id) ↔ id ∈ ns.map (·.id) := by
  induction ns with
  | nil => rfl
  | cons n ns ih =>
    by_cases hid : id = n.id
    · simp [firsts, hid]
    · have hmem : id ∈ ((firsts ns).filter fun m => m.id ≠ n.id).map (·.id)
          ↔ id ∈ (firsts ns).map (·.id) := by
        simp only [List.mem_map, List.mem_filter, decide_eq_true_eq]
        constructor
        · rintro ⟨m, ⟨hm, -⟩, rfl⟩
          exact ⟨m, hm, rfl⟩
        · rintro ⟨m, hm, rfl⟩
          exact ⟨m, ⟨hm, hid⟩, rfl⟩
      rw [firsts, List.map_cons, List.mem_cons, hmem, ih, List.map_cons, List.mem_cons]

theorem firsts_concat (ns : List Notification) (n : Notification) :
    firsts (ns ++ [n]) = if n.id ∈ ns.map (·.id) then firsts ns else firsts ns ++ [n] := by
  induction ns with
  | nil => rfl
  | cons m ns ih =>
    rw [List.cons_append, firsts, ih, firsts, List.map_cons]
    by_cases hm : n.id = m.id
    · have hid : n.id ∈ m.id :: ns.map (·.id) := List.mem_cons.2 (.inl hm)
      rw [if_pos hid]
      split_ifs <;> simp [hm]
    · simp only [List.mem_cons, hm, false_or]
      split_ifs <;> simp [hm]

end Savings

namespace NotificationLog

/-- The log of these notifications, with their ids in the set. -/
def of (ns : List Notification) : NotificationLog := ⟨ns, ns.map (·.id)⟩

/-- As long as the set is in step with them, a save goes by the entries. -/
theorem save_of (ns : List Notification) (n : Notification) :
    (of ns).save n = of (if n.id ∈ ns.map (·.id) then ns else ns ++ [n]) := by
  by_cases h : n.id ∈ ns.map (·.id)
  · simp only [save, of, List.contains_iff_mem, h, if_true]
  · simp only [save, of, List.contains_iff_mem, h, if_false, List.map_append, List.map_singleton]

end NotificationLog

namespace NotificationStore

def saveAll (s : NotificationStore) (ns : List Notification) : NotificationStore := ns.foldl save s

def ids : NotificationStore → List String
  | .memory l => l.ids
  | .table t => t.map (·.id)

variable {s : NotificationStore} {n : Notification}

theorem saveAll_append (s : NotificationStore) (ns ms : List Notification) :
    s.saveAll (ns ++ ms) = (s.saveAll ns).saveAll ms := List.foldl_append

theorem saveAll_empty (ns : List Notification) :
    saveAll (.memory .empty) ns = .memory (.of (firsts ns)) := by
  -- The log grows at its end, so the induction takes the last notification off.
  induction ns using List.reverseRecOn with
  | nil => rfl
  | append_singleton ns n ih =>
    have hsave : (NotificationLog.of (firsts ns)).save n = .of (firsts (ns ++ [n])) := by
      rw [NotificationLog.save_of, firsts_concat]
      simp only [mem_ids_firsts]
    rw [saveAll_append, ih]
    exact congrArg memory hsave

theorem save_of_mem (h : n.id ∈ s.ids) : s.save n = s := by
  cases s with
  | memory l => exact congrArg memory (if_pos (List.contains_iff_mem.2 h))
  | table t =>
    have hany : t.any fun r => r.id == n.id := by simpa [ids] using h
    simp [save, NotificationTable.save, hany]

theorem mem_ids_save (s : NotificationStore) (n : Notification) : n.id ∈ (s.save n).ids := by
  by_cases h : n.id ∈ s.ids
  · rwa [save_of_mem h]
  · cases s with
    | memory l =>
      have hnone : n.id ∉ l.ids := h
      simp [save, NotificationLog.save, hnone, ids]
    | table t =>
      have hnone : ¬ t.any fun r => r.id == n.id := by simpa [ids] using h
      simp [save, NotificationTable.save, hnone, ids, NotificationRow.ofNotification]

theorem ids_subset_save (s : NotificationStore) (n : Notification) : s.ids ⊆ (s.save n).ids := by
  cases s with
  | memory l =>
    simp only [save, NotificationLog.save]
    split_ifs <;> simp [ids]
  | table t =>
    simp only [save, NotificationTable.save]
    split_ifs <;> simp [ids]

theorem ids_subset_saveAll : ∀ (ns : List Notification) (s : NotificationStore),
    s.ids ⊆ (s.saveAll ns).ids
  | [], _ => List.Subset.refl _
  | n :: ns, s => List.Subset.trans (ids_subset_save s n) (ids_subset_saveAll ns (s.save n))

theorem mem_ids_saveAll : ∀ {ns : List Notification} {id : String} (s : NotificationStore),
    id ∈ ns.map (·.id) → id ∈ (s.saveAll ns).ids
  | n :: ns, id, s, h => by
    rcases List.mem_cons.1 h with rfl | h
    · exact ids_subset_saveAll ns (s.save n) (mem_ids_save s n)
    · exact mem_ids_saveAll (s.save n) h

end NotificationStore

/-- The second differs by attempts, anywhere in it, at what has an id that was saved before. -/
inductive Redelivers : List Attempt → List Attempt → Prop
  | same (as : List Attempt) : Redelivers as as
  | again {as xs ys : List Attempt} (n : Notification) (fault : Option StoreError)
      (h : Redelivers as (xs ++ ys)) (hid : n.id ∈ (savedOf xs).map (·.id)) :
      Redelivers as (xs ++ (n, fault) :: ys)

open NotificationStore in
theorem saveAll_redelivers {as bs : List Attempt} (h : Redelivers as bs) (s : NotificationStore) :
    s.saveAll (savedOf bs) = s.saveAll (savedOf as) := by
  induction h with
  | same => rfl
  | @again xs ys n fault _ hid ih =>
    rw [← ih, List.append_cons, savedOf_append (xs ++ [_]), savedOf_append xs ys, savedOf_concat,
      saveAll_append, saveAll_append]
    cases fault with
    | some e => rfl
    | none =>
      -- What is saved again is saved right after `xs`, in a store that has its id already.
      have hsame : (s.saveAll (savedOf xs)).save n = s.saveAll (savedOf xs) :=
        save_of_mem (mem_ids_saveAll s hid)
      simp only [Option.isNone_none, if_true, saveAll_append]
      exact congrArg (saveAll · (savedOf ys)) hsame

namespace Ledger

structure Balances (store : NotificationStore) (l : Ledger) : Prop where
  received : l.report.received = l.attempts.length
  saved : l.report.saved = (l.attempts.filter fun a => a.2.isNone).length
  failed : l.report.failed = (l.attempts.filter fun a => a.2.isSome).length
  store : l.store = store.saveAll (savedOf l.attempts)

theorem Balances.enter {store : NotificationStore} {l : Ledger} (h : l.Balances store)
    (a : Attempt) : (l.enter a).Balances store := by
  obtain ⟨n, _ | e⟩ := a
  · refine ⟨?_, ?_, ?_, ?_⟩
    · simp [Ledger.enter, Attempt.outcome, ArchiveReport.count, h.received]
    · simp [Ledger.enter, Attempt.outcome, ArchiveReport.count, h.saved]
    · simp [Ledger.enter, Attempt.outcome, ArchiveReport.count, h.failed]
    · simp only [Ledger.enter, savedOf_concat, Option.isNone_none, if_true,
        NotificationStore.saveAll_append, ← h.store]
      rfl
  · refine ⟨?_, ?_, ?_, ?_⟩
    · simp [Ledger.enter, Attempt.outcome, ArchiveReport.count, h.received]
    · simp [Ledger.enter, Attempt.outcome, ArchiveReport.count, h.saved]
    · simp [Ledger.enter, Attempt.outcome, ArchiveReport.count, h.failed]
    · simp [Ledger.enter, savedOf_concat, ← h.store]

theorem balances_of (store : NotificationStore) (as : List Attempt) :
    (of store as).Balances store := by
  induction as using List.reverseRecOn with
  | nil => exact ⟨rfl, rfl, rfl, rfl⟩
  | append_singleton as a ih =>
    rw [of_concat]
    exact ih.enter a

end Ledger

end Datebook
