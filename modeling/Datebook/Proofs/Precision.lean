import Datebook.Proofs.Logs

/-!
# Logs to the microsecond

In memory a log gives back what was saved to the nanosecond, and a list is exact. A table keeps the
whole microseconds of an instant, so what it gives back has these, and it is by these that it tells
what ends a window and what comes first (`ofWindow_isAnswerToMicros`). After the same saves the two
list alike to the microsecond, unless a bound of the window is in the same microsecond as the time
of a notification that lies beyond it (`list_alike`).
-/

namespace Datebook

theorem StorageKind.atMost_database_iff {t u : Instant} (ht : t.IsOrdinary) (hu : u.IsOrdinary) :
    AtMost .database t u ↔ t.floorMicros ≤ u := by
  rw [← Instant.micros_le_micros ht.floorMicros t.isWholeMicros_floorMicros hu,
    t.micros_floorMicros]
  rfl

theorem Notification.IsFirstOf.eq_of_id {n m : Notification} {ns : List Notification}
    (hn : n.IsFirstOf ns) (hm : m.IsFirstOf ns) (h : n.id = m.id) : n = m := by
  unfold IsFirstOf at hn hm
  rw [h, hm] at hn
  exact (Option.some.inj hn).symm

/-- The answer has a user's notifications of the window, of those first under their ids, each once
and by their time, and all this to the microsecond. Whether it has those in whose microsecond the
window begins, but after them, is left open. -/
structure IsAnswerToMicros (ns : List Notification) (userId : String) (start finish : Instant)
    (l : List Notification) : Prop where
  nodup : (l.map (·.id)).Nodup
  sorted : l.Pairwise fun a b => a.notifyAt ≤ b.notifyAt
  exists_first : ∀ a ∈ l, ∃ n : Notification, n.IsFirstOf ns ∧ n.userId = userId
    ∧ a = n.atStoragePrecision
  mem_of_le : start.IsOrdinary → finish.IsOrdinary → ∀ n : Notification, n.IsFirstOf ns →
    n.userId = userId → start ≤ n.notifyAt → n.atStoragePrecision.notifyAt ≤ finish →
      n.atStoragePrecision ∈ l
  le_of_mem : start.IsOrdinary → finish.IsOrdinary → ∀ n : Notification, n.IsFirstOf ns →
    n.atStoragePrecision ∈ l → n.atStoragePrecision.notifyAt ≤ finish
      ∧ (start ≤ n.notifyAt ∨ n.notifyAt.floorMicros = start.floorMicros)

namespace NotificationStore

open Notification

variable {ns : List Notification} {userId : String} {start finish : Instant}

theorem atStoragePrecision_mem_iff {n : Notification} (hns : ∀ n ∈ ns, n.IsOrdinary)
    (hn : n.IsFirstOf ns) (hs : start.IsOrdinary) (hf : finish.IsOrdinary) :
    n.atStoragePrecision
        ∈ (ofWindow .database userId start finish (firsts ns)).map atStoragePrecision
      ↔ n.userId = userId ∧ (start ≤ n.notifyAt ∨ n.notifyAt.floorMicros = start.floorMicros)
        ∧ n.notifyAt.floorMicros ≤ finish := by
  have ho := (hns n hn.mem).notifyAt
  have hmem : n.atStoragePrecision
      ∈ (ofWindow .database userId start finish (firsts ns)).map atStoragePrecision
        ↔ n ∈ ofWindow .database userId start finish (firsts ns) := by
    refine ⟨fun h => ?_, fun h => List.mem_map_of_mem h⟩
    obtain ⟨m, hm, heq⟩ := List.mem_map.1 h
    have hid : m.id = n.id := congrArg (·.id) heq
    rwa [hn.eq_of_id (mem_firsts_iff.1 (mem_ofWindow.1 hm).1) hid.symm]
  rw [hmem, mem_ofWindow, and_iff_right (mem_firsts_iff.2 hn),
    StorageKind.atMost_database_iff hs ho, StorageKind.atMost_database_iff ho hf,
    Instant.floorMicros_le_iff_or]

theorem ofWindow_isAnswerToMicros (hns : ∀ n ∈ ns, n.IsOrdinary) :
    IsAnswerToMicros ns userId start finish
      ((ofWindow .database userId start finish (firsts ns)).map atStoragePrecision) := by
  have hord : ∀ {n}, n ∈ ofWindow .database userId start finish (firsts ns) →
      n.notifyAt.IsOrdinary := fun hn =>
    (hns _ ((firsts_sublist ns).subset (mem_ofWindow.1 hn).1)).notifyAt
  refine ⟨?_, ?_, fun a ha => ?_, fun hs hf n hn huser hle hle' => ?_, fun hs hf n hn hmem => ?_⟩
  · rw [List.map_map]
    exact ofWindow_nodup (ids_firsts_nodup ns)
  · rw [List.pairwise_map]
    refine (ofWindow_sorted .database userId start finish _).imp_of_mem fun {a b} ha hb hab => ?_
    rw [StorageKind.atMost_database_iff (hord ha) (hord hb)] at hab
    have hfloor := Instant.floorMicros_mono hab
    rwa [a.notifyAt.isWholeMicros_floorMicros.floorMicros_eq] at hfloor
  · obtain ⟨n, hn, rfl⟩ := List.mem_map.1 ha
    obtain ⟨hfirst, huser, -⟩ := mem_ofWindow.1 hn
    exact ⟨n, mem_firsts_iff.1 hfirst, huser, rfl⟩
  · exact (atStoragePrecision_mem_iff hns hn hs hf).2 ⟨huser, .inl hle, hle'⟩
  · obtain ⟨-, hle, hle'⟩ := (atStoragePrecision_mem_iff hns hn hs hf).1 hmem
    exact ⟨hle', hle⟩

/-- After the same saves in logs that were empty, memory lists what is in the window, as it was
first saved under its id. A table lists it to the microsecond, and with it at most what lies beyond
a bound, but in the same microsecond. -/
theorem list_alike (hns : ∀ n ∈ ns, n.IsOrdinary) (userId : String) (start finish : Instant) :
    ∃ l m, ((empty .memory).saveAll ns).list userId start finish = .ok l
      ∧ ((empty .database).saveAll ns).list userId start finish = .ok m
      ∧ IsAnswer ns userId start finish l ∧ IsAnswerToMicros ns userId start finish m
      ∧ (start.IsOrdinary → finish.IsOrdinary →
        (∀ n : Notification, n.IsFirstOf ns → n.userId = userId →
          (n.notifyAt.floorMicros = start.floorMicros → start ≤ n.notifyAt)
            ∧ (n.notifyAt.floorMicros ≤ finish → n.notifyAt ≤ finish)) →
        m.Perm (l.map atStoragePrecision)) := by
  refine ⟨ofWindow .memory userId start finish (firsts ns), _, ?_, ?_,
    ofWindow_isAnswer nofun nofun nofun, ofWindow_isAnswerToMicros hns, fun hs hf hcut => ?_⟩
  · rw [saveAll_empty_eq, list_ofNotifications (k := .memory) nofun,
      StorageKind.map_readBack_memory]
  · rw [saveAll_empty_eq, list_ofNotifications fun _ n hn =>
      hns n ((firsts_sublist ns).subset hn)]
    rfl
  · refine List.Perm.map _ ((ofWindow_perm ..).trans ?_)
    refine List.Perm.trans (List.Perm.of_eq ?_) (ofWindow_perm ..).symm
    -- Both take the same notifications, so only the order may differ.
    refine List.filter_congr fun n hn => decide_eq_decide.2 (and_congr_right fun huser => ?_)
    obtain ⟨hstart, hfinish⟩ := hcut n (mem_firsts_iff.1 hn) huser
    have ho := (hns n ((firsts_sublist ns).subset hn)).notifyAt
    rw [StorageKind.atMost_database_iff hs ho, StorageKind.atMost_database_iff ho hf,
      Instant.floorMicros_le_iff_or, or_iff_left_of_imp hstart]
    exact and_congr_right fun _ =>
      ⟨hfinish, fun h => Instant.le_trans n.notifyAt.floorMicros_le h⟩

section Meals

open Instant

/-- The dinner comes again, and the supper comes half a microsecond after the dinner. -/
def fineMeals : List Notification :=
  [meal "s" "Supper" (atTime 60 1700), meal "d" "Dinner" (atTime 60 1200),
    meal "d" "Late dinner" (atTime 90 0), meal "b" "Breakfast" beforeEpoch]

theorem list_alike_fineMeals :
    (∀ n ∈ fineMeals, n.IsOrdinary)
      ∧ ∃ l m, ((empty .memory).saveAll fineMeals).list "ada" (atTime 0 0) (atTime 60 1999) = .ok l
        ∧ ((empty .database).saveAll fineMeals).list "ada" (atTime 0 0) (atTime 60 1999) = .ok m
        ∧ (∀ n ∈ fineMeals, n ∈ l ↔ n.eventTitle = "Supper" ∨ n.eventTitle = "Dinner")
        ∧ IsAnswerToMicros fineMeals "ada" (atTime 0 0) (atTime 60 1999) m
        ∧ m.Perm (l.map atStoragePrecision) := by
  have hns : ∀ n ∈ fineMeals, n.IsOrdinary := by decide
  obtain ⟨l, m, hl, hm, hanswer, hanswer', hperm⟩ :=
    list_alike hns "ada" (atTime 0 0) (atTime 60 1999)
  refine ⟨hns, l, m, hl, hm, fun n hn => (hanswer.mem_iff n).trans ?_, hanswer', ?_⟩
  · revert n
    decide
  · have hclear : ∀ n ∈ fineMeals,
        (n.notifyAt.floorMicros = (atTime 0 0).floorMicros → atTime 0 0 ≤ n.notifyAt)
          ∧ (n.notifyAt.floorMicros ≤ atTime 60 1999 → n.notifyAt ≤ atTime 60 1999) := by decide
    exact hperm (by decide) (by decide) fun n hn _ => hclear n hn.mem

/-- A dinner between two whole microseconds. -/
def fineDinner : Notification := meal "d" "Dinner" (atTime 60 1500)

/-- A supper in the second after a leap second. -/
def nextSupper : Notification := meal "s" "Supper" (atTime 60 200000000)

theorem list_saveAll_singleton {k : StorageKind} {n : Notification}
    (hn : k = .database → n.IsOrdinary) (start finish : Instant) :
    ((empty k).saveAll [n]).list n.userId start finish
      = .ok ((if k.AtMost start n.notifyAt ∧ k.AtMost n.notifyAt finish then [n] else []).map
        k.readBack) := by
  have hfirsts : firsts [n] = [n] := rfl
  rw [saveAll_empty_eq, hfirsts, list_ofNotifications fun hk => by simpa using hn hk]
  unfold ofWindow
  split_ifs with h <;> simp [h]

/-- What a table gives back of the dinner is not what was saved, and it lists the dinner also if
the window is over by then, which memory does not. If a window begins in a leap second, a table does
not list the supper that follows. -/
theorem finer_digits_cut :
    (∀ n ∈ [fineDinner, nextSupper], n.IsOrdinary)
      ∧ ((empty .memory).saveAll [fineDinner]).list "ada" first last = .ok [fineDinner]
      ∧ ((empty .database).saveAll [fineDinner]).list "ada" first last
        = .ok [fineDinner.atStoragePrecision]
      ∧ ¬ [fineDinner.atStoragePrecision].Perm [fineDinner]
      ∧ ¬ fineDinner.atStoragePrecision.IsFirstOf [fineDinner]
      ∧ ((empty .memory).saveAll [fineDinner]).list "ada" first (atTime 60 1400) = .ok []
      ∧ ((empty .database).saveAll [fineDinner]).list "ada" first (atTime 60 1400)
        = .ok [fineDinner.atStoragePrecision]
      ∧ ((empty .memory).saveAll [nextSupper]).list "ada" (atTime 59 1500000000) last
        = .ok [nextSupper]
      ∧ ((empty .database).saveAll [nextSupper]).list "ada" (atTime 59 1500000000) last
        = .ok [] := by
  have hdinner (k : StorageKind) := list_saveAll_singleton (k := k) (n := fineDinner)
    fun _ => by decide
  have hsupper (k : StorageKind) := list_saveAll_singleton (k := k) (n := nextSupper)
    fun _ => by decide
  refine ⟨by decide, ?_, ?_, by decide, by decide, ?_, ?_, ?_, ?_⟩
  · exact (hdinner .memory first last).trans (by decide)
  · exact (hdinner .database first last).trans (by decide)
  · exact (hdinner .memory first (atTime 60 1400)).trans (by decide)
  · exact (hdinner .database first (atTime 60 1400)).trans (by decide)
  · exact (hsupper .memory (atTime 59 1500000000) last).trans (by decide)
  · exact (hsupper .database (atTime 59 1500000000) last).trans (by decide)

end Meals

end NotificationStore

end Datebook
