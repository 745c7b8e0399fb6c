import Datebook.Proofs.Holdings
import Datebook.Proofs.Ledgers

/-!
# What a log holds and lists

A log that was empty holds the first notification saved under each id, of either kind of storage
(`saveAll_empty_eq`); in memory the set in which it looks for an id stays in step with what it holds
(`NotificationLog.save_of`). What it lists is those of a user and a window, by their time, as its
storage compares instants and gives them back (`list_ofNotifications`). If all instants are whole
microseconds outside leap seconds, storage of either kind compares and gives back alike, and
`saveAll_keeps_firsts` says what is held and listed after any saves.
-/

namespace Datebook

namespace Notification

/-- No instant of the notification is in a leap second. -/
structure IsOrdinary (n : Notification) : Prop where
  notifyAt : n.notifyAt.IsOrdinary
  createdAt : n.createdAt.IsOrdinary

/-- Every instant of the notification is a whole number of microseconds. -/
structure IsWholeMicros (n : Notification) : Prop where
  notifyAt : n.notifyAt.IsWholeMicros
  createdAt : n.createdAt.IsWholeMicros

instance (n : Notification) : Decidable n.IsOrdinary :=
  decidable_of_iff (n.notifyAt.IsOrdinary ∧ n.createdAt.IsOrdinary)
    ⟨fun h => ⟨h.1, h.2⟩, fun h => ⟨h.notifyAt, h.createdAt⟩⟩

instance (n : Notification) : Decidable n.IsWholeMicros :=
  decidable_of_iff (n.notifyAt.IsWholeMicros ∧ n.createdAt.IsWholeMicros)
    ⟨fun h => ⟨h.1, h.2⟩, fun h => ⟨h.notifyAt, h.createdAt⟩⟩

def atStoragePrecision (n : Notification) : Notification :=
  { n with notifyAt := n.notifyAt.floorMicros, createdAt := n.createdAt.floorMicros }

theorem IsWholeMicros.atStoragePrecision_eq {n : Notification} (h : n.IsWholeMicros) :
    n.atStoragePrecision = n := by
  rw [atStoragePrecision, h.notifyAt.floorMicros_eq, h.createdAt.floorMicros_eq]

/-- The first of the notifications with its id. -/
def IsFirstOf (n : Notification) (ns : List Notification) : Prop :=
  ns.find? (fun m => m.id = n.id) = some n

instance (n : Notification) (ns : List Notification) : Decidable (n.IsFirstOf ns) :=
  inferInstanceAs (Decidable (_ = _))

end Notification

theorem mem_firsts_iff {n : Notification} {ns : List Notification} :
    n ∈ firsts ns ↔ n.IsFirstOf ns := by
  unfold Notification.IsFirstOf
  induction ns with
  | nil => simp [firsts]
  | cons m ns ih =>
    rw [firsts, List.mem_cons, List.mem_filter, ih, List.find?_cons]
    by_cases h : m.id = n.id
    · simp [h, eq_comm]
    · have hne : n ≠ m := fun hnm => h (congrArg _ hnm.symm)
      simp [h, hne, Ne.symm h]

theorem Notification.IsFirstOf.mem {n : Notification} {ns : List Notification}
    (h : n.IsFirstOf ns) : n ∈ ns := List.mem_of_find?_eq_some h

theorem ids_firsts_nodup : ∀ ns : List Notification, ((firsts ns).map (·.id)).Nodup
  | [] => List.nodup_nil
  | n :: ns => by
    rw [firsts, List.map_cons, List.nodup_cons]
    refine ⟨by simp, ?_⟩
    exact (ids_firsts_nodup ns).sublist (List.filter_sublist.map _)

theorem firsts_sublist : ∀ ns : List Notification, (firsts ns).Sublist ns
  | [] => List.Sublist.refl _
  | n :: ns => (List.filter_sublist.trans (firsts_sublist ns)).cons_cons n

namespace StorageKind

/-- The one instant is at most the other, as storage of this kind compares them. -/
def AtMost : StorageKind → Instant → Instant → Prop
  | .memory, t, u => t ≤ u
  | .database, t, u => t.micros ≤ u.micros

instance : ∀ (k : StorageKind) (t u : Instant), Decidable (k.AtMost t u)
  | .memory, t, u => inferInstanceAs (Decidable (t ≤ u))
  | .database, t, u => inferInstanceAs (Decidable (t.micros ≤ u.micros))

/-- A notification as storage of this kind gives it back. -/
def readBack : StorageKind → Notification → Notification
  | .memory, n => n
  | .database, n => n.atStoragePrecision

variable {k : StorageKind} {t u v : Instant}

theorem AtMost.trans (h : k.AtMost t u) (h' : k.AtMost u v) : k.AtMost t v := by
  cases k with
  | memory => exact Instant.le_trans h h'
  | database => exact Int.le_trans h h'

theorem atMost_total (k : StorageKind) (t u : Instant) : k.AtMost t u ∨ k.AtMost u t := by
  cases k with
  | memory =>
    simp only [AtMost, Instant.le_def]
    omega
  | database => exact Int.le_total _ _

theorem atMost_trans (k : StorageKind) (a b c : Notification)
    (hab : decide (k.AtMost a.notifyAt b.notifyAt))
    (hbc : decide (k.AtMost b.notifyAt c.notifyAt)) :
    decide (k.AtMost a.notifyAt c.notifyAt) :=
  decide_eq_true ((of_decide_eq_true hab).trans (of_decide_eq_true hbc))

theorem atMost_or (k : StorageKind) (a b : Notification) :
    (decide (k.AtMost a.notifyAt b.notifyAt) || decide (k.AtMost b.notifyAt a.notifyAt)) := by
  rw [Bool.or_eq_true, decide_eq_true_eq, decide_eq_true_eq]
  exact k.atMost_total _ _

theorem atMost_iff (ht : k = .database → t.IsOrdinary ∧ t.IsWholeMicros)
    (hu : k = .database → u.IsOrdinary) : k.AtMost t u ↔ t ≤ u := by
  cases k with
  | memory => rfl
  | database => exact Instant.micros_le_micros (ht rfl).1 (ht rfl).2 (hu rfl)

theorem map_readBack_memory (ns : List Notification) : ns.map (readBack .memory) = ns :=
  List.map_id ns

theorem readBack_eq {n : Notification} (h : k = .database → n.IsWholeMicros) :
    k.readBack n = n := by
  cases k with
  | memory => rfl
  | database => exact (h rfl).atStoragePrecision_eq

end StorageKind

theorem NotificationRow.notification_ofNotification {n : Notification} (h : n.IsOrdinary) :
    (ofNotification n).notification = .ok n.atStoragePrecision := by
  have hread : ∀ {t : Instant} (c : Nat), t.IsOrdinary →
      EventRow.instant t.micros c = .ok t.floorMicros := fun {t} c ht =>
    EventRow.instant_eq_ok_iff.2
      ⟨t.micros_floorMicros, ht.floorMicros, t.isWholeMicros_floorMicros⟩
  simp only [notification, ofNotification, hread 5 h.notifyAt, hread 6 h.createdAt]
  rfl

namespace NotificationStore

open Notification

/-- A store of the kind with nothing in it. -/
def empty : StorageKind → NotificationStore
  | .memory => .memory .empty
  | .database => .table []

/-- The store of the kind with these notifications in this order. -/
def ofNotifications : StorageKind → List Notification → NotificationStore
  | .memory, ns => .memory (.of ns)
  | .database, ns => .table (ns.map .ofNotification)

/-- All that the store has, in the order of arrival. -/
def records : NotificationStore → Except StoreError (List Notification)
  | .memory l => .ok l.entries
  | .table t => t.mapM NotificationRow.notification

variable {k : StorageKind} {ns : List Notification} {userId : String} {start finish : Instant}

theorem save_ofNotifications (k : StorageKind) (ns : List Notification) (n : Notification) :
    (ofNotifications k ns).save n
      = ofNotifications k (if n.id ∈ ns.map (·.id) then ns else ns ++ [n]) := by
  cases k with
  | memory => exact congrArg memory (NotificationLog.save_of ns n)
  | database =>
    have hany : (ns.map NotificationRow.ofNotification).any (fun r => r.id == n.id)
        = decide (n.id ∈ ns.map (·.id)) := by
      rw [Bool.eq_iff_iff, decide_eq_true_iff]
      simp [NotificationRow.ofNotification]
    simp only [ofNotifications, save, NotificationTable.save, hany]
    by_cases h : n.id ∈ ns.map (·.id) <;> simp [h]

theorem saveAll_empty_eq (k : StorageKind) (ns : List Notification) :
    (empty k).saveAll ns = ofNotifications k (firsts ns) := by
  induction ns using List.reverseRecOn with
  | nil => cases k <;> rfl
  | append_singleton ns n ih =>
    rw [saveAll_append, ih, firsts_concat]
    simp only [saveAll, List.foldl_cons, List.foldl_nil, save_ofNotifications, mem_ids_firsts]

theorem mapM_notification (h : ∀ n ∈ ns, n.IsOrdinary) :
    (ns.map NotificationRow.ofNotification).mapM NotificationRow.notification
      = .ok (ns.map atStoragePrecision) := by
  rw [mapM_eq_ok_iff, List.forall₂_map_left_iff, List.forall₂_map_right_iff, List.forall₂_same]
  exact fun n hn => NotificationRow.notification_ofNotification (h n hn)

theorem records_ofNotifications (h : k = .database → ∀ n ∈ ns, n.IsOrdinary) :
    (ofNotifications k ns).records = .ok (ns.map k.readBack) := by
  cases k with
  | memory =>
    simp only [ofNotifications, records, NotificationLog.of, StorageKind.map_readBack_memory]
  | database => exact mapM_notification (h rfl)

/-- The notifications of a user and a window by their time, as storage of this kind compares
instants. -/
def ofWindow (k : StorageKind) (userId : String) (start finish : Instant)
    (ns : List Notification) : List Notification :=
  (ns.filter fun n => n.userId = userId ∧ k.AtMost start n.notifyAt
    ∧ k.AtMost n.notifyAt finish).mergeSort fun a b => k.AtMost a.notifyAt b.notifyAt

theorem mem_ofWindow {n : Notification} : n ∈ ofWindow k userId start finish ns
    ↔ n ∈ ns ∧ n.userId = userId ∧ k.AtMost start n.notifyAt ∧ k.AtMost n.notifyAt finish := by
  rw [ofWindow, List.mem_mergeSort, List.mem_filter, decide_eq_true_eq]

theorem ofWindow_perm (k : StorageKind) (userId : String) (start finish : Instant)
    (ns : List Notification) : (ofWindow k userId start finish ns).Perm (ns.filter fun n =>
      n.userId = userId ∧ k.AtMost start n.notifyAt ∧ k.AtMost n.notifyAt finish) :=
  List.mergeSort_perm _ _

theorem ofWindow_nodup (h : (ns.map (·.id)).Nodup) :
    ((ofWindow k userId start finish ns).map (·.id)).Nodup := by
  rw [((ofWindow_perm k userId start finish ns).map _).nodup_iff]
  exact h.sublist (List.filter_sublist.map _)

theorem ofWindow_sorted (k : StorageKind) (userId : String) (start finish : Instant)
    (ns : List Notification) :
    (ofWindow k userId start finish ns).Pairwise fun a b => k.AtMost a.notifyAt b.notifyAt :=
  (List.pairwise_mergeSort k.atMost_trans k.atMost_or _).imp fun h => of_decide_eq_true h

theorem list_ofNotifications (h : k = .database → ∀ n ∈ ns, n.IsOrdinary) :
    (ofNotifications k ns).list userId start finish
      = .ok ((ofWindow k userId start finish ns).map k.readBack) := by
  cases k with
  | memory =>
    have hfilter : ns.filter (fun n => n.userId == userId && decide (start ≤ n.notifyAt)
        && decide (n.notifyAt ≤ finish)) = ns.filter fun n => n.userId = userId
          ∧ StorageKind.AtMost .memory start n.notifyAt
          ∧ StorageKind.AtMost .memory n.notifyAt finish := by
      refine List.filter_congr fun n _ => ?_
      rw [Bool.eq_iff_iff]
      simp only [Bool.and_eq_true, beq_iff_eq, decide_eq_true_eq, and_assoc]
      rfl
    simp only [ofNotifications, list, NotificationLog.list, NotificationLog.of, hfilter,
      StorageKind.map_readBack_memory]
    rfl
  | database =>
    have hfilter : (ns.map NotificationRow.ofNotification).filter (fun r => r.userId == userId
        && decide (start.micros ≤ r.notify) && decide (r.notify ≤ finish.micros))
        = (ns.filter fun n => n.userId = userId ∧ StorageKind.AtMost .database start n.notifyAt
          ∧ StorageKind.AtMost .database n.notifyAt finish).map .ofNotification := by
      rw [List.filter_map]
      refine congrArg _ (List.filter_congr fun n _ => ?_)
      rw [Bool.eq_iff_iff]
      simp only [Function.comp_apply, Bool.and_eq_true, beq_iff_eq, decide_eq_true_eq, and_assoc]
      rfl
    simp only [ofNotifications, list, NotificationTable.list, hfilter]
    rw [← List.map_mergeSort (r := fun a b : Notification =>
      decide (StorageKind.AtMost .database a.notifyAt b.notifyAt)) fun _ _ _ _ => rfl]
    exact mapM_notification fun n hn => h rfl n (mem_ofWindow.1 hn).1

/-- Of those with the same time, the order is that of arrival. -/
theorem ofWindow_stable (k : StorageKind) (userId : String) (start finish t : Instant)
    (ns : List Notification) :
    ((ofWindow k userId start finish ns).filter (·.notifyAt = t)).Sublist ns := by
  have hperm := ofWindow_perm k userId start finish ns
  unfold ofWindow at hperm ⊢
  generalize hes : (ns.filter fun n => n.userId = userId ∧ k.AtMost start n.notifyAt
    ∧ k.AtMost n.notifyAt finish) = es at hperm ⊢
  have hat : ∀ a b : Notification, a.notifyAt = b.notifyAt → k.AtMost a.notifyAt b.notifyAt := by
    intro a b hab
    rw [hab]
    exact (k.atMost_total b.notifyAt b.notifyAt).elim id id
  -- Those of this time are in order already, so sorting leaves them in theirs, and loses none.
  have hsub : (es.filter (·.notifyAt = t)).Sublist
      (es.mergeSort fun a b => k.AtMost a.notifyAt b.notifyAt) := by
    refine List.sublist_mergeSort k.atMost_trans k.atMost_or ?_ List.filter_sublist
    refine List.pairwise_of_forall_mem_list fun a ha b hb => decide_eq_true (hat a b ?_)
    rw [List.mem_filter, decide_eq_true_eq] at ha hb
    rw [ha.2, hb.2]
  have heq := (hsub.filter (·.notifyAt = t)).eq_of_length (by
    rw [List.filter_filter, (hperm.filter _).length_eq]
    simp)
  rw [← heq, List.filter_filter]
  exact List.filter_sublist.trans (hes ▸ List.filter_sublist)

/-- What a log of these notifications holds: the first under each id, in the order of arrival. -/
structure IsLogOf (ns es : List Notification) : Prop where
  sublist : es.Sublist ns
  nodup : (es.map (·.id)).Nodup
  mem_ids : ∀ n ∈ ns, n.id ∈ es.map (·.id)
  mem_iff : ∀ n, n ∈ es ↔ n.IsFirstOf ns

theorem isLogOf_firsts (ns : List Notification) : IsLogOf ns (firsts ns) where
  sublist := firsts_sublist ns
  nodup := ids_firsts_nodup ns
  mem_ids _ hn := mem_ids_firsts.2 (List.mem_map_of_mem hn)
  mem_iff _ := mem_firsts_iff

/-- The answer has a user's notifications of the window, of those first under their ids, each once
and by their time. -/
structure IsAnswer (ns : List Notification) (userId : String) (start finish : Instant)
    (l : List Notification) : Prop where
  nodup : (l.map (·.id)).Nodup
  sorted : l.Pairwise fun a b => a.notifyAt ≤ b.notifyAt
  mem_iff : ∀ n, n ∈ l
    ↔ n.IsFirstOf ns ∧ n.userId = userId ∧ start ≤ n.notifyAt ∧ n.notifyAt ≤ finish

theorem ofWindow_isAnswer (hns : k = .database → ∀ n ∈ ns, n.IsOrdinary ∧ n.IsWholeMicros)
    (hstart : k = .database → start.IsOrdinary ∧ start.IsWholeMicros)
    (hfinish : k = .database → finish.IsOrdinary) :
    IsAnswer ns userId start finish (ofWindow k userId start finish (firsts ns)) := by
  have hmem : ∀ {n}, n ∈ firsts ns → k = .database → n.IsOrdinary ∧ n.IsWholeMicros :=
    fun hn hk => hns hk _ ((firsts_sublist ns).subset hn)
  refine ⟨ofWindow_nodup (ids_firsts_nodup ns), ?_, fun n => ?_⟩
  · refine (ofWindow_sorted k userId start finish _).imp_of_mem fun {a b} ha hb hab => ?_
    have ha := hmem (mem_ofWindow.1 ha).1
    have hb := hmem (mem_ofWindow.1 hb).1
    exact (StorageKind.atMost_iff (fun hk => ⟨(ha hk).1.notifyAt, (ha hk).2.notifyAt⟩)
      fun hk => (hb hk).1.notifyAt).1 hab
  · rw [mem_ofWindow, ← mem_firsts_iff]
    refine and_congr_right fun hn => and_congr_right fun _ => and_congr ?_ ?_
    · exact StorageKind.atMost_iff hstart fun hk => (hmem hn hk).1.notifyAt
    · exact StorageKind.atMost_iff
        (fun hk => ⟨(hmem hn hk).1.notifyAt, (hmem hn hk).2.notifyAt⟩) hfinish

/-- Whatever was saved in a log that was empty, and however often, it holds the first notification
under each id, and in memory the set beside it has just their ids, each once. A list has those of
the user and the window. What a table has, and the beginning of a window that it is asked for, are
whole microseconds outside leap seconds; the window's end need only be outside them. To save again
what has an id that is taken leaves the log as it is, so no later list tells of it. -/
theorem saveAll_keeps_firsts (k : StorageKind) (ns : List Notification)
    (hns : k = .database → ∀ n ∈ ns, n.IsOrdinary ∧ n.IsWholeMicros) :
    ∃ es, ((empty k).saveAll ns).records = .ok es ∧ IsLogOf ns es
      ∧ (∃ ids, (empty .memory).saveAll ns = .memory ⟨es, ids⟩ ∧ ids.Nodup
        ∧ ∀ id, id ∈ ids ↔ id ∈ es.map (·.id))
      ∧ (∀ userId start finish,
        (k = .database → (start.IsOrdinary ∧ start.IsWholeMicros) ∧ finish.IsOrdinary) →
          ∃ l, ((empty k).saveAll ns).list userId start finish = .ok l
            ∧ IsAnswer ns userId start finish l
            ∧ (k = .memory → ∀ t, (l.filter (·.notifyAt = t)).Sublist es))
      ∧ ∀ as, Redelivers (ns.map (·, none)) as →
        (empty k).saveAll (savedOf as) = (empty k).saveAll ns := by
  have hfirsts : k = .database → ∀ n ∈ firsts ns, n.IsOrdinary ∧ n.IsWholeMicros :=
    fun hk n hn => hns hk n ((firsts_sublist ns).subset hn)
  have hord : k = .database → ∀ n ∈ firsts ns, n.IsOrdinary := fun hk n hn => (hfirsts hk n hn).1
  have hback : ∀ l ⊆ firsts ns, l.map k.readBack = l := by
    intro l hl
    have hid : l.map k.readBack = l.map fun n => n := List.map_congr_left fun n hn =>
      StorageKind.readBack_eq fun hk => (hfirsts hk n (hl hn)).2
    rw [hid, List.map_id']
  refine ⟨firsts ns, ?_, isLogOf_firsts ns, ⟨_, saveAll_empty ns, ids_firsts_nodup ns,
    fun _ => Iff.rfl⟩, ?_, fun as has => ?_⟩
  · rw [saveAll_empty_eq, records_ofNotifications hord, hback _ (List.Subset.refl _)]
  · intro userId start finish hbounds
    refine ⟨ofWindow k userId start finish (firsts ns), ?_,
      ofWindow_isAnswer hns (fun hk => (hbounds hk).1) (fun hk => (hbounds hk).2),
      fun _ t => ofWindow_stable k userId start finish t _⟩
    rw [saveAll_empty_eq, list_ofNotifications hord, hback]
    exact fun n hn => (mem_ofWindow.1 hn).1
  · have hsaved : savedOf (ns.map (·, none)) = ns := by
      rw [savedOf, List.filter_eq_self.2 (by simp), List.map_map]
      exact List.map_id ns
    rw [saveAll_redelivers has, hsaved]

section Meals

open Instant

def meal (id title : String) (t : Instant) : Notification := ⟨id, "e", title, "ada", "", t, t⟩

/-- The dinner comes again under another title, after the lunch that is served before it. -/
def meals : List Notification :=
  [meal "d" "Dinner" (atTime 60 1000), meal "l" "Lunch" (atTime 60 0),
    meal "d" "Late dinner" (atTime 30 0), meal "s" "Supper" (atTime 60 1000)]

theorem saveAll_keeps_firsts_meals :
    (StorageKind.database = .database → ∀ n ∈ meals, n.IsOrdinary ∧ n.IsWholeMicros)
      ∧ (∃ es, ((empty .database).saveAll meals).records = .ok es ∧ IsLogOf meals es
        ∧ es.map (·.eventTitle) = ["Dinner", "Lunch", "Supper"])
      ∧ (∃ l, ((empty .database).saveAll meals).list "ada" (atTime 60 0) (atTime 60 1000) = .ok l
        ∧ IsAnswer meals "ada" (atTime 60 0) (atTime 60 1000) l
        ∧ ∀ n ∈ meals, n ∈ l ↔ n.eventTitle ≠ "Late dinner")
      ∧ (empty .database).saveAll (meals ++ [meal "l" "Late lunch" (atTime 0 0)])
        = (empty .database).saveAll meals := by
  have hmeals : StorageKind.database = .database → ∀ n ∈ meals, n.IsOrdinary ∧ n.IsWholeMicros := by
    decide
  obtain ⟨es, hes, hlog, -, hlist, hagain⟩ := saveAll_keeps_firsts .database meals hmeals
  refine ⟨hmeals, ⟨es, hes, hlog, ?_⟩, ?_, ?_⟩
  · have hrecords : ((empty .database).saveAll meals).records = .ok
        [meal "d" "Dinner" (atTime 60 1000), meal "l" "Lunch" (atTime 60 0),
          meal "s" "Supper" (atTime 60 1000)] := by decide +kernel
    obtain rfl := Except.ok.inj (hes.symm.trans hrecords)
    rfl
  · obtain ⟨l, hl, hanswer, -⟩ := hlist "ada" (atTime 60 0) (atTime 60 1000) (by decide)
    refine ⟨l, hl, hanswer, fun n hn => (hanswer.mem_iff n).trans ?_⟩
    revert n
    decide
  · have hsame : Redelivers (meals.map (·, none)) (meals.map (·, none) ++ []) := by
      rw [List.append_nil]
      exact .same _
    exact hagain _ (hsame.again (meal "l" "Late lunch" (atTime 0 0)) none (by decide))

end Meals

end NotificationStore

end Datebook
