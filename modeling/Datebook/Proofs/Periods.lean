import Datebook.Proofs.Bench

/-!
# Ticks one interval apart

The windows of ticks that are exactly one interval apart meet at their ends, which belong to none of
them. When nothing fails, each tick sends every reminder strictly inside its window of an event that
starts by the end of it, since no tick removes an event before it starts (`ticks_store`). No tick
sends any other (`exists_of_mem_offers`), so a reminder at the very instant of a tick is left out,
and so is one of an event that starts after the window that the reminder lies in.
-/

namespace Datebook

namespace Tick

variable {s : SchedulerSettings} {now : Instant}

/-- The instant of the tick after this one, or the end of the calendar. -/
def next (s : SchedulerSettings) (now : Instant) : Instant :=
  (now.add? (Span.ofSeconds s.intervalSecs)).getD Instant.last

/-- An interval too long to count with leaves the calendar anyway. -/
theorem windowEnd_eq (s : SchedulerSettings) (now : Instant) :
    windowEnd s now = (now.add? (Span.ofMillis s.intervalMillis)).getD Instant.last := by
  have hfar : ∀ {d : Int}, Span.longest ≤ d → now.add? d = none := by
    intro d hle
    rcases hu : now.add? d with _ | u
    · rfl
    · exact absurd (Instant.lt_longest_of_add? hu) (Int.not_lt.2 hle)
  unfold windowEnd SchedulerSettings.lookAhead
  rcases Int.le_total (Span.ofMillis s.intervalMillis) Span.longest with hle | hle
  · rw [Int.min_eq_left hle]
  · rw [Int.min_eq_right hle, hfar hle, hfar (Int.le_refl _)]

theorem windowEnd_eq_next (hI : 1 ≤ s.intervalSecs) (now : Instant) :
    windowEnd s now = next s now := by
  have hm : (s.intervalMillis : Int) * 1000000 = (s.intervalSecs : Int) * 1000000000 := by
    unfold SchedulerSettings.intervalMillis
    omega
  rw [windowEnd_eq, Span.ofMillis, hm]
  rfl

theorem cutoff_le (s : SchedulerSettings) (now : Instant) : cutoff s now ≤ now := by
  unfold cutoff
  rcases hu : now.sub? s.retention with _ | u
  · exact now.first_le
  · refine Instant.le_of_sub? ?_ hu
    unfold SchedulerSettings.retention Span.ofSeconds Span.longest
    omega

theorem not_inWindow_cutoff {k : StorageKind} {e : Event} (he : k.Fits e)
    (hord : k = .database → now.IsOrdinary) (hlt : now < e.startTime) :
    ¬ k.InWindow Instant.first (cutoff s now) e := by
  rw [he.inWindow_iff fun hk => ⟨by decide, by decide, isOrdinary_cutoff (hord hk)⟩]
  rintro ⟨-, hle⟩
  exact Instant.not_lt.2 (Instant.le_refl _)
    (Instant.lt_of_lt_of_le hlt (Instant.le_trans hle (cutoff_le s now)))

end Tick

structure Conditions.AreGood {π : Type} (c : Conditions π) : Prop where
  send : ∀ n p, (c.send n p).1 = .ok ()
  listFails : ∀ n, c.listFails n = none
  deleteFails : ∀ id, c.deleteFails id = none

namespace Bench

open EventStore Tick

variable {π : Type} (c : Conditions π) (s : SchedulerSettings) (t : Nat → Instant)

/-- The bench after the first ticks at these instants. -/
def ticks (b : Bench π) : Nat → Bench π
  | 0 => b
  | n + 1 => ((b.ticks n).tick c s (t n)).2

variable {c s t} {k : StorageKind} {es : List Event} {b : Bench π} {n : Nat}

/-- Events are only taken away, and none before it starts. -/
theorem ticks_store (hb : b.store = ofEvents k es) (hes : ∀ e ∈ es, k.Fits e)
    (hn : (es.map (·.id)).Nodup) : ∀ n, ∃ es', (b.ticks c s t n).store = ofEvents k es'
      ∧ es'.Sublist es ∧ ((k = .database → ∀ i < n, (t i).IsOrdinary) →
        ∀ e ∈ es, (∀ i < n, t i < e.startTime) → e ∈ es')
  | 0 => ⟨es, hb, List.Sublist.refl _, fun _ _ he _ => he⟩
  | n + 1 => by
    obtain ⟨es', hs, hsub, hmem⟩ := ticks_store hb hes hn n
    have hes' : ∀ e ∈ es', k.Fits e := fun e he => hes e (hsub.subset he)
    obtain ⟨_, _, _, _, -, -, hrun⟩ := tick_run c s (t n) hs hes' (hn.sublist (hsub.map _))
    refine ⟨es'.filter (¬ c.Removes k 1 (cutoff s (t n)) ·), ?_, List.filter_sublist.trans hsub, ?_⟩
    · rw [ticks, hrun]
    · intro hord e he hlt
      have he' := hmem (fun hk i hi => hord hk i (Nat.lt_succ_of_lt hi)) e he
        fun i hi => hlt i (Nat.lt_succ_of_lt hi)
      refine List.mem_filter.2 ⟨he', decide_eq_true fun hrem => ?_⟩
      exact not_inWindow_cutoff (hes e he) (fun hk => hord hk n (Nat.lt_succ_self n))
        (hlt n (Nat.lt_succ_self n)) hrem.2.1

/-- Each tick adds to the offers what it finds among the events that are left. -/
theorem ticks_succ (hb : b.store = ofEvents k es) (hes : ∀ e ∈ es, k.Fits e)
    (hn : (es.map (·.id)).Nodup) (n : Nat) :
    ∃ (es' due : List Event) (offered : List Offer), es'.Sublist es
      ∧ ((k = .database → ∀ i < n, (t i).IsOrdinary) →
        ∀ e ∈ es, (∀ i < n, t i < e.startTime) → e ∈ es')
      ∧ due.Perm (es'.filter (c.Finds k 0 (t n) (windowEnd s (t n)) ·))
      ∧ List.Forall₂ (c.Offers (t n)) offered due
      ∧ (b.ticks c s t (n + 1)).offers = (b.ticks c s t n).offers ++ offered := by
  obtain ⟨es', hs, hsub, hmem⟩ := ticks_store (c := c) (s := s) (t := t) hb hes hn n
  have hes' : ∀ e ∈ es', k.Fits e := fun e he => hes e (hsub.subset he)
  obtain ⟨due, offered, _, _, hperm, hall, hrun⟩ :=
    tick_run c s (t n) hs hes' (hn.sublist (hsub.map _))
  refine ⟨es', due, offered, hsub, hmem, hperm, hall, ?_⟩
  rw [ticks, hrun]

/-- Every offer comes from an event in the window of a tick, with its reminder strictly inside. -/
theorem exists_of_mem_offers (hb : b.store = ofEvents k es) (hes : ∀ e ∈ es, k.Fits e)
    (hn : (es.map (·.id)).Nodup) (ho : b.offers = []) :
    ∀ n, ∀ o ∈ (b.ticks c s t n).offers,
      ∃ i < n, ∃ e ∈ es, c.Finds k 0 (t i) (windowEnd s (t i)) e ∧ c.Offers (t i) o e
  | 0, o, hmem => by
    rw [ticks, ho] at hmem
    cases hmem
  | n + 1, o, hmem => by
    obtain ⟨es', due, offered, hsub, -, hperm, hall, hrun⟩ :=
      ticks_succ (c := c) (s := s) (t := t) hb hes hn n
    rw [hrun, List.mem_append] at hmem
    rcases hmem with hmem | hmem
    · obtain ⟨i, hi, hfound⟩ := exists_of_mem_offers hb hes hn ho n o hmem
      exact ⟨i, Nat.lt_succ_of_lt hi, hfound⟩
    · obtain ⟨e, he, hoffer⟩ := exists_mem_of_forall₂ hall.flip o hmem
      rw [hperm.mem_iff, List.mem_filter, decide_eq_true_eq] at he
      exact ⟨n, Nat.lt_succ_self n, e, hsub.subset he.1, he.2, hoffer⟩

theorem offers_subset (hb : b.store = ofEvents k es) (hes : ∀ e ∈ es, k.Fits e)
    (hn : (es.map (·.id)).Nodup) (m : Nat) :
    ∀ d, (b.ticks c s t m).offers ⊆ (b.ticks c s t (m + d)).offers
  | 0 => List.Subset.refl _
  | d + 1 => by
    obtain ⟨_, _, offered, -, -, -, -, hrun⟩ :=
      ticks_succ (c := c) (s := s) (t := t) hb hes hn (m + d)
    refine List.Subset.trans (offers_subset hb hes hn m d) ?_
    rw [← Nat.add_assoc, hrun]
    exact List.subset_append_left _ _

section Periodic

variable {I : Nat}

theorem isOrdinary_of_periodic (ht : ∀ i < n, (t i).add? (Span.ofSeconds I) = some (t (i + 1)))
    (h : (t 0).IsOrdinary) : ∀ i ≤ n, (t i).IsOrdinary
  | 0, _ => h
  | i + 1, hi =>
    ((Instant.add?_eq_some_iff (isOrdinary_of_periodic ht h i (Nat.le_of_lt hi))).1 (ht i hi)).1

theorem le_of_periodic (hI : 1 ≤ I)
    (ht : ∀ i < n, (t i).add? (Span.ofSeconds I) = some (t (i + 1))) {i : Nat} :
    ∀ d, i + d ≤ n → t i ≤ t (i + d)
  | 0, _ => Instant.le_refl _
  | d + 1, hd => by
    have hsec : (1000000000 : Int) ≤ Span.ofSeconds I := by
      unfold Span.ofSeconds
      omega
    have hlt := Instant.lt_of_add? hsec (ht (i + d) hd)
    exact Instant.le_trans (le_of_periodic hI ht d (Nat.le_of_lt hd)) (Instant.le_of_lt hlt)

end Periodic

/-- When nothing fails, the ticks send every reminder that lies strictly between one tick and the
next, of an event that starts by then. -/
theorem exists_offer_of_between (hg : c.AreGood) (hI : 1 ≤ s.intervalSecs)
    (ht : ∀ i < n, (t i).add? (Span.ofSeconds s.intervalSecs) = some (t (i + 1)))
    {store : EventStore} (hs : store.Holds es) (hn : (es.map (·.id)).Nodup)
    (hv : ∀ e ∈ es, e.IsValid) (hord : store.kind = .database → (t 0).IsOrdinary) (producer : π)
    {e : Event} (he : e ∈ es) {r : Instant} (hr : r ∈ e.reminderAt) {i : Nat} (hi : i ≤ n)
    (hlt : t i < r) (hgt : r < next s (t i)) (hstart : e.startTime ≤ next s (t i)) :
    ∃ o ∈ ((new store producer).ticks c s t (n + 1)).offers, o.1.IsReminderOf e (t i)
      ∧ o.2 = .ok () := by
  obtain ⟨k, rfl, hes⟩ := holds_iff.1 hs
  rw [kind_ofEvents] at hord
  have hord' : k = .database → ∀ j ≤ n, (t j).IsOrdinary := fun hk =>
    isOrdinary_of_periodic ht (hord hk)
  have hafter : t i < e.startTime := Instant.lt_of_lt_of_le hlt ((hv e he).reminderAt_le r hr)
  have hbefore : ∀ j < i, t j < e.startTime := by
    intro j hj
    obtain ⟨d, rfl⟩ := Nat.exists_eq_add_of_le (Nat.le_of_lt hj)
    exact Instant.lt_of_le_of_lt (le_of_periodic hI ht d hi) hafter
  have hb : (new (ofEvents k es) producer).store = ofEvents k es := rfl
  obtain ⟨es', due, offered, -, hmem, hperm, hall, hrun⟩ :=
    ticks_succ (c := c) (s := s) (t := t) hb hes hn i
  have he' := hmem (fun hk j hj => hord' hk j (Nat.le_trans (Nat.le_of_lt hj) hi)) e he hbefore
  have hwin : k.InWindow (t i) (windowEnd s (t i)) e ∧ IsDue (t i) (windowEnd s (t i)) e := by
    have hf : k = .database → (t i).IsOrdinary ∧ (windowEnd s (t i)).IsOrdinary := fun hk =>
      ⟨hord' hk i hi, isOrdinary_windowEnd (hord' hk i hi)⟩
    rw [inWindow_and_isDue_iff (hv e he) (hes e he) hf, windowEnd_eq_next hI]
    exact ⟨Instant.le_of_lt hafter, hstart, r, hr, hlt, hgt⟩
  have hdue : e ∈ due := hperm.mem_iff.2
    (List.mem_filter.2 ⟨he', decide_eq_true ⟨hg.listFails 0, hwin⟩⟩)
  obtain ⟨o, ho, hrem, p, hsent⟩ := exists_mem_of_forall₂ hall e hdue
  obtain ⟨d, rfl⟩ := Nat.exists_eq_add_of_le hi
  refine ⟨o, ?_, hrem, hsent.trans (hg.send _ _)⟩
  have hsub := offers_subset (c := c) (s := s) (t := t) hb hes hn (i + 1) d
  rw [Nat.add_right_comm] at hsub
  exact hsub (hrun ▸ List.mem_append_right _ ho)

def fair : Conditions Unit where
  newId := toString
  send _ _ := (.ok (), ())
  listFails _ := none
  deleteFails _ := none

theorem fair_areGood : fair.AreGood := ⟨fun _ _ => rfl, fun _ => rfl, fun _ => rfl⟩

/-- The beginnings of minutes, from 1970 on. -/
def minute (i : Nat) : Instant :=
  (Instant.add? (.atTime 0 0) (Span.ofSeconds (60 * i))).getD Instant.last

/-- A dinner half a minute after the second tick. -/
def supper : Event := .dinner "a" "Supper" (.atTime 90 0)

theorem exists_offer_of_between_supper :
    fair.AreGood ∧ (∀ i < 2, (minute i).add? (Span.ofSeconds 60) = some (minute (i + 1)))
      ∧ (ofEvents .database [supper]).Holds [supper] ∧ ([supper].map (·.id)).Nodup
      ∧ (∀ e ∈ [supper], e.IsValid) ∧ (minute 0).IsOrdinary
      ∧ minute 1 < supper.startTime ∧ supper.startTime < next ⟨60, 3600⟩ (minute 1)
      ∧ ∃ o ∈ ((new (ofEvents .database [supper]) ()).ticks fair ⟨60, 3600⟩ minute 3).offers,
        o.1.IsReminderOf supper (minute 1) ∧ o.2 = .ok () :=
  have ht : ∀ i < 2, (minute i).add? (Span.ofSeconds 60) = some (minute (i + 1)) := by
    decide +kernel
  have hs : (ofEvents .database [supper]).Holds [supper] := holds_iff.2 ⟨.database, rfl, by decide⟩
  have hn : ([supper].map (·.id)).Nodup := by decide
  have hv : ∀ e ∈ [supper], e.IsValid := by decide +kernel
  have hord : (minute 0).IsOrdinary := by decide +kernel
  have hlt : minute 1 < supper.startTime := by decide +kernel
  have hgt : supper.startTime < next ⟨60, 3600⟩ (minute 1) := by decide +kernel
  ⟨fair_areGood, ht, hs, hn, hv, hord, hlt, hgt,
    exists_offer_of_between (s := ⟨60, 3600⟩) fair_areGood (by decide) ht hs hn hv (fun _ => hord)
      () List.mem_cons_self rfl (by decide) hlt hgt (Instant.le_of_lt hgt)⟩

/-- A dinner at the beginning of a minute, and one that is reminded of long before. -/
def overlooked : List Event :=
  [.dinner "a" "Dinner" (minute 1),
    { Event.dinner "b" "Supper" (minute 120) with
      reminderAt := some (.atTime 30 0) }]

def leap : Instant := .atTime 59 1500000000

/-- A dinner in the second after it. -/
def afterLeap : Event := .dinner "a" "Dinner" (.atTime 60 200000000)

/-- Neither of these reminders is sent by the ticks around it: one is at the instant of a tick, one
is of an event that starts after the window. Nor does a table list what follows a leap second. -/
theorem nothing_offered :
    fair.AreGood ∧ (∀ i < 3, (minute i).add? (Span.ofSeconds 60) = some (minute (i + 1)))
      ∧ (∀ e ∈ overlooked, e.IsValid ∧ ∃ r ∈ e.reminderAt, minute 0 < r ∧ r < minute 3)
      ∧ (ofEvents .memory overlooked).Holds overlooked
      ∧ ((new (ofEvents .memory overlooked) ()).ticks fair ⟨60, 3600⟩ minute 3).offers = []
      ∧ afterLeap.IsValid ∧ (ofEvents .database [afterLeap]).Holds [afterLeap]
      ∧ (∃ r ∈ afterLeap.reminderAt, leap < r ∧ ∃ u, leap.add? (Span.ofSeconds 60) = some u ∧ r < u)
      ∧ ((new (ofEvents .database [afterLeap]) ()).ticks fair ⟨60, 3600⟩ (fun _ => leap) 1).offers
        = [] := by
  refine ⟨fair_areGood, by decide +kernel, by decide +kernel, holds_iff.2 ⟨.memory, rfl, by decide⟩,
    by decide +kernel, by decide +kernel, holds_iff.2 ⟨.database, rfl, by decide⟩, ?_, ?_⟩
  · exact ⟨_, rfl, by decide, _, rfl, by decide⟩
  · rw [List.eq_nil_iff_forall_not_mem]
    intro o ho
    have hs : (new (ofEvents .database [afterLeap]) ()).store
        = ofEvents .database [afterLeap] := rfl
    obtain ⟨i, -, e, he, hfound, -⟩ :=
      exists_of_mem_offers hs (by decide) (by decide) rfl 1 o ho
    rw [List.mem_singleton.1 he] at hfound
    exact absurd hfound.2.1 (by decide)

end Bench

end Datebook
